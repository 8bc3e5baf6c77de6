import MemberOrigin.Proofs.Classification.Answers
import MemberOrigin.Proofs.Generated.Equals

/-!
# Fields under a recognised equality

## Main result

`Dump.equals_comparesFields`: where an `Equals` of a loaded record is recognised, every declared
field is behind a property, and the fields behind compared properties are compared by exactly one
condition each. There are two more conditions, and no others.

## Proof strategy

Recognition walks the properties and not the fields. The order of the members is only known if every
field is behind a property, and distinct names make the pairing one to one. So the fields that are
met on the walk are, in another order, the declared ones that are to be compared.
-/
namespace MemberOrigin

namespace Generated

variable {analysis : Analysis} {record : RecordType} {other : Variable} {fields : List Field}
  {conditions : List Instr}

/-! ### Conditions and fields -/

/-- A condition compares fields of one name only. -/
theorem ComparesField.name_eq {field field' : Field} {condition : Instr}
    (compares : ComparesField other field condition)
    (compares' : ComparesField other field' condition) : field.name = field'.name := by
  cases compares with
  | call _ _ ofThis =>
    cases compares' with
    | call _ _ ofThis' =>
      obtain ⟨accessed, rfl, same⟩ := ofThis
      obtain ⟨_, loaded, same'⟩ := ofThis'
      cases loaded
      simp only [FieldRef.same, Field.toRef, Bool.and_eq_true, beq_iff_eq] at same same'
      exact same.1.1.symm.trans same'.1.1

/-- In front of the comparisons stand two conditions, which compare no field. -/
theorem EqualityConditions.split (accepted : EqualityConditions other fields conditions) :
    ∃ notNull contract comparisons, conditions = notNull :: contract :: comparisons ∧
      List.Forall₂ (ComparesField other) fields comparisons ∧
      ∀ field, ¬ ComparesField other field notNull ∧ ¬ ComparesField other field contract := by
  cases accepted with
  | conditions passed contracts compared =>
    refine ⟨_, _, _, rfl, compared, fun field => ⟨?_, ?_⟩⟩
    · rintro ⟨⟩
    · -- a comparison is a virtual call, and the comparison of the contracts is not
      intro compares
      cases contracts
      cases compares

theorem EqualityConditions.length_eq (accepted : EqualityConditions other fields conditions) :
    conditions.length = 2 + fields.length := by
  obtain ⟨_, _, _, rfl, compared, _⟩ := accepted.split
  have same := compared.length_eq
  simp only [List.length_cons]
  omega

/-- Every field is compared by the condition at one position. -/
theorem EqualityConditions.existsUnique (accepted : EqualityConditions other fields conditions)
    (distinct : (fields.map fun field => field.name).Nodup) {field : Field}
    (member : field ∈ fields) :
    ∃! position : Nat, ∃ condition, conditions[position]? = some condition ∧
      ComparesField other field condition := by
  obtain ⟨notNull, contract, comparisons, rfl, compared, apart⟩ := accepted.split
  obtain ⟨sameLength, pointwise⟩ := List.forall₂_iff_get.mp compared
  obtain ⟨index, bound, here⟩ := List.getElem_of_mem member
  have bound' : index < comparisons.length := sameLength ▸ bound
  have compares : ComparesField other field comparisons[index] := by
    have atIndex := pointwise index bound bound'
    simpa only [List.get_eq_getElem, here] using atIndex
  refine ⟨index + 2, ⟨comparisons[index], by simp [bound'], compares⟩, ?_⟩
  rintro position ⟨condition, found, compares'⟩
  match position with
  | 0 =>
    obtain rfl : notNull = condition := by simpa using found
    exact absurd compares' (apart field).1
  | 1 =>
    obtain rfl : contract = condition := by simpa using found
    exact absurd compares' (apart field).2
  | index' + 2 =>
    -- the condition compares the field at its own index, which has the name of this one
    obtain ⟨inside', rfl⟩ := List.getElem?_eq_some_iff.mp
      (show comparisons[index']? = some condition by simpa using found)
    have inside : index' < fields.length := sameLength ▸ inside'
    have names : fields[index'].name = fields[index].name := by
      have atIndex := pointwise index' inside inside'
      simp only [List.get_eq_getElem] at atIndex
      rw [here]
      exact atIndex.name_eq compares'
    have sameField : fields[index'] = fields[index] :=
      List.inj_on_of_nodup_map distinct (List.getElem_mem inside) (List.getElem_mem bound) names
    have same : index' = index := (List.Nodup.getElem_inj_iff distinct.of_map).mp sameField
    omega

/-! ### The fields that are met -/

section Paired

variable (paired : analysis.PairsOneToOne record)

include paired

theorem mem_comparedFields_iff {field : Field} :
    field ∈ comparedFields analysis record.properties ↔
      ∃ property, (property, field) ∈ analysis.backingFields.pairs ∧ isCompared property = true := by
  simp only [comparedFields, List.mem_filterMap, List.mem_filter]
  constructor
  · rintro ⟨property, ⟨known, compared⟩, behind⟩
    exact ⟨property, (paired.fieldOf property known field).mp behind, compared⟩
  · rintro ⟨property, pair, compared⟩
    have known : property ∈ record.properties :=
      paired.order.subset (List.mem_map.mpr ⟨_, pair, rfl⟩)
    exact ⟨property, ⟨known, compared⟩, (paired.fieldOf property known field).mpr pair⟩

theorem nodup_comparedFields
    (distinct : (record.properties.map fun property => property.name).Nodup) :
    ((comparedFields analysis record.properties).map fun field => field.name).Nodup := by
  rw [comparedFields, List.filterMap_filter, List.Nodup, List.pairwise_map, List.pairwise_filterMap]
  apply (List.pairwise_map.mp distinct).imp_of_mem
  intro property property' known known' differ field found field' found' same
  -- the name of a field tells the name of the property in front of it
  have name {property : Property} (known : property ∈ record.properties) {field : Field}
      (found : (if isCompared property then analysis.backingFields.fieldOf? property else none) =
        some field) : field.name = backingFieldName property.name := by
    have behind := (Option.ite_none_right_eq_some.mp found).2
    exact paired.name _ ((paired.fieldOf property known field).mp behind)
  rw [name known found, name known' found', backingFieldName_inj] at same
  exact differ same

/-- The fields that are met on the walk are the declared ones behind compared properties. -/
theorem comparedFields_perm
    (properties : (record.properties.map fun property => property.name).Nodup)
    (fields : (record.fields.map fun field => field.name).Nodup) :
    (comparedFields analysis record.properties).Perm
      (record.fields.filter fun field =>
        (analysis.backingFields.propertyOf? field).any isCompared) := by
  -- neither list repeats a field, so it is enough that they have the same ones
  apply (List.perm_ext_iff_of_nodup (nodup_comparedFields paired properties).of_map
    (fields.of_map.filter _)).mpr
  intro field
  rw [mem_comparedFields_iff paired, List.mem_filter, Option.any_eq_true]
  constructor
  · rintro ⟨property, pair, compared⟩
    have declared := paired.declared _ pair
    exact ⟨declared, property, (paired.propertyOf field declared property).mpr pair, compared⟩
  · rintro ⟨declared, property, inFront, compared⟩
    exact ⟨property, (paired.propertyOf field declared property).mp inFront, compared⟩

end Paired

end Generated

/-! ### Loaded dumps -/

namespace Dump

open Generated

/-- No field escapes a recognised `Equals`: every declared field is behind a property; if that is an
instance property other than the equality contract, exactly one condition of the returned conjunction
compares the field between the receiver and the parameter; and two conditions are left over. -/
theorem equals_comparesFields {fileName : String} {document : Document} {dump : RecordDump}
    (loaded : load fileName document = .ok dump) {checked : Bool} {analysis : Analysis}
    (built : (Analysis.build dump.record checked).eval dump.bodies.ofMethod = .ok analysis)
    {method : Method}
    (recognised : (Generated.equals analysis method).eval dump.bodies.ofMethod = .ok true) :
    ∃ body returned rest other,
      dump.bodies.ofMethod method = some body ∧
      body.instructions = .leave .body returned :: rest ∧ body.IsParameter 0 other ∧
      (∀ field ∈ dump.record.fields, ∃ property ∈ dump.record.properties,
        analysis.backingFields.propertyOf? field = some property ∧
        analysis.backingFields.fieldOf? property = some field ∧
        (property.isStatic = false → property.name ≠ equalityContractName →
          ∃! position : Nat, ∃ condition, returned.conjuncts[position]? = some condition ∧
            ComparesField other field condition)) ∧
      returned.conjuncts.length = 2 + dump.record.fields.countP fun field =>
        (analysis.backingFields.propertyOf? field).any fun property =>
          !property.isStatic && property.name != equalityContractName := by
  have propertyNames := propertyNames_of_load loaded
  have fieldNames := fieldNames_of_load loaded
  obtain ⟨_, _, paired⟩ := of_build loaded built
  obtain ⟨_, _, order, fields, body, returned, rest, other, conditions, known, compared,
    ⟨_, _, available⟩, starts, parameter, leaves, accepted⟩ := synthesizedEquals_of_equals recognised
  -- the order, the fields and the conditions of the shape are those of the statement
  obtain ⟨rfl, covered⟩ := (paired.memberOrder order).mp known
  obtain rfl := (comparedFields_eq_iff _ fields).mpr compared
  obtain rfl := Instr.conjuncts_eq_iff.mpr leaves
  refine ⟨body, returned, rest, other, available, starts, parameter, ?_, ?_⟩
  · intro field declared
    obtain ⟨property, pair⟩ := covered field declared
    have listed : property ∈ dump.record.properties :=
      paired.order.subset (List.mem_map.mpr ⟨_, pair, rfl⟩)
    refine ⟨property, listed, (paired.propertyOf field declared property).mpr pair,
      (paired.fieldOf property listed field).mpr pair, fun isInstance name => ?_⟩
    -- the field is met on the walk, as it is behind a compared property
    have met : field ∈ comparedFields analysis dump.record.properties :=
      (mem_comparedFields_iff paired).mpr ⟨property, pair, isCompared_iff.mpr ⟨isInstance, name⟩⟩
    exact accepted.existsUnique (nodup_comparedFields paired propertyNames) met
  · rw [accepted.length_eq, (comparedFields_perm paired propertyNames fieldNames).length_eq,
      ← List.countP_eq_length_filter]
    rfl

theorem equals_comparesFields_synthesizedDump :
    ∃ analysis,
      (Analysis.build synthesizedDump.record true).eval synthesizedDump.bodies.ofMethod =
        .ok analysis ∧
      (Generated.equals analysis (synthesizedMethod 2)).eval synthesizedDump.bodies.ofMethod =
        .ok true ∧
      ∃ body returned rest other,
        synthesizedDump.bodies.ofMethod (synthesizedMethod 2) = some body ∧
        body.instructions = .leave .body returned :: rest ∧ body.IsParameter 0 other ∧
        returned.conjuncts.length = 4 := by
  -- both queries run in one evaluation, which is taken apart below
  have evaluated : (Analysis.build synthesizedDump.record true >>= fun analysis => do
      let verdict ← Generated.equals analysis (synthesizedMethod 2)
      return verdict && (synthesizedDump.record.fields.countP fun field =>
        (analysis.backingFields.propertyOf? field).any fun property =>
          !property.isStatic && property.name != equalityContractName) == 2).eval
        synthesizedDump.bodies.ofMethod = .ok true := by
    decide +kernel
  obtain ⟨analysis, built, evaluated⟩ := (Query.eval_bind_eq_ok_iff _).mp evaluated
  obtain ⟨verdict, recognised, evaluated⟩ := (Query.eval_bind_eq_ok_iff _).mp evaluated
  rw [Query.eval_pure, Except.ok.injEq, Bool.and_eq_true, beq_iff_eq] at evaluated
  obtain ⟨rfl, two⟩ := evaluated
  obtain ⟨body, returned, rest, other, available, starts, parameter, _, number⟩ :=
    equals_comparesFields load_synthesizedDocument built recognised
  exact ⟨analysis, built, recognised, body, returned, rest, other, available, starts, parameter,
    by rw [number, two]⟩

end Dump

end MemberOrigin
