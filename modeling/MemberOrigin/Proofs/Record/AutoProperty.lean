import MemberOrigin.Proofs.Record.BackingFields
import MemberOrigin.Proofs.Record.Promises
import MemberOrigin.Record.Analysis

/-!
# Pairing of automatic properties

## Main result

`Analysis.build_meets`: where properties and fields have distinct names, every analysis succeeds, and
it pairs some of the properties in order with fields that carry their names, one to one. The two
directions of the pairing are inverse to each other, and the order of the members is known exactly
if every field is in a pair.

## Proof strategy

A field is only paired with a property if it has the name that belongs to the property. This name
tells the property, so that distinct names of properties give distinct names of fields, and pairs
without a common name have no common key.
-/
namespace MemberOrigin

/-- The getter or the setter of a property. -/
def Property.IsAccessor (property : Property) (method : Method) : Prop :=
  property.getter = some method ∨ property.setter = some method

/-- A declared field that carries the name of the field behind a property. -/
structure RecordType.DeclaresBehind (record : RecordType) (property : Property) (field : Field) :
    Prop where
  declared : field ∈ record.fields
  name : field.name = backingFieldName property.name

theorem backingFieldName_inj {name other : String} :
    backingFieldName name = backingFieldName other ↔ name = other := by
  simp [backingFieldName]

namespace AutoProperty

open Query

variable {record : RecordType} {property : Property}

theorem declared?_behind {reference : FieldRef} {field : Field}
    (found : declared? record property reference = some field) :
    record.DeclaresBehind property field := by
  unfold declared? at found
  split at found
  next accepted =>
    have name : reference.name = backingFieldName property.name := by
      simpa using (Bool.and_eq_true_iff.mp accepted).2
    have same := List.find?_some found
    simp only [FieldRef.same, Field.toRef, Bool.and_eq_true, beq_iff_eq] at same
    exact ⟨List.mem_of_find?_eq_some found, same.1.1.trans name⟩
  · cases found

theorem accessed_meets {asked : Method → Prop} {accessor : Method} (may : asked accessor)
    (pattern : Bool → List Instr → Option FieldRef) :
    Meets asked (fun _ => True) (accessed pattern accessor) :=
  (Meets.fetch may).bind fun _ _ => .pure trivial

/-- A field that is found for the property is declared for it. -/
def FoundBehind (record : RecordType) (property : Property) (found : Option Field) : Prop :=
  ∀ field, found = some field → record.DeclaresBehind property field

theorem withSetter_meets (read? : Option FieldRef) :
    Meets property.IsAccessor (FoundBehind record property) (withSetter record property read?) := by
  have ofRead (reference : FieldRef) :
      FoundBehind record property (declared? record property reference) :=
    fun _ found => declared?_behind found
  unfold withSetter
  split
  · refine .pure fun field found => ?_
    obtain ⟨reference, _, found⟩ := Option.bind_eq_some_iff.mp found
    exact ofRead reference field found
  next setter isSetter =>
    refine (accessed_meets (.inr isSetter) _).bind fun written? _ => ?_
    split
    · exact .pure (by simp [FoundBehind])
    next written =>
      -- with two accessors, it is the field of the setter that has to be declared
      split
      · exact .pure (ofRead written)
      · exact .pure (by simp [FoundBehind])

theorem backingField?_meets :
    Meets property.IsAccessor (FoundBehind record property) (backingField? record property) := by
  unfold backingField?
  split
  · exact .pure (by simp [FoundBehind])
  · split
    · exact withSetter_meets none
    next getter isGetter =>
      refine (accessed_meets (.inl isGetter) _).bind fun read? _ => ?_
      split
      · exact .pure (by simp [FoundBehind])
      · exact withSetter_meets _

/-- Some of the properties in their order, each with a field that is declared for it. -/
structure PairsOf (record : RecordType) (properties : List Property)
    (found : List (Property × Field)) : Prop where
  order : (found.map Prod.fst).Sublist properties
  behind : ∀ pair ∈ found, record.DeclaresBehind pair.1 pair.2

theorem pairs_meets (properties : List Property) :
    Meets (fun method => ∃ property ∈ properties, property.IsAccessor method)
      (PairsOf record properties) (pairs record properties) := by
  induction properties with
  | nil => exact .pure ⟨List.Sublist.refl _, by simp⟩
  | cons property rest ih =>
    -- each part asks for accessors of some of the properties
    refine .checkpoint (.bind (backingField?_meets.weaken ?_ fun _ => id) fun field? ofFirst =>
      .bind (ih.weaken ?_ fun _ => id) fun found ofRest => ?_)
    · exact fun method may => ⟨property, List.mem_cons_self, may⟩
    · rintro method ⟨other, member, may⟩
      exact ⟨other, List.mem_cons_of_mem _ member, may⟩
    cases field? with
    | none => exact .pure ⟨ofRest.order.cons _, ofRest.behind⟩
    | some field =>
      exact .pure ⟨ofRest.order.cons_cons _,
        List.forall_mem_cons.mpr ⟨ofFirst field rfl, ofRest.behind⟩⟩

/-- Pairs of properties with distinct names have no common member. -/
theorem PairsOf.apart {properties : List Property} {found : List (Property × Field)}
    (ofProperties : PairsOf record properties found)
    (distinct : (properties.map fun property => property.name).Nodup) :
    found.Pairwise BackingFields.Apart := by
  -- some of distinct names, in their order, are distinct
  have names : found.Pairwise fun pair other => pair.1.name ≠ other.1.name := by
    have sub := (ofProperties.order.map fun property => property.name).nodup distinct
    rw [List.map_map] at sub
    exact List.pairwise_map.mp sub
  refine names.imp_of_mem fun {pair other} member member' differ => ⟨?_, ?_⟩
  · exact fun same => differ (Property.key_eq_iff.mp same).2
  · intro same
    have fields := (Field.key_eq_iff.mp same).2
    rw [(ofProperties.behind pair member).name, (ofProperties.behind other member').name,
      backingFieldName_inj] at fields
    exact differ fields

theorem detect_meets (distinct : (record.properties.map fun property => property.name).Nodup) :
    Meets (fun method => ∃ property ∈ record.properties, property.IsAccessor method)
      (fun backing => ∃ found, backing.Holds found ∧ PairsOf record record.properties found)
      (detect record) := by
  refine (pairs_meets record.properties).bind fun found ofProperties => ?_
  obtain ⟨backing, built, holds⟩ := BackingFields.exists_ofPairs (ofProperties.apart distinct)
  rw [built]
  exact .pure ⟨found, holds, ofProperties⟩

end AutoProperty

/-! ### The analysis of a record -/

/-- An analysis that pairs properties with fields one to one. -/
structure Analysis.PairsOneToOne (analysis : Analysis) (record : RecordType) : Prop where
  /-- The properties that are paired, in the order of their declarations. -/
  order : (analysis.backingFields.pairs.map Prod.fst).Sublist record.properties
  declared : ∀ pair ∈ analysis.backingFields.pairs, pair.2 ∈ record.fields
  name : ∀ pair ∈ analysis.backingFields.pairs, pair.2.name = backingFieldName pair.1.name
  properties : (analysis.backingFields.pairs.map Prod.fst).Nodup
  fields : (analysis.backingFields.pairs.map Prod.snd).Nodup
  /-- A property has the field of its pair behind it, and no field without a pair. -/
  fieldOf : ∀ property ∈ record.properties, ∀ field,
    analysis.backingFields.fieldOf? property = some field ↔
      (property, field) ∈ analysis.backingFields.pairs
  propertyOf : ∀ field ∈ record.fields, ∀ property,
    analysis.backingFields.propertyOf? field = some property ↔
      (property, field) ∈ analysis.backingFields.pairs
  inverse : ∀ property ∈ record.properties, ∀ field ∈ record.fields,
    analysis.backingFields.fieldOf? property = some field ↔
      analysis.backingFields.propertyOf? field = some property
  /-- A known order is that of the properties. -/
  memberOrder : ∀ order, analysis.memberOrder = some order ↔ order = record.properties ∧
    ∀ field ∈ record.fields, ∃ property, (property, field) ∈ analysis.backingFields.pairs

section Names

variable {record : RecordType} {backing : BackingFields}
  (ofProperties : AutoProperty.PairsOf record record.properties backing.pairs)
  (holds : backing.Holds backing.pairs)

include ofProperties holds

theorem fieldOf?_eq_some_iff_mem
    (distinct : (record.properties.map fun property => property.name).Nodup)
    {property : Property} (known : property ∈ record.properties) {field : Field} :
    backing.fieldOf? property = some field ↔ (property, field) ∈ backing.pairs := by
  rw [holds.fieldOf?_eq_some_iff]
  constructor
  · -- the key tells the name, and the name tells the property
    rintro ⟨other, member, same⟩
    have listed : other ∈ record.properties :=
      ofProperties.order.subset (List.mem_map.mpr ⟨_, member, rfl⟩)
    obtain rfl : other = property :=
      List.inj_on_of_nodup_map distinct listed known (Property.key_eq_iff.mp same).2
    exact member
  · intro member
    exact ⟨property, member, rfl⟩

variable (distinct : (record.fields.map fun field => field.name).Nodup)

include distinct

theorem propertyOf?_eq_some_iff_mem {field : Field} (known : field ∈ record.fields)
    {property : Property} :
    backing.propertyOf? field = some property ↔ (property, field) ∈ backing.pairs := by
  rw [holds.propertyOf?_eq_some_iff]
  constructor
  · -- likewise for fields, whose names are distinct as well
    rintro ⟨other, member, same⟩
    obtain rfl : other = field :=
      List.inj_on_of_nodup_map distinct (ofProperties.behind _ member).declared known
        (Field.key_eq_iff.mp same).2
    exact member
  · intro member
    exact ⟨field, member, rfl⟩

/-- The order of the members is known exactly if every field is in a pair. -/
theorem memberOrder?_eq_some_iff {order : List Property} :
    record.memberOrder? backing = some order ↔ order = record.properties ∧
      ∀ field ∈ record.fields, ∃ property, (property, field) ∈ backing.pairs := by
  -- for a declared field, the relation has it exactly if it is in a pair
  have behind (field : Field) (known : field ∈ record.fields) :
      backing.hasField field = true ↔ ∃ property, (property, field) ∈ backing.pairs := by
    simp only [BackingFields.hasField_eq_true_iff,
      propertyOf?_eq_some_iff_mem ofProperties holds distinct known]
  unfold RecordType.memberOrder?
  split
  next all =>
    rw [List.all_eq_true] at all
    simp only [Option.some.injEq, eq_comm (b := order), iff_self_and]
    exact fun _ field known => (behind field known).mp (all field known)
  next notAll =>
    simp only [reduceCtorEq, false_iff, not_and]
    intro _ all
    exact notAll (List.all_eq_true.mpr fun field known => (behind field known).mpr (all field known))

end Names

namespace Analysis

variable {record : RecordType}

/-- Without repeated names, an analysis never fails, and looks at the accessors only. -/
theorem build_meets (properties : (record.properties.map fun property => property.name).Nodup)
    (fields : (record.fields.map fun field => field.name).Nodup) (checked : Bool) :
    Query.Meets (fun method => ∃ property ∈ record.properties, property.IsAccessor method)
      (fun analysis => analysis.record = record ∧ analysis.checked = checked ∧
        analysis.PairsOneToOne record)
      (build record checked) := by
  refine .checkpoint ((AutoProperty.detect_meets properties).bind ?_)
  rintro backing ⟨_, holds, ofProperties⟩
  obtain rfl := holds.listed
  have fieldOf (property : Property) (known : property ∈ record.properties) (field : Field) :
      backing.fieldOf? property = some field ↔ (property, field) ∈ backing.pairs :=
    fieldOf?_eq_some_iff_mem ofProperties holds properties known
  have propertyOf (field : Field) (known : field ∈ record.fields) (property : Property) :
      backing.propertyOf? field = some property ↔ (property, field) ∈ backing.pairs :=
    propertyOf?_eq_some_iff_mem ofProperties holds fields known
  have apart := ofProperties.apart properties
  refine .pure ⟨rfl, rfl, {
    order := ofProperties.order
    declared := fun pair member => (ofProperties.behind pair member).declared
    name := fun pair member => (ofProperties.behind pair member).name
    properties := ofProperties.order.nodup properties.of_map
    fields := List.pairwise_map.mpr (apart.imp fun {pair other} differ same => ?_)
    fieldOf, propertyOf
    inverse := fun property known field declared =>
      (fieldOf property known field).trans (propertyOf field declared property).symm
    memberOrder := fun order => memberOrder?_eq_some_iff ofProperties holds fields }⟩
  -- a field in two pairs would give them a common key
  exact differ.2 (congrArg Field.key same)

end Analysis

end MemberOrigin
