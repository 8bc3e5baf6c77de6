import Mathlib.Data.List.Forall2
import MemberOrigin.Generated.Equals
import MemberOrigin.Proofs.Code.Forms
import MemberOrigin.Proofs.Generated.Signature
import MemberOrigin.Proofs.Record.Evaluation

/-!
# Recognition of generated equality

## Main result

`equals_iff`: a method is recognised exactly if its signature is the synthesized one, the record is
a root record, and the conditions of the returned conjunction are that the other record is not
null, that the contracts agree, and one comparison for each compared field. How the conjunction is
grouped does not matter.

## Proof strategy

The conjunction is only looked at through the list of its leaves. That list is compared with the
list of fields by pairs, so that a missing, an extra and a misplaced condition all fail alike.
Behind its preconditions, the query is one test of the body that is there (`eval_equals`).
-/
namespace MemberOrigin.Generated

open Instr

/-! ### The synthesized shape -/

/-- The comparison of the contracts of the receiver and the other record. -/
inductive ComparesContracts (other : Variable) : Instr → Prop
  | call {method : MethodRef} {left right self argument : Instr}
      (operator : method.isOperator = true) (name : method.name = equalityOperatorName)
      (declared : method.declaringType.isKnown .type = true)
      (ofThis : ReadsContract self left) (receiver : LoadsThis self)
      (ofOther : ReadsContract argument right) (passed : LoadsVar other argument) :
      ComparesContracts other (.call .direct method [left, right])

/-- The comparison of a field between the receiver and the other record. -/
inductive ComparesField (other : Variable) (field : Field) : Instr → Prop
  | call {method : MethodRef} {comparer left right self argument : Instr}
      (name : method.name = "Equals") (default : DefaultComparer field.type comparer)
      (ofThis : LoadsField field.toRef self left) (receiver : LoadsThis self)
      (ofOther : LoadsField field.toRef argument right) (passed : LoadsVar other argument) :
      ComparesField other field (.call .virtual method [comparer, left, right])

/-- The conditions of generated equality over some fields. -/
inductive EqualityConditions (other : Variable) (fields : List Field) : List Instr → Prop
  | conditions {loaded contract : Instr} {comparisons : List Instr}
      (passed : LoadsVar other loaded) (contracts : ComparesContracts other contract)
      (compared : List.Forall₂ (ComparesField other) fields comparisons) :
      EqualityConditions other fields (.compare .notEqual loaded .null :: contract :: comparisons)

/-- The fields behind the properties that are compared, in order. A property is left out if it is
static, if it is the equality contract, or if no field is behind it. -/
inductive ComparedFields (analysis : Analysis) : List Property → List Field → Prop
  | nil : ComparedFields analysis [] []
  | skip {property : Property} {properties : List Property} {fields : List Field}
      (left : property.isStatic = true ∨ property.name = equalityContractName ∨
        analysis.backingFields.fieldOf? property = none)
      (rest : ComparedFields analysis properties fields) :
      ComparedFields analysis (property :: properties) fields
  | take {property : Property} {properties : List Property} {field : Field} {fields : List Field}
      (isInstance : property.isStatic = false) (name : property.name ≠ equalityContractName)
      (behind : analysis.backingFields.fieldOf? property = some field)
      (rest : ComparedFields analysis properties fields) :
      ComparedFields analysis (property :: properties) (field :: fields)

/-- The `Equals` that the compiler synthesizes for an analysed record. -/
structure SynthesizedEquals (analysis : Analysis) (bodies : Method → Option Body)
    (method : Method) : Prop where
  signature : OneParameterMethod method
  root : analysis.isInherited = false
  shape : ∃ order fields body returned rest other conditions,
    analysis.memberOrder = some order ∧ ComparedFields analysis order fields ∧
    (method.token ≠ 0 ∧ method.hasBody = true ∧ bodies method = some body) ∧
    body.instructions = .leave .body returned :: rest ∧ body.IsParameter 0 other ∧
    Leaves returned conditions ∧ EqualityConditions other fields conditions

/-- Two bodies over the same variables that return the same conditions, grouped in any way. -/
structure SameConditions (first second : Body) : Prop where
  vars : first.vars = second.vars
  returned : ∃ left right conditions,
    first.instructions.head? = some (.leave .body left) ∧
    second.instructions.head? = some (.leave .body right) ∧
    Leaves left conditions ∧ Leaves right conditions

/-! ### The conditions -/

theorem isContractComparison_iff {other : Variable} {instr : Instr} :
    isContractComparison other instr = true ↔ ComparesContracts other instr := by
  constructor
  · intro accepted
    -- only a direct call with two arguments is looked at
    unfold isContractComparison at accepted
    split at accepted
    · simp only [Bool.and_eq_true, beq_iff_eq, Option.any_eq_true, contractTarget?_eq_some_iff,
        loadsThis_iff, loads_iff] at accepted
      obtain ⟨⟨⟨⟨operator, name⟩, declared⟩, self, ofThis, receiver⟩, argument, ofOther, passed⟩ :=
        accepted
      exact .call operator name declared ofThis receiver ofOther passed
    · cases accepted
  · rintro ⟨operator, name, declared, ofThis, receiver, ofOther, passed⟩
    simp [isContractComparison, operator, name, declared, contractTarget?_eq_some_iff.mpr ofThis,
      contractTarget?_eq_some_iff.mpr ofOther, loadsThis_iff.mpr receiver, loads_iff.mpr passed]

theorem isFieldComparison_iff {other : Variable} {field : Field} {instr : Instr} :
    isFieldComparison other field instr = true ↔ ComparesField other field instr := by
  constructor
  · intro accepted
    unfold isFieldComparison at accepted
    split at accepted
    · simp only [Bool.and_eq_true, beq_iff_eq, Option.any_eq_true, fieldLoadOf?_eq_some_iff,
        isDefaultComparer_iff, loadsThis_iff, loads_iff] at accepted
      obtain ⟨⟨⟨name, default⟩, self, ofThis, receiver⟩, argument, ofOther, passed⟩ := accepted
      exact .call name default ofThis receiver ofOther passed
    · cases accepted
  · rintro ⟨name, default, ofThis, receiver, ofOther, passed⟩
    simp [isFieldComparison, name, isDefaultComparer_iff.mpr default,
      fieldLoadOf?_eq_some_iff.mpr ofThis, fieldLoadOf?_eq_some_iff.mpr ofOther,
      loadsThis_iff.mpr receiver, loads_iff.mpr passed]

theorem comparesFields_iff {other : Variable} (fields : List Field) (conditions : List Instr) :
    comparesFields other fields conditions = true ↔
      List.Forall₂ (ComparesField other) fields conditions := by
  induction fields generalizing conditions with
  | nil => cases conditions <;> simp [comparesFields]
  | cons field fields ih =>
    cases conditions with
    | nil => simp [comparesFields]
    | cons condition conditions =>
      simp only [comparesFields, Bool.and_eq_true, isFieldComparison_iff, ih,
        List.forall₂_cons]

theorem areEqualityConditions_iff {other : Variable} {fields : List Field}
    {conditions : List Instr} :
    areEqualityConditions other fields conditions = true ↔
      EqualityConditions other fields conditions := by
  constructor
  · intro accepted
    unfold areEqualityConditions at accepted
    split at accepted
    -- the first two conditions have fixed forms, the others are one per field
    next notNull contract comparisons =>
      simp only [Bool.and_eq_true, Option.any_eq_true, notNull?_eq_some_iff, loads_iff,
        isContractComparison_iff, comparesFields_iff] at accepted
      obtain ⟨⟨⟨loaded, rfl, passed⟩, contracts⟩, compared⟩ := accepted
      exact .conditions passed contracts compared
    · cases accepted
  · rintro ⟨passed, contracts, compared⟩
    simp [areEqualityConditions, notNull?, loads_iff.mpr passed,
      isContractComparison_iff.mpr contracts, (comparesFields_iff _ _).mpr compared]

theorem isCompared_iff {property : Property} :
    isCompared property = true ↔
      property.isStatic = false ∧ property.name ≠ equalityContractName := by
  simp [isCompared]

theorem comparedFields_eq_iff {analysis : Analysis} (order : List Property)
    (fields : List Field) :
    comparedFields analysis order = fields ↔ ComparedFields analysis order fields := by
  constructor
  · rintro rfl
    induction order with
    | nil => exact .nil
    | cons property order ih =>
      -- a property is left out for what it is, or for the field that it lacks
      by_cases compared : isCompared property = true
      · cases behind : analysis.backingFields.fieldOf? property with
        | none =>
          simpa [comparedFields, compared, behind] using .skip (.inr (.inr behind)) ih
        | some field =>
          obtain ⟨isInstance, name⟩ := isCompared_iff.mp compared
          simpa [comparedFields, compared, behind] using .take isInstance name behind ih
      · have left : property.isStatic = true ∨ property.name = equalityContractName := by
          rw [isCompared_iff, not_and_or, Bool.not_eq_false, not_not] at compared
          exact compared
        simpa [comparedFields, compared] using .skip (left.imp_right .inl) ih
  · intro compared
    induction compared with
    | nil => rfl
    | skip left _ ih =>
      rw [← ih]
      rcases left with isStatic | name | none
      · simp [comparedFields, isCompared, isStatic]
      · simp [comparedFields, isCompared, name]
      · simp [comparedFields, List.filter_cons, apply_ite, none]
    | take isInstance name behind _ ih =>
      rw [← ih]
      simp [comparedFields, isCompared, isInstance, name, behind]

/-! ### The method -/

/-- Whether a method has the synthesized form, given its body if that is available. -/
def acceptsEquals (analysis : Analysis) (method : Method) (body? : Option Body) : Bool :=
  (method.parameters.length == 1 && method.isOverridable && method.hasNoAttributes) &&
    analysis.memberOrder.any fun order => body?.any fun body =>
      (body.instructions.head?.bind Instr.returned?).any fun returned =>
        (body.parameter? 0).any fun other => !analysis.isInherited &&
          areEqualityConditions other (comparedFields analysis order) returned.conjuncts

/-- It is accepted exactly if it has this form. -/
theorem synthesizedEquals_iff {analysis : Analysis} {bodies : Method → Option Body}
    {method : Method} :
    SynthesizedEquals analysis bodies method ↔
      acceptsEquals analysis method (Query.bodyOf? bodies method) = true := by
  rw [acceptsEquals, Bool.and_eq_true, oneParameterMethod_iff]
  simp only [Option.any_eq_true, Bool.and_eq_true, Bool.not_eq_true', areEqualityConditions_iff,
    Body.parameter?_eq_some_iff, Query.bodyOf?_eq_some_iff, Option.bind_eq_some_iff,
    returned?_eq_some_iff, List.head?_eq_some_iff]
  constructor
  · rintro ⟨signature, root, order, fields, body, returned, rest, other, conditions, known,
      compared, available, starts, parameter, leaves, accepted⟩
    rw [← conjuncts_eq_iff] at leaves
    rw [← comparedFields_eq_iff] at compared
    -- the conditions and the fields of the form are the computed ones
    subst leaves compared
    exact ⟨signature, order, known, body, available, returned, ⟨_, ⟨rest, starts⟩, rfl⟩, other,
      parameter, root, accepted⟩
  · rintro ⟨signature, order, known, body, available, returned, ⟨_, ⟨rest, starts⟩, rfl⟩, other,
      parameter, root, accepted⟩
    exact ⟨signature, root, order, _, body, returned, rest, other, _, known,
      (comparedFields_eq_iff order _).mp rfl, available, starts, parameter,
      conjuncts_eq_iff.mp rfl, accepted⟩

/-- Whether the parameter is one of the record, if it comes to a comparison with it. -/
def comparesRecord (analysis : Analysis) (method : Method) (body? : Option Body) : Bool :=
  !(method.parameters.length == 1 && method.isOverridable && method.hasNoAttributes) ||
    analysis.memberOrder.all fun _ => body?.all fun body =>
      (body.instructions.head?.bind Instr.returned?).all fun _ =>
        (body.parameter? 0).all fun other => analysis.record.isSelf other.type

/-- Behind its preconditions, the query asks for one body and gives a verdict on it. -/
theorem eval_equals (analysis : Analysis) (bodies : Method → Option Body) (method : Method) :
    (equals analysis method).eval bodies =
      (analysis.expect (method.name == "Equals" && method.parameters.length == 1)
        ("expected Equals(R), got " ++ method.name ++ "/"
          ++ ToString.toString method.parameters.length)
        (analysis.expect (comparesRecord analysis method (Query.bodyOf? bodies method))
          ("Equals parameter is not " ++ analysis.record.name)
          (pure (acceptsEquals analysis method (Query.bodyOf? bodies method))))).eval bodies := by
  apply Analysis.eval_expect_congr
  rw [Analysis.eval_expect, acceptsEquals, comparesRecord]
  -- a test that fails decides the verdict, and the second precondition is not reached
  split
  next signature =>
    rw [signature]
    cases analysis.memberOrder with
    | none => rfl
    | some order =>
      simp only [Query.eval_fetch_bind]
      cases Query.bodyOf? bodies method with
      | none => rfl
      | some body =>
        cases returns : body.instructions.head?.bind Instr.returned? with
        | none => simp [returns]
        | some returned =>
          cases parameter : body.parameter? 0 with
          | none => simp [returns, parameter]
          | some other => simp [returns, parameter, Analysis.eval_expect]
  next other => simp [other]

theorem equals_verdict {analysis : Analysis} (unchecked : analysis.checked = false)
    (bodies : Method → Option Body) (method : Method) :
    ∃ verdict, (equals analysis method).eval bodies = .ok verdict ∧
      (verdict = true ↔ SynthesizedEquals analysis bodies method) := by
  refine ⟨acceptsEquals analysis method (Query.bodyOf? bodies method), ?_,
    synthesizedEquals_iff.symm⟩
  rw [eval_equals, Analysis.expect_unchecked unchecked, Analysis.expect_unchecked unchecked,
    Query.eval_pure]

/-- What is recognised has the synthesized form, whether preconditions are checked or not. -/
theorem synthesizedEquals_of_equals {analysis : Analysis} {bodies : Method → Option Body}
    {method : Method} (recognised : (equals analysis method).eval bodies = .ok true) :
    SynthesizedEquals analysis bodies method := by
  rw [eval_equals] at recognised
  have judged := Analysis.eval_of_expect (Analysis.eval_of_expect recognised)
  rw [Query.eval_pure, Except.ok.injEq] at judged
  exact synthesizedEquals_iff.mpr judged

theorem SameConditions.symm {first second : Body} (same : SameConditions first second) :
    SameConditions second first := by
  obtain ⟨vars, left, right, conditions, onLeft, onRight, ofLeft, ofRight⟩ := same
  exact ⟨vars.symm, right, left, conditions, onRight, onLeft, ofRight, ofLeft⟩

/-- Grouping the conditions in another way keeps the synthesized form. -/
theorem SynthesizedEquals.regroup {analysis : Analysis} {bodies others : Method → Option Body}
    {method : Method} {first second : Body} (form : SynthesizedEquals analysis bodies method)
    (ofFirst : bodies method = some first) (ofSecond : others method = some second)
    (same : SameConditions first second) : SynthesizedEquals analysis others method := by
  obtain ⟨signature, root, order, fields, body, returned, rest, other, conditions, known,
    compared, ⟨token, hasBody, available⟩, starts, parameter, leaves, accepted⟩ := form
  obtain ⟨vars, left, right, shared, onLeft, onRight, ofLeft, ofRight⟩ := same
  obtain rfl : first = body := Option.some.inj (ofFirst.symm.trans available)
  obtain rfl : returned = left := by simpa [starts] using onLeft
  -- a value has only one list of leaves
  obtain rfl : conditions = shared :=
    (conjuncts_eq_iff.mpr leaves).symm.trans (conjuncts_eq_iff.mpr ofLeft)
  obtain ⟨tail, begins⟩ := List.head?_eq_some_iff.mp onRight
  refine ⟨signature, root, order, fields, second, right, tail, other, conditions, known,
    compared, ⟨token, hasBody, ofSecond⟩, begins, ?_, ofRight, accepted⟩
  rw [Body.IsParameter, ← vars]
  exact parameter

/-- Recognition always gives a verdict, and accepts exactly the synthesized form. Bodies that
return the same conditions get the same verdict, however the conditions are grouped. -/
theorem equals_iff (analysis : Analysis) (unchecked : analysis.checked = false)
    (method : Method) :
    (∀ bodies, ∃ verdict, (equals analysis method).eval bodies = .ok verdict ∧
      (verdict = true ↔ SynthesizedEquals analysis bodies method)) ∧
    ∀ (bodies others : Method → Option Body) (first second : Body),
      bodies method = some first → others method = some second → SameConditions first second →
        (equals analysis method).eval bodies = (equals analysis method).eval others := by
  refine ⟨fun bodies => equals_verdict unchecked bodies method, ?_⟩
  intro bodies others first second ofFirst ofSecond same
  obtain ⟨verdict, evaluated, accepts⟩ := equals_verdict unchecked bodies method
  obtain ⟨verdict', evaluated', accepts'⟩ := equals_verdict unchecked others method
  -- both verdicts are decided by forms that differ in the grouping only
  have agree : verdict = verdict' := by
    rw [Bool.eq_iff_iff, accepts, accepts']
    exact ⟨fun form => form.regroup ofFirst ofSecond same,
      fun form => form.regroup ofSecond ofFirst same.symm⟩
  rw [evaluated, evaluated', agree]

/-! ### Equality of a record with one property -/

def pointEquals : Method :=
  pointMethod "Equals" 4 [⟨"other", pointType⟩] (.named "System" "Boolean" [] false)

def pointOther : Variable := ⟨1, .parameter, 0, "other", pointType⟩

/-- The body that returns this value. -/
def pointEqualsBody (returned : Instr) : Body where
  instructions := [.leave .body returned]
  vars := [pointThis, pointOther]

def pointNotNull : Instr := .compare .notEqual (.load pointOther) .null

def pointContracts : Instr :=
  let contract (target : Instr) : Instr :=
    .call .virtual ⟨"get_EqualityContract", pointType, false, false, none⟩ [target]
  .call .direct ⟨"op_Equality", .named "System" "Type" [] false, true, true, none⟩
    [contract (.load pointThis), contract (.load pointOther)]

def pointComparison : Instr :=
  let comparer : Ty := .named "System.Collections.Generic" "EqualityComparer" [intType] false
  .call .virtual ⟨"Equals", comparer, false, false, none⟩
    [.call .direct ⟨"get_Default", comparer, true, false, none⟩ [],
      .loadField (.load pointThis) pointField.toRef,
      .loadField (.load pointOther) pointField.toRef]

def pointGroupedLeft : Body :=
  pointEqualsBody (.both (.both pointNotNull pointContracts) pointComparison)

def pointGroupedRight : Body :=
  pointEqualsBody (.both pointNotNull (.both pointContracts pointComparison))

/-- The equality of `Point` is recognised, whichever way its three conditions are grouped. -/
theorem synthesizedEquals_point :
    pointAnalysis.checked = false ∧ SameConditions pointGroupedLeft pointGroupedRight ∧
      SynthesizedEquals pointAnalysis (fun _ => some pointGroupedLeft) pointEquals ∧
      (equals pointAnalysis pointEquals).eval (fun _ => some pointGroupedRight) = .ok true := by
  obtain ⟨verdicts, regrouped⟩ := equals_iff pointAnalysis rfl pointEquals
  have same : SameConditions pointGroupedLeft pointGroupedRight :=
    ⟨rfl, _, _, [pointNotNull, pointContracts, pointComparison], rfl, rfl,
      conjuncts_eq_iff.mp rfl, conjuncts_eq_iff.mp rfl⟩
  obtain ⟨verdict, evaluated, accepts⟩ := verdicts fun _ => some pointGroupedLeft
  have recognised : (equals pointAnalysis pointEquals).eval
      (fun _ => some pointGroupedLeft) = .ok true := by
    rfl
  rw [recognised] at evaluated
  cases evaluated
  refine ⟨rfl, same, accepts.mp rfl, ?_⟩
  rw [← regrouped (fun _ => some pointGroupedLeft) (fun _ => some pointGroupedRight)
    pointGroupedLeft pointGroupedRight rfl rfl same]
  exact recognised

end MemberOrigin.Generated
