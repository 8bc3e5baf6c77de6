import MemberOrigin.Proofs.Record.Running
import MemberOrigin.Proofs.Record.Verdicts
import MemberOrigin.Record.Report

/-!
# Preconditions of verdicts

## Main result

`Analysis.report_unchecked`: over bodies whose first parameter has the type that its method declares,
a report is the same whether preconditions are checked or not.

## Proof strategy

All preconditions but one are about what a verdict was chosen by, a name and a number of parameters,
and hold without looking at a body. The other one is about the variable of the first parameter in
the body of an `Equals`, of which the declared type is known to be that of the record.
-/
namespace MemberOrigin

open Query

/-- The variable of the first parameter has the declared type. -/
def Body.Fits (body : Body) (method : Method) : Prop :=
  ∀ parameter, method.parameters.head? = some parameter →
    ∀ v, body.parameter? 0 = some v → v.type = parameter.type

namespace Analysis

/-- The analysis with its preconditions unchecked. -/
def unchecked (analysis : Analysis) : Analysis :=
  { analysis with checked := false }

variable {analysis : Analysis}

@[simp] theorem unchecked_record : analysis.unchecked.record = analysis.record := rfl

@[simp] theorem unchecked_isInherited :
    analysis.unchecked.isInherited = analysis.isInherited := rfl

@[simp] theorem unchecked_memberOrder :
    analysis.unchecked.memberOrder = analysis.memberOrder := rfl

/-- A precondition that holds does nothing, checked or not. -/
theorem expect_of_true {α : Type} {condition : Bool} (holds : condition = true) (message : String)
    (next : Query α) : analysis.expect condition message next = next := by
  simp [expect, Query.require, holds]

end Analysis

namespace Generated

variable (analysis : Analysis)

theorem equalityContract_unchecked {property : Property}
    (name : property.name = equalityContractName) :
    equalityContract analysis property = equalityContract analysis.unchecked property := by
  have holds : (property.name == equalityContractName) = true := by simpa using name
  rw [equalityContract, equalityContract, Analysis.expect_of_true holds,
    Analysis.expect_of_true holds]
  rfl

theorem printMembers_unchecked {method : Method} (name : method.name = printMembersName) :
    printMembers analysis method = printMembers analysis.unchecked method := by
  have holds : (method.name == printMembersName) = true := by simpa using name
  rw [printMembers, printMembers, Analysis.expect_of_true holds, Analysis.expect_of_true holds]
  rfl

theorem toString_unchecked {method : Method} (name : method.name = "ToString")
    (none : method.parameters.isEmpty = true) :
    toString analysis method = toString analysis.unchecked method := by
  have holds : (method.name == "ToString" && method.parameters.isEmpty) = true := by
    simp [name, none]
  rw [toString, toString, Analysis.expect_of_true holds, Analysis.expect_of_true holds]
  rfl

theorem equals_unchecked {method : Method} (name : method.name = "Equals")
    (single : method.parameters.length = 1) (bodies : Method → Option Body)
    (ofRecord : ∀ body, bodies method = some body → ∀ other, body.parameter? 0 = some other →
      analysis.record.isSelf other.type = true) :
    (equals analysis method).answeredFrom bodies =
      (equals analysis.unchecked method).answeredFrom bodies := by
  have holds : (method.name == "Equals" && method.parameters.length == 1) = true := by
    simp [name, single]
  rw [equals, equals, Analysis.expect_of_true holds, Analysis.expect_of_true holds]
  simp only [Analysis.unchecked_record, Analysis.unchecked_isInherited,
    Analysis.unchecked_memberOrder]
  split
  · split
    · rfl
    next order known =>
      rw [answeredFrom_fetch_bind, answeredFrom_fetch_bind]
      -- the two queries differ only behind the body that is there
      congr 1
      funext _
      cases available : bodyOf? bodies method with
      | none => rfl
      | some body =>
        dsimp only
        split
        next returned other _ parameter =>
          have found := (bodyOf?_eq_some_iff bodies).mp available
          have isSelf := ofRecord body found.2.2 other parameter
          rw [Analysis.expect_of_true isSelf, Analysis.expect_of_true isSelf]
          rfl
        next => rfl
  · rfl

end Generated

namespace Analysis

variable (analysis : Analysis) {bodies : Method → Option Body}

theorem propertyIsGenerated_unchecked (property : Property) :
    analysis.propertyIsGenerated property = analysis.unchecked.propertyIsGenerated property := by
  unfold propertyIsGenerated
  split
  next name => rw [Generated.equalityContract_unchecked analysis (by simpa using name)]
  next => rfl

/-- The preconditions of a verdict on a method hold if its body fits the method. -/
theorem methodIsGenerated_unchecked {method : Method}
    (fits : ∀ body, bodies method = some body → body.Fits method) :
    (analysis.methodIsGenerated method).answeredFrom bodies =
      (analysis.unchecked.methodIsGenerated method).answeredFrom bodies := by
  refine congrArg checkpoint ?_
  unfold verdictOnMethod
  -- one case for each name; the operators and the clone have no preconditions
  split
  · rfl
  split
  next name =>
    split
    · rfl
    next single =>
      split
      · rfl
      rw [unchecked_record]
      split
      next ofRecord =>
        refine Generated.equals_unchecked analysis (by simpa using name) (by simpa using single)
          bodies ?_
        intro body found other parameter
        -- the one declared parameter has the type of the record, and the variable has its type
        obtain ⟨declared, only⟩ := List.length_eq_one_iff.mp (by simpa using single)
        rw [fits body found declared (by simp [only]) other parameter]
        exact List.all_eq_true.mp ofRecord declared (by simp [only])
      next => rfl
  split
  · rfl
  split
  next name =>
    rw [Generated.printMembers_unchecked analysis (by simpa using name)]
  split
  next name =>
    split
    next none => rw [Generated.toString_unchecked analysis (by simpa using name) none]
    next => rfl
  next => rfl

/-! ### Reports -/

theorem judgeProperties_unchecked (properties : List Property) :
    analysis.judgeProperties properties = analysis.unchecked.judgeProperties properties := by
  induction properties with
  | nil => rfl
  | cons property rest ih =>
    rw [judgeProperties, judgeProperties, propertyIsGenerated_unchecked, ih]

theorem judgeMethods_unchecked {methods : List Method}
    (fits : ∀ method ∈ methods, ∀ body, bodies method = some body → body.Fits method) :
    (analysis.judgeMethods methods).answeredFrom bodies =
      (analysis.unchecked.judgeMethods methods).answeredFrom bodies := by
  induction methods with
  | nil => rfl
  | cons method rest ih =>
    obtain ⟨ofMethod, ofRest⟩ := List.forall_mem_cons.mp fits
    simp only [judgeMethods, answeredFrom_bind, methodIsGenerated_unchecked analysis ofMethod,
      ih ofRest]

theorem report_unchecked
    (fits : ∀ method ∈ analysis.record.methods, ∀ body, bodies method = some body →
      body.Fits method) :
    analysis.report.answeredFrom bodies = analysis.unchecked.report.answeredFrom bodies := by
  simp only [report, answeredFrom_bind, unchecked_record,
    judgeProperties_unchecked analysis, judgeMethods_unchecked analysis fits]
  rfl

end Analysis

/-- The preconditions of a whole classification hold if all bodies fit their methods. -/
theorem RecordType.classify_unchecked {record : RecordType} {bodies : Method → Option Body}
    (fits : ∀ method ∈ record.methods, ∀ body, bodies method = some body → body.Fits method)
    (checked : Bool) :
    (record.classify checked).answeredFrom bodies = (record.classify false).answeredFrom bodies := by
  simp only [classify, Analysis.build, checkpoint_bind, bind_assoc, pure_bind]
  -- only the report on the record that is now known to be analysed has preconditions
  refine congrArg checkpoint ?_
  rw [answeredFrom_bind, answeredFrom_bind]
  congr 1
  funext backing
  exact Analysis.report_unchecked _ fits

end MemberOrigin
