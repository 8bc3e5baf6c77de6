import MemberOrigin.Proofs.Record.AutoProperty
import MemberOrigin.Record.Report

/-!
# Promises of verdicts

Where preconditions are not checked, every verdict is given, and it depends on no other body than
that of the method in question, or of the getter of the property in question.
-/
namespace MemberOrigin

open Query

theorem Generated.checkpointIf_answers {α : Type} {asked : Method → Prop} {next : Query α}
    (rest : Answers asked next) (condition : Bool) :
    Answers asked (checkpointIf condition next) := by
  unfold checkpointIf
  split
  · exact .checkpoint rest
  · exact rest

variable {analysis : Analysis} (unchecked : analysis.checked = false)

include unchecked

namespace Generated

theorem equalityContract_answers (property : Property) :
    Answers property.IsAccessor (equalityContract analysis property) := by
  rw [equalityContract, Analysis.expect_unchecked unchecked]
  split
  · exact .pure trivial
  next getter isGetter =>
    split
    · exact .fetch_bind (.inl isGetter) fun _ => .pure trivial
    · exact .pure trivial

theorem equals_answers (method : Method) : Answers (Eq method) (equals analysis method) := by
  rw [equals, Analysis.expect_unchecked unchecked]
  split
  · split
    · exact .pure trivial
    · refine .fetch_bind rfl fun body? => ?_
      split
      · exact .pure trivial
      · split
        · rw [Analysis.expect_unchecked unchecked]
          exact .pure trivial
        · exact .pure trivial
  · exact .pure trivial

theorem printMembers_answers (method : Method) :
    Answers (Eq method) (printMembers analysis method) := by
  rw [printMembers, Analysis.expect_unchecked unchecked]
  split
  · split
    · -- without a member order nothing is requested
      exact .pure trivial
    · -- behind the one request there are at most checkpoints
      refine .fetch_bind rfl fun body? => ?_
      split
      · exact .pure trivial
      · split
        · exact .pure trivial
        · split
          · split
            · exact .pure trivial
            · exact checkpointIf_answers (.pure trivial) _
          · exact .pure trivial
  · exact .pure trivial

theorem toString_answers (method : Method) : Answers (Eq method) (toString analysis method) := by
  rw [toString, Analysis.expect_unchecked unchecked]
  split
  · exact .fetch_bind rfl fun _ => .pure trivial
  · exact .pure trivial

end Generated

namespace Analysis

theorem methodIsGenerated_answers (method : Method) :
    Answers (Eq method) (analysis.methodIsGenerated method) := by
  refine .checkpoint ?_
  unfold verdictOnMethod
  -- one case for each name; the operators and the clone are judged without their bodies
  split
  · exact .pure trivial
  split
  · -- an `Equals` is looked at only if it takes the record itself
    split
    · exact .pure trivial
    split
    · exact .pure trivial
    split
    · exact Generated.equals_answers unchecked method
    · exact .pure trivial
  split
  · exact .pure trivial
  split
  · exact Generated.printMembers_answers unchecked method
  split
  · split
    · exact Generated.toString_answers unchecked method
    · exact .pure trivial
  · exact .pure trivial

theorem propertyIsGenerated_answers (property : Property) :
    Answers property.IsAccessor (analysis.propertyIsGenerated property) := by
  refine .checkpoint ?_
  split
  · exact Generated.equalityContract_answers unchecked property
  · exact .pure trivial

theorem judgeProperties_answers (properties : List Property) :
    Answers (fun _ => True) (analysis.judgeProperties properties) := by
  induction properties with
  | nil => exact .pure trivial
  | cons property rest ih =>
    have first := propertyIsGenerated_answers unchecked property
    exact (first.weaken (fun _ _ => trivial) fun _ _ => trivial).bind
      fun _ _ => ih.bind fun _ _ => .pure trivial

theorem judgeMethods_answers (methods : List Method) :
    Answers (fun _ => True) (analysis.judgeMethods methods) := by
  induction methods with
  | nil => exact .pure trivial
  | cons method rest ih =>
    have first := methodIsGenerated_answers unchecked method
    exact (first.weaken (fun _ _ => trivial) fun _ _ => trivial).bind
      fun _ _ => ih.bind fun _ _ => .pure trivial

theorem report_answers : Answers (fun _ => True) analysis.report :=
  (judgeProperties_answers unchecked _).bind fun _ _ =>
    (judgeMethods_answers unchecked _).bind fun _ _ => .pure trivial

end Analysis

end MemberOrigin
