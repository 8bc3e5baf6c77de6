import MemberOrigin.Record.Analysis

/-!
# Evaluating queries

What a query answers from given bodies, step by step: a fetch sees only the bodies of methods that
have a token and a body, and checkpoints and unchecked preconditions change nothing.
-/
namespace MemberOrigin

namespace Query

variable {α β : Type} (bodies : Method → Option Body)

instance : LawfulMonad Query := by
  refine LawfulMonad.mk' Query ?_ (fun _ _ => rfl) ?_
  · intro α query
    change Query.bind query answer = query
    induction query with
    | answer value => rfl
    | fail defect => rfl
    | checkpoint query ih => exact congrArg checkpoint ih
    | body method query ih => exact congrArg (body method) (funext ih)
  · intro α β γ query f g
    change Query.bind (Query.bind query f) g = Query.bind query _
    induction query with
    | answer value => rfl
    | fail defect => rfl
    | checkpoint query ih => exact congrArg checkpoint ih
    | body method query ih => exact congrArg (body method) (funext ih)

theorem checkpoint_bind (query : Query α) (next : α → Query β) :
    checkpoint query >>= next = checkpoint (query >>= next) := rfl

/-- The body of a method that has a token and a body, if the bodies hold one. -/
def bodyOf? (method : Method) : Option Body :=
  if method.token == 0 || !method.hasBody then none else bodies method

theorem bodyOf?_eq_some_iff {method : Method} {body : Body} :
    bodyOf? bodies method = some body ↔
      method.token ≠ 0 ∧ method.hasBody = true ∧ bodies method = some body := by
  unfold bodyOf?
  by_cases nil : method.token = 0
  · simp [nil]
  · cases method.hasBody <;> simp [nil]

@[simp] theorem eval_pure (value : α) : eval bodies (pure value) = .ok value := rfl

/-- Evaluation goes through the steps of a query in order. -/
theorem eval_bind (query : Query α) (next : α → Query β) :
    eval bodies (query >>= next) = eval bodies query >>= fun value => eval bodies (next value) := by
  change eval bodies (bind query next) = _
  induction query with
  | answer value => rfl
  | fail defect => rfl
  | checkpoint query ih => exact ih
  | body method query ih => exact ih (bodies method)

theorem eval_bind_eq_ok_iff {query : Query α} {next : α → Query β} {result : β} :
    eval bodies (query >>= next) = .ok result ↔
      ∃ value, eval bodies query = .ok value ∧ eval bodies (next value) = .ok result := by
  rw [eval_bind]
  cases eval bodies query <;> simp [Bind.bind, Except.bind]

theorem eval_fetch (method : Method) :
    eval bodies (fetch method) = .ok (bodyOf? bodies method) := by
  unfold fetch bodyOf?
  split <;> rfl

/-- What follows a fetch goes on with the body, if there is one. -/
@[simp] theorem eval_fetch_bind (method : Method) (next : Option Body → Query β) :
    eval bodies (fetch method >>= next) = eval bodies (next (bodyOf? bodies method)) := by
  rw [eval_bind, eval_fetch]
  rfl

end Query

/-- A precondition is met, or it is not checked, or it ends the query. -/
theorem Analysis.eval_expect {α : Type} (analysis : Analysis) (condition : Bool)
    (message : String) (next : Query α) (bodies : Method → Option Body) :
    (analysis.expect condition message next).eval bodies =
      if condition || !analysis.checked then next.eval bodies
      else .error (.violation message) := by
  unfold expect Query.require
  split <;> rfl

/-- What stands behind a precondition may be replaced by what evaluates alike. -/
theorem Analysis.eval_expect_congr {α : Type} {analysis : Analysis} {condition : Bool}
    {message : String} {next next' : Query α} {bodies others : Method → Option Body}
    (same : next.eval bodies = next'.eval others) :
    (analysis.expect condition message next).eval bodies =
      (analysis.expect condition message next').eval others := by
  rw [eval_expect, eval_expect, same]

/-- Where preconditions are not checked, they do not matter. -/
@[simp] theorem Analysis.expect_unchecked {α : Type} {analysis : Analysis}
    (unchecked : analysis.checked = false) (condition : Bool) (message : String)
    (next : Query α) : analysis.expect condition message next = next := by
  simp [Analysis.expect, Query.require, unchecked]

/-- A precondition that let one answer through lets every other one through. -/
theorem Analysis.eval_expect_of_answered {α : Type} {analysis : Analysis} {condition : Bool}
    {message : String} {next : Query α} {bodies : Method → Option Body} {value : α}
    (answered : (analysis.expect condition message next).eval bodies = .ok value)
    {other : Analysis} (checked : other.checked = analysis.checked) (next' : Query α)
    (others : Method → Option Body) :
    (other.expect condition message next').eval others = next'.eval others := by
  rw [eval_expect] at answered ⊢
  rw [checked]
  split at answered
  next holds => rw [if_pos holds]
  · cases answered

/-- An answer behind a precondition is an answer of what follows it. -/
theorem Analysis.eval_of_expect {α : Type} {analysis : Analysis} {condition : Bool}
    {message : String} {next : Query α} {bodies : Method → Option Body} {value : α}
    (answered : (analysis.expect condition message next).eval bodies = .ok value) :
    next.eval bodies = .ok value := by
  rwa [eval_expect_of_answered answered rfl next bodies] at answered

/-- An analysis is made of the automatic properties and of what the header says. -/
theorem Analysis.eval_build_eq_ok_iff {record : RecordType} {checked : Bool}
    {bodies : Method → Option Body} {analysis : Analysis} :
    (build record checked).eval bodies = .ok analysis ↔
      ∃ backing, (AutoProperty.detect record).eval bodies = .ok backing ∧
        ⟨record, record.isInherited, backing, record.memberOrder? backing, checked⟩ = analysis := by
  rw [build, Query.eval]
  simp only [Query.eval_bind_eq_ok_iff, Query.eval_pure, Except.ok.injEq]

end MemberOrigin
