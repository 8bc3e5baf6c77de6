import MemberOrigin.Proofs.Record.Evaluation

/-!
# Promises of queries

What a query promises whatever bodies it is given: that it does not fail, for which methods it asks,
and what its answer is like. Two families of bodies that agree on these methods give the same answer.
-/
namespace MemberOrigin.Query

variable {α β : Type}

/-- The query does not fail, asks only for bodies of methods that it may ask for, and ends with an
answer of the promised kind. -/
inductive Meets (asked : Method → Prop) (promised : α → Prop) : Query α → Prop
  | answer {value : α} (kept : promised value) : Meets asked promised (answer value)
  | checkpoint {next : Query α} (rest : Meets asked promised next) :
      Meets asked promised (checkpoint next)
  | body {method : Method} {next : Option Body → Query α} (may : asked method)
      (rest : ∀ found, Meets asked promised (next found)) : Meets asked promised (body method next)

namespace Meets

variable {asked : Method → Prop} {promised : α → Prop} {query : Query α}

theorem pure {value : α} (kept : promised value) : Meets asked promised (pure value) :=
  .answer kept

/-- Steps in order keep the promise of the last one. -/
theorem bind {promised' : β → Prop} (first : Meets asked promised query) {next : α → Query β}
    (rest : ∀ value, promised value → Meets asked promised' (next value)) :
    Meets asked promised' (query >>= next) := by
  change Meets asked promised' (Query.bind query next)
  -- along the first step; each of its answers goes on with the rest
  induction first with
  | answer kept => exact rest _ kept
  | checkpoint _ ih => exact .checkpoint ih
  | body may _ ih => exact .body may ih

theorem fetch {method : Method} (may : asked method) :
    Meets asked (fun _ => True) (fetch method) := by
  unfold Query.fetch
  split
  · exact .answer trivial
  · exact .body may fun _ => .answer trivial

theorem fetch_bind {method : Method} (may : asked method) {next : Option Body → Query α}
    (rest : ∀ body?, Meets asked promised (next body?)) :
    Meets asked promised (Query.fetch method >>= next) :=
  (fetch may).bind fun body? _ => rest body?

/-- What asks for less and promises more meets the weaker promise too. -/
theorem weaken {asked' : Method → Prop} {promised' : α → Prop} (meets : Meets asked promised query)
    (more : ∀ method, asked method → asked' method)
    (less : ∀ value, promised value → promised' value) : Meets asked' promised' query := by
  induction meets with
  | answer kept => exact .answer (less _ kept)
  | checkpoint _ ih => exact .checkpoint ih
  | body may _ ih => exact .body (more _ may) ih

theorem exists_eval (meets : Meets asked promised query) (bodies : Method → Option Body) :
    ∃ value, eval bodies query = .ok value ∧ promised value := by
  induction meets with
  | answer kept => exact ⟨_, rfl, kept⟩
  | checkpoint _ ih => exact ih
  | body _ _ ih => exact ih _

/-- The answer depends only on the bodies that are asked for. -/
theorem eval_congr (meets : Meets asked promised query) {bodies others : Method → Option Body}
    (agree : ∀ method, asked method → bodies method = others method) :
    eval bodies query = eval others query := by
  induction meets with
  | answer _ => rfl
  | checkpoint _ ih => exact ih
  | body may _ ih =>
    -- both families give the same body here, so they go on alike
    rw [eval, eval, agree _ may]
    exact ih _

end Meets

/-- The query promises nothing but an answer. -/
abbrev Answers (asked : Method → Prop) (query : Query α) : Prop :=
  Meets asked (fun _ => True) query

end MemberOrigin.Query
