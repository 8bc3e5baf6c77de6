import MemberOrigin.Proofs.Record.Evaluation

/-!
# Runs on hosts

## Main result

`Query.run_endsWith`: a run on a host ends as the query does from the bodies alone, unless it is
cancelled; then it may end with the reason of the cancellation instead, and with nothing else.

## Proof strategy

One request keeps the bodies of the host and lets at most one reason cancel the run. A run is a
sequence of requests, so that the same holds of it by induction on the query.
-/
namespace MemberOrigin

/-- The body of a method, if the bodies hold one under its token. -/
def Bodies.ofMethod (bodies : Bodies) (method : Method) : Option Body :=
  bodies.find? method.token

/-- A host of some bodies that can be cancelled for one reason only, or not at all. -/
structure Host.Serves (host : Host) (bodies : Bodies) (threat : Option Cancellation) : Prop where
  bodies : host.bodies = bodies
  cancelled : ∀ reason, host.cancelled = some reason → threat = some reason
  interruption : host.cancelled = none →
    ∀ interruption, host.interruption = some interruption → threat = some interruption.reason

/-- How a step of a run can end whose answer is `ending` if nothing cancels it: with this answer,
or with the reason of a cancellation that is in force behind the step. -/
inductive EndsWith {α : Type} (ending : Except Failure α) : Except Failure α × Host → Prop
  | same {after : Host} : EndsWith ending (ending, after)
  | stopped {after : Host} {reason : Cancellation} (cancelled : after.cancelled = some reason) :
      EndsWith ending (.error (.cancelled reason), after)

namespace Host

variable {host : Host} {bodies : Bodies} {threat : Option Cancellation}

/-- The host behind one more request. -/
def counted (host : Host) : Host :=
  { host with requests := host.requests + 1 }

/-- All that a request can do: it is refused, it is answered, or it is the one that is struck by
the planned cancellation, which may or may not stop it. -/
theorem answer_cases (host : Host) (method : Method) :
    (∃ reason, host.cancelled = some reason ∧
      host.answer method = (.error (.cancelled reason), host.counted)) ∨
    (host.cancelled = none ∧
      host.answer method = (.ok (host.bodies.ofMethod method), host.counted)) ∨
    (host.cancelled = none ∧ ∃ plan, host.interruption = some plan ∧
      (host.answer method = (.error (.cancelled plan.reason), host.counted.cancel plan.reason) ∨
        host.answer method = (.ok (host.bodies.ofMethod method),
          host.counted.cancel plan.reason))) := by
  unfold answer
  dsimp only
  split
  next reason inForce => exact .inl ⟨reason, inForce, rfl⟩
  next none =>
    split
    next plan planned =>
      -- the planned cancellation strikes at its own request only
      split
      · split
        · exact .inr (.inr ⟨none, plan, planned, .inl rfl⟩)
        · exact .inr (.inr ⟨none, plan, planned, .inr rfl⟩)
      · exact .inr (.inl ⟨none, rfl⟩)
    next => exact .inr (.inl ⟨none, rfl⟩)

/-- A host serves its own bodies; only what is in force or planned can cancel a run on it. -/
theorem serves_self (host : Host) :
    host.Serves host.bodies (host.cancelled.or (host.interruption.map (·.reason))) where
  bodies := rfl
  cancelled := fun reason inForce => by rw [inForce, Option.some_or]
  interruption := fun none plan planned => by rw [none, planned]; rfl

theorem Serves.counted (serves : host.Serves bodies threat) :
    host.counted.Serves bodies threat :=
  ⟨serves.bodies, serves.cancelled, serves.interruption⟩

/-- What was planned is in force from now on. -/
theorem Serves.cancel (serves : host.Serves bodies threat) (none : host.cancelled = none)
    {plan : Interruption} (planned : host.interruption = some plan) :
    (host.cancel plan.reason).Serves bodies threat ∧
      (host.cancel plan.reason).cancelled = some plan.reason := by
  have inForce : (host.cancel plan.reason).cancelled = some plan.reason := by
    simp [Host.cancel, none]
  refine ⟨⟨serves.bodies, ?_, ?_⟩, inForce⟩
  · intro reason same
    rw [← same, inForce]
    exact serves.interruption none plan planned
  · intro free
    rw [inForce] at free
    cases free

theorem Serves.answer (serves : host.Serves bodies threat) (method : Method) :
    (host.answer method).2.Serves bodies threat ∧
      EndsWith (.ok (bodies.ofMethod method)) (host.answer method) := by
  have ofBodies := serves.bodies
  subst ofBodies
  -- a host refuses, answers, or is cancelled while it answers
  rcases host.answer_cases method with
    ⟨reason, inForce, refused⟩ | ⟨_, answered⟩ | ⟨none, plan, planned, struck⟩
  · rw [refused]
    exact ⟨serves.counted, .stopped inForce⟩
  · rw [answered]
    exact ⟨serves.counted, .same⟩
  · obtain ⟨servesAfter, inForce⟩ := serves.counted.cancel none planned
    rcases struck with stopped | answered
    · rw [stopped]
      exact ⟨servesAfter, .stopped inForce⟩
    · rw [answered]
      exact ⟨servesAfter, .same⟩

end Host

namespace Query

variable {α : Type}

/-- How a query ends when nothing cancels it. -/
def ending (bodies : Bodies) (query : Query α) : Except Failure α :=
  (query.eval bodies.ofMethod).mapError .defect

theorem run_endsWith (query : Query α) {host : Host} {bodies : Bodies}
    {threat : Option Cancellation} (serves : host.Serves bodies threat) :
    (query.run host).2.Serves bodies threat ∧ EndsWith (query.ending bodies) (query.run host) := by
  induction query generalizing host with
  | answer value => exact ⟨serves, .same⟩
  | fail defect => exact ⟨serves, .same⟩
  | checkpoint query ih =>
    rw [run]
    split
    next reason inForce => exact ⟨serves, .stopped inForce⟩
    next => exact ih serves
  | body method query ih =>
    obtain ⟨servesAfter, ends⟩ := serves.answer method
    rw [run]
    generalize host.answer method = outcome at servesAfter ends
    cases ends with
    | stopped inForce => exact ⟨servesAfter, .stopped inForce⟩
    | same =>
      -- the body is that of the dump, and the rest of the run goes on from the host behind it
      exact ih _ servesAfter

/-- A query that starts with a checkpoint gives nothing but the reason once a run is cancelled. -/
theorem run_checkpoint_of_cancelled {query : Query α} {host : Host} {reason : Cancellation}
    (inForce : host.cancelled = some reason) :
    (checkpoint query).run host = (.error (.cancelled reason), host) := by
  simp [run, inForce]

/-! ### Queries that only differ over other bodies -/

/-- The query with its requests answered from the given bodies, whatever is found. -/
def answeredFrom (bodies : Method → Option Body) : Query α → Query α
  | answer value => answer value
  | fail defect => fail defect
  | checkpoint query => checkpoint (answeredFrom bodies query)
  | body method query => body method fun _ => answeredFrom bodies (query (bodies method))

variable (bodies : Method → Option Body)

theorem answeredFrom_bind {β : Type} (query : Query α) (next : α → Query β) :
    (query >>= next).answeredFrom bodies =
      query.answeredFrom bodies >>= fun value => (next value).answeredFrom bodies := by
  change (Query.bind query next).answeredFrom bodies = Query.bind _ _
  induction query with
  | answer value => rfl
  | fail defect => rfl
  | checkpoint query ih => exact congrArg checkpoint ih
  | body method query ih => exact congrArg (body method) (funext fun _ => ih _)

/-- What follows a fetch only matters for the body that is there. -/
theorem answeredFrom_fetch_bind {β : Type} (method : Method) (next : Option Body → Query β) :
    (fetch method >>= next).answeredFrom bodies =
      fetch method >>= fun _ => (next (bodyOf? bodies method)).answeredFrom bodies := by
  unfold fetch bodyOf?
  split <;> rfl

@[simp] theorem eval_answeredFrom (query : Query α) :
    (query.answeredFrom bodies).eval bodies = query.eval bodies := by
  induction query with
  | answer value => rfl
  | fail defect => rfl
  | checkpoint query ih => exact ih
  | body method query ih => exact ih _

theorem run_answeredFrom (query : Query α) (host : Host) :
    (query.answeredFrom host.bodies.ofMethod).run host = query.run host := by
  -- the bodies of the host never change, so they are fixed before the induction
  generalize held : host.bodies = bodies
  induction query generalizing host with
  | answer value => rfl
  | fail defect => rfl
  | checkpoint query ih =>
    rw [answeredFrom, run, run, ih host held]
  | body method query ih =>
    rw [answeredFrom, run, run]
    rcases host.answer_cases method with
      ⟨_, _, result⟩ | ⟨_, result⟩ | ⟨_, _, _, result | result⟩
    · rw [result]
    · rw [result, held]
      exact ih _ _ held
    · rw [result]
    · rw [result, held]
      exact ih _ _ held

end Query

end MemberOrigin
