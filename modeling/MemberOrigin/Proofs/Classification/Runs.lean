import Mathlib.Data.List.Forall2
import MemberOrigin.Proofs.Classification.Answers
import MemberOrigin.Session

/-!
# Runs over loaded dumps

A run analyses a record and then asks for verdicts on its members, in any order and as often as one
likes.

## Main results

`Dump.trace_of_interruption`: on a loaded dump, every step of a run gives the answer that belongs to
its question, unless the run is cancelled. From then on there is no answer but the reason of the
cancellation.

`Dump.preconditions_hold`: no precondition is violated on a loaded dump.

## Proof strategy

One step keeps the bodies of the dump and ends as its question does from these bodies, or with the
reason of a cancellation (`Session.ask_outcome`). The run follows by induction on the inquiries.
-/
namespace MemberOrigin

/-! ### Traces -/

/-- What a step of a run gives: an analysis or a verdict. -/
inductive Answer
  | analysis (analysis : Analysis)
  | verdict (generated : Bool)

/-- How a step of a run ends, and the cancellation that is in force behind it. -/
structure Outcome where
  result : Except Failure Answer
  cancelled : Option Cancellation

namespace Outcome

/-- An answer in a run that nothing has cancelled. -/
def answered (answer : Answer) : Outcome :=
  ⟨.ok answer, none⟩

/-- A step that gives the reason of the cancellation. -/
def stopped (reason : Cancellation) : Outcome :=
  ⟨.error (.cancelled reason), some reason⟩

/-- How a step can end whose answer is `answer` as long as nothing cancels the run, where `threat` is
the only reason for which it can be cancelled. The step in which that happens may still answer. -/
inductive Of (threat : Option Cancellation) (answer : Answer) : Outcome → Prop
  | answered : Of threat answer (.answered answer)
  | answeredLast {reason : Cancellation} (threatened : threat = some reason) :
      Of threat answer ⟨.ok answer, some reason⟩
  | stopped {reason : Cancellation} (threatened : threat = some reason) :
      Of threat answer (.stopped reason)

theorem Of.result_cases {threat : Option Cancellation} {answer : Answer} {outcome : Outcome}
    (ofAnswer : Of threat answer outcome) :
    outcome.result = .ok answer ∨ ∃ reason, threat = some reason ∧
      outcome.result = .error (.cancelled reason) ∧ outcome.cancelled = some reason := by
  cases ofAnswer with
  | answered => exact .inl rfl
  | answeredLast _ => exact .inl rfl
  | stopped threatened => exact .inr ⟨_, threatened, rfl, rfl⟩

/-- Where nothing can cancel a run, it gives all its answers. -/
theorem eq_answered_of_forall₂ {answers : List Answer} {outcomes : List Outcome}
    (all : List.Forall₂ (Of none) answers outcomes) : outcomes = answers.map .answered := by
  induction all with
  | nil => rfl
  | cons first _ ih =>
    cases first with
    | answered => rw [List.map_cons, ih]
    | answeredLast threatened => cases threatened
    | stopped threatened => cases threatened

/-- No step of a run that ends as it may is a defect. -/
theorem no_defect_of_forall₂ {threat : Option Cancellation} {answers : List Answer}
    {outcomes : List Outcome} (all : List.Forall₂ (Of threat) answers outcomes) :
    ∀ outcome ∈ outcomes, ∀ defect, outcome.result ≠ .error (.defect defect) := by
  induction all with
  | nil => simp
  | cons first _ ih =>
    refine List.forall_mem_cons.mpr ⟨fun defect failed => ?_, ih⟩
    rcases first.result_cases with answered | ⟨_, _, cancelled, _⟩
    · cases answered.symm.trans failed
    · cases cancelled.symm.trans failed

/-- Behind a cancellation, no step answers. -/
def Ends (earlier later : Outcome) : Prop :=
  ∀ reason, earlier.cancelled = some reason → later = .stopped reason

end Outcome

namespace Session

/-- Answers inquiries in order. -/
def inquire (analysis : Analysis) : List Inquiry → Session → List Outcome
  | [], _ => []
  | inquiry :: rest, session =>
    let (result, after) := session.ask (inquiry.query analysis)
    ⟨result.map .verdict, after.host.cancelled⟩ :: inquire analysis rest after

/-- Analyses the record, and answers inquiries if that succeeds. -/
def trace (session : Session) (inquiries : List Inquiry) : List Outcome :=
  match session.analyse with
  | (.ok analysis, after) =>
    ⟨.ok (.analysis analysis), after.host.cancelled⟩ :: inquire analysis inquiries after
  | (.error failure, after) => [⟨.error failure, after.host.cancelled⟩]

variable {session : Session} {bodies : Bodies} {threat : Option Cancellation}

/-- One step of a run: it ends as it may, and a cancellation that was or is now in force stays. -/
theorem ask_outcome {α : Type} (serves : session.host.Serves bodies threat) {query : Query α}
    {value : α} (evaluated : query.eval bodies.ofMethod = .ok value) (answer : α → Answer) :
    (session.ask query).2.host.Serves bodies threat ∧
      Outcome.Of threat (answer value)
        ⟨(session.ask query).1.map answer, (session.ask query).2.host.cancelled⟩ := by
  obtain ⟨servesAfter, ends⟩ := query.run_endsWith serves
  refine ⟨servesAfter, ?_⟩
  have ending : query.ending bodies = .ok value := by
    simp [Query.ending, evaluated, Except.mapError]
  rw [ending] at ends
  simp only [ask]
  generalize query.run session.host = outcome at servesAfter ends
  cases ends with
  | @same after =>
    -- the answer is given, even if this very step was struck
    cases inForce : after.cancelled with
    | none => exact .answered
    | some reason => exact .answeredLast (servesAfter.cancelled reason inForce)
  | @stopped after reason inForce =>
    rw [inForce]
    exact .stopped (servesAfter.cancelled reason inForce)

/-- Once a run is cancelled, every inquiry ends with the reason. -/
theorem inquire_of_cancelled (analysis : Analysis) {reason : Cancellation}
    (inForce : session.host.cancelled = some reason) (inquiries : List Inquiry) :
    ∀ outcome ∈ session.inquire analysis inquiries, outcome = .stopped reason := by
  induction inquiries with
  | nil => simp [inquire]
  | cons inquiry rest ih =>
    -- the checkpoint in front of every verdict refuses it
    obtain ⟨next, checks⟩ := inquiry.query_checkpoint analysis
    have refused : session.ask (inquiry.query analysis) =
        (.error (.cancelled reason), session) := by
      rw [checks, ask, Query.run_checkpoint_of_cancelled inForce]
    simp only [inquire, refused, inForce]
    exact List.forall_mem_cons.mpr ⟨rfl, ih⟩

/-- Every inquiry ends as it may, and behind a cancellation with its reason. -/
theorem inquire_outcomes (analysis : Analysis) {inquiries : List Inquiry} {verdicts : List Bool}
    (evaluated : List.Forall₂ (fun inquiry verdict =>
      (inquiry.query analysis).eval bodies.ofMethod = .ok verdict) inquiries verdicts)
    (serves : session.host.Serves bodies threat) :
    List.Forall₂ (Outcome.Of threat) (verdicts.map .verdict) (session.inquire analysis inquiries) ∧
      (session.inquire analysis inquiries).Pairwise Outcome.Ends := by
  induction evaluated generalizing session with
  | nil => exact ⟨.nil, .nil⟩
  | cons first _ ih =>
    obtain ⟨servesAfter, ofFirst⟩ := ask_outcome serves first .verdict
    obtain ⟨ofRest, ends⟩ := ih servesAfter
    refine ⟨.cons ofFirst ofRest, .cons (fun later member reason inForce => ?_) ends⟩
    exact inquire_of_cancelled analysis inForce _ later member

/-- A run is stopped at once, or every step ends as it may; and behind a cancellation there is no
answer. -/
theorem trace_outcomes {analysis : Analysis}
    (built : (Analysis.build session.record session.checked).eval bodies.ofMethod = .ok analysis)
    {inquiries : List Inquiry} {verdicts : List Bool}
    (evaluated : List.Forall₂ (fun inquiry verdict =>
      (inquiry.query analysis).eval bodies.ofMethod = .ok verdict) inquiries verdicts)
    (serves : session.host.Serves bodies threat) :
    ((∃ reason, threat = some reason ∧ session.trace inquiries = [.stopped reason]) ∨
      List.Forall₂ (Outcome.Of threat) (.analysis analysis :: verdicts.map .verdict)
        (session.trace inquiries)) ∧
    (session.trace inquiries).Pairwise Outcome.Ends := by
  obtain ⟨servesAfter, ofAnalysis⟩ := ask_outcome serves built .analysis
  simp only [trace, analyse]
  generalize session.ask (Analysis.build session.record session.checked) = outcome
    at servesAfter ofAnalysis
  obtain ⟨result, after⟩ := outcome
  cases result with
  | ok analysed =>
    -- what is found is the analysis from the bodies alone, so the inquiries go on from it
    obtain rfl : analysed = analysis := by
      rcases ofAnalysis.result_cases with answered | ⟨_, _, failed, _⟩
      · exact Answer.analysis.inj (Except.ok.inj answered)
      · cases failed
    have servesNext : ({ after with analysis := some analysed } : Session).host.Serves
        bodies threat := servesAfter
    obtain ⟨ofInquiries, ends⟩ := inquire_outcomes analysed evaluated servesNext
    refine ⟨.inr (.cons ofAnalysis ofInquiries), .cons (fun later member reason inForce => ?_) ends⟩
    exact inquire_of_cancelled analysed inForce _ later member
  | error failure =>
    -- an analysis fails only for the reason of a cancellation, and then there is nothing to ask
    rcases ofAnalysis.result_cases with answered | ⟨reason, threatened, failed, inForce⟩
    · cases answered
    · obtain rfl : failure = .cancelled reason := Except.error.inj failed
      refine ⟨.inl ⟨reason, threatened, ?_⟩, List.pairwise_singleton _ _⟩
      dsimp only at inForce ⊢
      rw [inForce]
      rfl

end Session

/-! ### Runs over a loaded dump -/

namespace Dump

section Loaded

variable {fileName : String} {document : Document} {dump : RecordDump}
  (loaded : load fileName document = .ok dump)

include loaded

theorem exists_verdicts (analysis : Analysis) {inquiries : List Inquiry}
    (known : ∀ inquiry ∈ inquiries, inquiry.IsAbout dump.record) :
    ∃ verdicts, List.Forall₂ (fun inquiry verdict =>
      (inquiry.query analysis).eval dump.bodies.ofMethod = .ok verdict) inquiries verdicts := by
  induction inquiries with
  | nil => exact ⟨[], .nil⟩
  | cons inquiry rest ih =>
    obtain ⟨ofFirst, ofRest⟩ := List.forall_mem_cons.mp known
    obtain ⟨verdict, evaluated⟩ := exists_verdict loaded analysis ofFirst
    obtain ⟨verdicts, others⟩ := ih ofRest
    exact ⟨verdict :: verdicts, .cons evaluated others⟩

end Loaded

/-- A cancellation during some request for a body never changes an answer. Every step of the run
gives what it gives in the run that nothing cancels, or else the reason of the cancellation; and
once the run is cancelled, every step gives this reason. -/
theorem trace_of_interruption {fileName : String} {document : Document} {dump : RecordDump}
    (loaded : load fileName document = .ok dump) (checked : Bool) (interruption : Interruption)
    {inquiries : List Inquiry} (known : ∀ inquiry ∈ inquiries, inquiry.IsAbout dump.record) :
    ∃ (analysis : Analysis) (verdicts : List Bool), verdicts.length = inquiries.length ∧
      (Session.start dump checked none none).trace inquiries =
        (.analysis analysis :: verdicts.map .verdict).map .answered ∧
      ((Session.start dump checked none (some interruption)).trace inquiries =
          [.stopped interruption.reason] ∨
        List.Forall₂ (Outcome.Of (some interruption.reason))
          (.analysis analysis :: verdicts.map .verdict)
          ((Session.start dump checked none (some interruption)).trace inquiries)) ∧
      ((Session.start dump checked none (some interruption)).trace inquiries).Pairwise
        Outcome.Ends := by
  obtain ⟨analysis, built⟩ := exists_analysis loaded checked
  obtain ⟨verdicts, evaluated⟩ := exists_verdicts loaded analysis known
  -- neither host is cancelled at the start, and only one of them ever can be
  have undisturbed : (Session.start dump checked none none).host.Serves dump.bodies none :=
    ⟨rfl, by simp [Session.start], by simp [Session.start]⟩
  have disturbed : (Session.start dump checked none (some interruption)).host.Serves dump.bodies
      (some interruption.reason) :=
    ⟨rfl, by simp [Session.start], by simp [Session.start]⟩
  refine ⟨analysis, verdicts, evaluated.length_eq.symm, ?_, ?_⟩
  · rcases (Session.trace_outcomes built evaluated undisturbed).1 with ⟨_, impossible, _⟩ | all
    · cases impossible
    · exact Outcome.eq_answered_of_forall₂ all
  · obtain ⟨stopped | all, ends⟩ := Session.trace_outcomes built evaluated disturbed
    · obtain ⟨reason, same, stopped⟩ := stopped
      obtain rfl := Option.some.inj same
      exact ⟨.inl stopped, ends⟩
    · exact ⟨.inr all, ends⟩

theorem trace_equatableDump_of_stop :
    let inquiries := [.onMethod equatableEquals, .onMethod equatableEquals]
    let start := Session.start (equatableDump .null) true none
    let disturbed := (start (some ⟨2, .because "stop", false⟩)).trace inquiries
    ∃ (analysis : Analysis) (verdicts : List Bool), verdicts.length = 2 ∧
      (start none).trace inquiries = (.analysis analysis :: verdicts.map .verdict).map .answered ∧
      (disturbed = [.stopped (.because "stop")] ∨
        List.Forall₂ (Outcome.Of (some (.because "stop")))
          (.analysis analysis :: verdicts.map .verdict) disturbed) ∧
      disturbed.Pairwise Outcome.Ends := by
  intro inquiries
  have loaded : load "point.yaml" (equatableDocument "ldnull") = .ok (equatableDump .null) :=
    load_equatableDocument fun _ _ => rfl
  have known : ∀ inquiry ∈ inquiries, inquiry.IsAbout (equatableDump .null).record := by
    simp [inquiries, Inquiry.IsAbout, equatableDump]
  exact trace_of_interruption loaded true ⟨2, .because "stop", false⟩ known

/-- On a loaded dump no precondition is ever violated, whatever cancels the run, and checking them
changes nothing in what a classification does or reports. -/
theorem preconditions_hold {fileName : String} {document : Document} {dump : RecordDump}
    (loaded : load fileName document = .ok dump) :
    (∀ cancelled interruption inquiries, (∀ inquiry ∈ inquiries, inquiry.IsAbout dump.record) →
      ∀ outcome ∈ (Session.start dump true cancelled interruption).trace inquiries,
        ∀ defect, outcome.result ≠ .error (.defect defect)) ∧
    (∀ host : Host, host.bodies = dump.bodies →
      (dump.record.classify true).run host = (dump.record.classify false).run host) ∧
    ∃ report, ∀ checked,
      (dump.record.classify checked).eval dump.bodies.ofMethod = .ok report := by
  have unchecked (bodies : Bodies) (same : bodies = dump.bodies) (checked : Bool) :
      (dump.record.classify checked).answeredFrom bodies.ofMethod =
        (dump.record.classify false).answeredFrom bodies.ofMethod :=
    RecordType.classify_unchecked (fun _ known => same ▸ fits_of_load loaded known) checked
  refine ⟨?_, fun host same => ?_, ?_⟩
  · intro cancelled interruption inquiries known outcome step defect failed
    obtain ⟨analysis, built⟩ := exists_analysis loaded true
    obtain ⟨verdicts, evaluated⟩ := exists_verdicts loaded analysis known
    have serves := (Session.start dump true cancelled interruption).host.serves_self
    -- a session is stopped, or every step gives its answer: no outcome is a defect
    rcases (Session.trace_outcomes built evaluated serves).1 with ⟨reason, _, stopped⟩ | all
    · rw [stopped, List.mem_singleton] at step
      subst step
      cases failed
    · exact Outcome.no_defect_of_forall₂ all outcome step defect failed
  · rw [← Query.run_answeredFrom, unchecked _ same true, Query.run_answeredFrom]
  · obtain ⟨analysis, built, _, unchecked', _⟩ := (Analysis.build_meets
      (propertyNames_of_load loaded) (fieldNames_of_load loaded) false).exists_eval
        dump.bodies.ofMethod
    obtain ⟨report, reported, _⟩ :=
      (Analysis.report_answers unchecked').exists_eval dump.bodies.ofMethod
    refine ⟨report, fun checked => ?_⟩
    rw [← Query.eval_answeredFrom, unchecked _ rfl checked, Query.eval_answeredFrom,
      RecordType.classify, Query.eval_bind, built]
    exact reported

theorem preconditions_hold_equatableDump :
    load "point.yaml" (equatableDocument "ldnull") = .ok (equatableDump .null) ∧
      ∃ report, ∀ checked, ((equatableDump .null).record.classify checked).eval
        (equatableDump .null).bodies.ofMethod = .ok report := by
  have loaded : load "point.yaml" (equatableDocument "ldnull") = .ok (equatableDump .null) :=
    load_equatableDocument fun _ _ => rfl
  exact ⟨loaded, (preconditions_hold loaded).2.2⟩

end Dump

end MemberOrigin
