import MemberOrigin.Proofs.Dump.Loaded
import MemberOrigin.Proofs.Record.Preconditions

/-!
# Answers over loaded dumps

## Main results

`Dump.build_pairsOneToOne`: every loaded record can be analysed, and its automatic properties are
paired with fields one to one.

`Dump.verdict_frame`: the body of a method that is no accessor matters only for the verdict on this
method.

## Proof strategy

The loader tells fields, properties and methods apart by name and by token. So no key of a pair
repeats, and a body that is found by its token is the body of just one method. A verdict asks only
for the bodies on which it depends, and over bodies that fit their methods it does not matter whether
preconditions are checked.
-/
namespace MemberOrigin

/-! ### Questions and their answers -/

/-- A question about a member of a record. -/
inductive Inquiry
  | onMethod (method : Method)
  | onProperty (property : Property)

namespace Inquiry

/-- Whether the compiler synthesized the member. -/
def query (analysis : Analysis) : Inquiry → Query Bool
  | onMethod method => analysis.methodIsGenerated method
  | onProperty property => analysis.propertyIsGenerated property

def IsAbout (record : RecordType) : Inquiry → Prop
  | onMethod method => method ∈ record.methods
  | onProperty property => property ∈ record.properties

/-- The methods on whose bodies the verdict depends. -/
def DependsOn : Inquiry → Method → Prop
  | onMethod method => Eq method
  | onProperty property => property.IsAccessor

theorem query_checkpoint (analysis : Analysis) (inquiry : Inquiry) :
    ∃ next, inquiry.query analysis = .checkpoint next := by
  cases inquiry <;> exact ⟨_, rfl⟩

theorem query_answers {analysis : Analysis} (unchecked : analysis.checked = false)
    (inquiry : Inquiry) : (inquiry.query analysis).Answers inquiry.DependsOn := by
  cases inquiry with
  | onMethod method => exact Analysis.methodIsGenerated_answers unchecked method
  | onProperty property => exact Analysis.propertyIsGenerated_answers unchecked property

end Inquiry

namespace Dump

section Loaded

variable {fileName : String} {document : Document} {dump : RecordDump}
  (loaded : load fileName document = .ok dump)

include loaded

/-- A body stands for the parameters of the method that it is found for. -/
theorem fits_of_load {method : Method} (known : method ∈ dump.record.methods) (body : Body)
    (found : dump.bodies.ofMethod method = some body) : body.Fits method := by
  intro parameter first v isParameter
  have fitting := (body_of_load loaded known found).1
  obtain ⟨w, unique, _, type⟩ := fitting.parameters 0 parameter (by rw [← List.head?_eq_getElem?, first])
  -- the parameter has one variable in the body, which is then the one that was found
  obtain rfl : w = v := by
    have same := isParameter.symm.trans (Body.parameter?_eq_some_iff.mpr unique)
    exact (Option.some.inj same).symm
  exact type

theorem query_unchecked (analysis : Analysis) {inquiry : Inquiry}
    (known : inquiry.IsAbout dump.record) :
    (inquiry.query analysis).answeredFrom dump.bodies.ofMethod =
      (inquiry.query analysis.unchecked).answeredFrom dump.bodies.ofMethod := by
  cases inquiry with
  | onMethod method =>
    exact analysis.methodIsGenerated_unchecked (fits_of_load loaded known)
  | onProperty property =>
    exact congrArg _ (analysis.propertyIsGenerated_unchecked property)

theorem eval_query_unchecked (analysis : Analysis) {inquiry : Inquiry}
    (known : inquiry.IsAbout dump.record) :
    (inquiry.query analysis).eval dump.bodies.ofMethod =
      (inquiry.query analysis.unchecked).eval dump.bodies.ofMethod := by
  rw [← Query.eval_answeredFrom, query_unchecked loaded analysis known, Query.eval_answeredFrom]

theorem exists_verdict (analysis : Analysis) {inquiry : Inquiry}
    (known : inquiry.IsAbout dump.record) :
    ∃ verdict, (inquiry.query analysis).eval dump.bodies.ofMethod = .ok verdict := by
  rw [eval_query_unchecked loaded analysis known]
  have answers : (inquiry.query analysis.unchecked).Answers inquiry.DependsOn :=
    inquiry.query_answers rfl
  obtain ⟨verdict, evaluated, _⟩ := answers.exists_eval dump.bodies.ofMethod
  exact ⟨verdict, evaluated⟩

/-! ### Pairing -/

theorem build_meets (checked : Bool) :
    Query.Meets (fun method => ∃ property ∈ dump.record.properties, property.IsAccessor method)
      (fun analysis => analysis.record = dump.record ∧ analysis.checked = checked ∧
        analysis.PairsOneToOne dump.record)
      (Analysis.build dump.record checked) :=
  Analysis.build_meets (propertyNames_of_load loaded) (fieldNames_of_load loaded) checked

theorem exists_analysis (checked : Bool) :
    ∃ analysis, (Analysis.build dump.record checked).eval dump.bodies.ofMethod = .ok analysis := by
  obtain ⟨analysis, built, _⟩ := (build_meets loaded checked).exists_eval dump.bodies.ofMethod
  exact ⟨analysis, built⟩

/-- What was built of a loaded record pairs its properties with fields one to one. -/
theorem of_build {checked : Bool} {analysis : Analysis}
    (built : (Analysis.build dump.record checked).eval dump.bodies.ofMethod = .ok analysis) :
    analysis.record = dump.record ∧ analysis.checked = checked ∧
      analysis.PairsOneToOne dump.record := by
  obtain ⟨found, built', promised⟩ :=
    (build_meets loaded checked).exists_eval dump.bodies.ofMethod
  have same : found = analysis := Except.ok.inj (built'.symm.trans built)
  exact same ▸ promised

end Loaded

/-- The analysis of a loaded record never fails, and pairs properties with fields one to one. Where
it is run, there is no other result than this analysis, if the run is not cancelled. -/
theorem build_pairsOneToOne {fileName : String} {document : Document} {dump : RecordDump}
    (loaded : load fileName document = .ok dump) (checked : Bool) :
    ∃ analysis, (Analysis.build dump.record checked).eval dump.bodies.ofMethod = .ok analysis ∧
      analysis.PairsOneToOne dump.record ∧
      ∀ host : Host, host.bodies = dump.bodies →
        ((Analysis.build dump.record checked).run host).1 = .ok analysis ∨
          ∃ reason, ((Analysis.build dump.record checked).run host).1 =
            .error (.cancelled reason) := by
  obtain ⟨analysis, built, _, _, oneToOne⟩ :=
    (build_meets loaded checked).exists_eval dump.bodies.ofMethod
  refine ⟨analysis, built, oneToOne, fun host same => ?_⟩
  obtain ⟨_, ends⟩ := (Analysis.build dump.record checked).run_endsWith host.serves_self
  rw [Query.ending, same, built] at ends
  generalize (Analysis.build dump.record checked).run host = outcome at ends
  -- a run ends with what the analysis gives without an environment, or it is stopped
  cases ends with
  | same => exact .inl rfl
  | stopped _ => exact .inr ⟨_, rfl⟩

theorem build_pointDump :
    load "point.yaml" pointDocument = .ok pointDump ∧
      ∃ analysis, (Analysis.build pointDump.record true).eval pointDump.bodies.ofMethod =
        .ok analysis ∧ analysis.PairsOneToOne pointDump.record := by
  obtain ⟨analysis, built, oneToOne, _⟩ := build_pairsOneToOne load_pointDocument true
  exact ⟨load_pointDocument, analysis, built, oneToOne⟩

/-! ### Frames -/

section Frame

variable {fileName : String} {document : Document} {dump : RecordDump}
  (loaded : load fileName document = .ok dump)
  {method : Method} (known : method ∈ dump.record.methods)

include loaded known

theorem token_ne_of_ne {accessed : Method} (declared : accessed ∈ dump.record.methods)
    (differ : accessed ≠ method) : accessed.token ≠ method.token := fun same =>
  differ (List.inj_on_of_nodup_map (methodTokens_of_load loaded) declared known same)

/-- What is asked about another member does not depend on the body of a method that is no
accessor. -/
theorem token_ne_of_dependsOn
    (noAccessor : ∀ property ∈ dump.record.properties, ¬ property.IsAccessor method)
    {inquiry : Inquiry} (about : inquiry.IsAbout dump.record) (other : inquiry ≠ .onMethod method)
    {accessed : Method} (depends : inquiry.DependsOn accessed) :
    accessed.token ≠ method.token := by
  cases inquiry with
  | onMethod asked =>
    obtain rfl : asked = accessed := depends
    exact token_ne_of_ne loaded known about fun same => other (congrArg _ same)
  | onProperty property =>
    refine token_ne_of_ne loaded known (accessor_mem_of_load loaded about depends) ?_
    rintro rfl
    exact noAccessor property about depends

end Frame

/-- The body of a method that is no accessor matters only for the verdict on this method: two dumps
of one record that hold the same other bodies have the same analysis, and the same verdicts on all
other members. -/
theorem verdict_frame {fileName otherName : String} {document otherDocument : Document}
    {dump other : RecordDump} (loaded : load fileName document = .ok dump)
    (otherLoaded : load otherName otherDocument = .ok other) (record : other.record = dump.record)
    {method : Method} (known : method ∈ dump.record.methods)
    (noAccessor : ∀ property ∈ dump.record.properties, ¬ property.IsAccessor method)
    (bodies : ∀ token, token ≠ method.token → other.bodies.find? token = dump.bodies.find? token)
    (checked : Bool) :
    ∃ analysis,
      (Analysis.build dump.record checked).eval dump.bodies.ofMethod = .ok analysis ∧
      (Analysis.build other.record checked).eval other.bodies.ofMethod = .ok analysis ∧
      ∀ inquiry : Inquiry, inquiry.IsAbout dump.record → inquiry ≠ .onMethod method →
        ∃ verdict, (inquiry.query analysis).eval dump.bodies.ofMethod = .ok verdict ∧
          (inquiry.query analysis).eval other.bodies.ofMethod = .ok verdict := by
  obtain ⟨analysis, built⟩ := exists_analysis loaded checked
  refine ⟨analysis, built, ?_, fun inquiry about differ => ?_⟩
  · -- an analysis asks for accessors, of which the changed method is none
    rw [← built, record]
    refine (build_meets loaded checked).eval_congr fun accessor ⟨property, listed, accesses⟩ => ?_
    refine bodies _ (token_ne_of_ne loaded known (accessor_mem_of_load loaded listed accesses) ?_)
    rintro rfl
    exact noAccessor property listed accesses
  · obtain ⟨verdict, evaluated⟩ := exists_verdict loaded analysis about
    refine ⟨verdict, evaluated, ?_⟩
    -- without preconditions both verdicts ask for the bodies that they depend on, and no others
    rw [eval_query_unchecked otherLoaded analysis (record ▸ about), ← evaluated,
      eval_query_unchecked loaded analysis about]
    exact (inquiry.query_answers rfl).eval_congr fun accessed depends =>
      bodies _ (token_ne_of_dependsOn loaded known noAccessor about differ depends)

theorem verdict_frame_equatableDump :
    ∃ analysis,
      (Analysis.build (equatableDump .null).record true).eval
        (equatableDump .null).bodies.ofMethod = .ok analysis ∧
      (Analysis.build (equatableDump .nop).record true).eval
        (equatableDump .nop).bodies.ofMethod = .ok analysis ∧
      ∀ inquiry : Inquiry, inquiry.IsAbout (equatableDump .null).record →
        inquiry ≠ .onMethod equatableEquals →
        ∃ verdict,
          (inquiry.query analysis).eval (equatableDump .null).bodies.ofMethod = .ok verdict ∧
          (inquiry.query analysis).eval (equatableDump .nop).bodies.ofMethod = .ok verdict := by
  have loaded : load "point.yaml" (equatableDocument "ldnull") = .ok (equatableDump .null) :=
    load_equatableDocument fun _ _ => rfl
  have otherLoaded : load "point.yaml" (equatableDocument "nop") = .ok (equatableDump .nop) :=
    load_equatableDocument fun _ _ => rfl
  have known : equatableEquals ∈ (equatableDump .null).record.methods := by simp [equatableDump]
  -- the accessors of the property are other methods than the one whose body changes
  have noAccessor : ∀ property ∈ (equatableDump .null).record.properties,
      ¬ property.IsAccessor equatableEquals := by
    simp [equatableDump, pointDump, equatableEquals, Property.IsAccessor]
  have bodies (token : Int) (differ : token ≠ equatableEquals.token) :
      (equatableDump .nop).bodies.find? token = (equatableDump .null).bodies.find? token := by
    have miss : (token == equatableEquals.token) = false := by simpa using differ
    simp [equatableDump, Bodies.find?, List.lookup_append, List.lookup_cons, miss]
  exact verdict_frame loaded otherLoaded rfl known noAccessor bodies true

end Dump

end MemberOrigin
