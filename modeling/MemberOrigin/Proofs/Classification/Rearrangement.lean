import MemberOrigin.Proofs.Classification.Answers
import MemberOrigin.Proofs.Dump.Rearrangement

/-!
# Classification of rearranged dumps

## Main result

`Dump.classification_rearranged`: the order of the fields and methods of a dump that gives their tokens
matters neither for whether it loads, nor for what is found out about the record.

## Proof strategy

The automatic properties are found by names of fields and tokens of methods, and the order of members
is that of the properties. A verdict asks an analysis for the header of the record, its automatic
properties and its order of members, and the bodies for single tokens. All of this is the same for both
dumps.
-/
namespace MemberOrigin

namespace AutoProperty

variable {record other : RecordType} (header : record.toRecordHeader = other.toRecordHeader)
  (fields : record.fields.Perm other.fields)
  (distinct : (record.fields.map fun field => field.name).Nodup)

include header fields distinct

/-- A field is declared under a name, whatever the order of the fields is. -/
theorem declared?_rearranged : declared? record = declared? other := by
  funext property reference
  have found : (record.fields.find? fun field => field.toRef.same reference) =
      other.fields.find? fun field => field.toRef.same reference := by
    apply find?_eq_of_perm fields distinct
    intro field field' same same'
    simp only [FieldRef.same, Field.toRef, Bool.and_eq_true, beq_iff_eq] at same same'
    exact same.1.1.trans same'.1.1.symm
  rw [declared?, declared?, header, found]

theorem pairs_rearranged (properties : List Property) :
    pairs record properties = pairs other properties := by
  have declared := declared?_rearranged header fields distinct
  induction properties with
  | nil => rfl
  | cons property rest ih =>
    have here : backingField? record property = backingField? other property := by
      simp only [backingField?, withSetter, declared]
    rw [pairs, pairs, here, ih]

theorem detect_rearranged (properties : record.properties = other.properties) :
    detect record = detect other := by
  rw [detect, detect, ← properties, pairs_rearranged header fields distinct]

end AutoProperty

namespace Analysis

/-- A verdict needs no more of the record than its header. -/
theorem query_of_header {analysis : Analysis} {other : RecordType}
    (header : analysis.record.toRecordHeader = other.toRecordHeader) (inquiry : Inquiry) :
    inquiry.query { analysis with record := other } = inquiry.query analysis := by
  obtain ⟨⟨header', _, _, _⟩, _, _, _, _⟩ := analysis
  obtain ⟨_, _, _, _⟩ := other
  cases header
  cases inquiry <;> rfl

/-- The report of an analysis with these verdicts. -/
def reportWith (analysis : Analysis) (verdict : Inquiry → Bool) : Report :=
  { record := analysis.record.qualifiedName
    isInherited := analysis.isInherited
    autoProperties := analysis.backingFields.pairs.map fun pair => (pair.1.name, pair.2.name)
    memberOrder := analysis.memberOrder.map fun order => order.map fun property => property.name
    verdicts :=
      (analysis.record.properties.map fun property =>
        ⟨.property, property.name, property.signature, verdict (.onProperty property)⟩) ++
      analysis.record.methods.map fun method =>
        ⟨.method, method.name, method.signature, verdict (.onMethod method)⟩ }

section Report

variable {analysis : Analysis} {bodies : Method → Option Body} {verdict : Inquiry → Bool}

theorem eval_judgeProperties {properties : List Property}
    (answered : ∀ property ∈ properties, (analysis.propertyIsGenerated property).eval bodies =
      .ok (verdict (.onProperty property))) :
    (analysis.judgeProperties properties).eval bodies = .ok (properties.map fun property =>
      ⟨.property, property.name, property.signature, verdict (.onProperty property)⟩) := by
  induction properties with
  | nil => rfl
  | cons property rest ih =>
    obtain ⟨here, behind⟩ := List.forall_mem_cons.mp answered
    simp only [judgeProperties, Query.eval_bind_eq_ok_iff, Query.eval_pure]
    exact ⟨_, here, _, ih behind, rfl⟩

theorem eval_judgeMethods {methods : List Method}
    (answered : ∀ method ∈ methods, (analysis.methodIsGenerated method).eval bodies =
      .ok (verdict (.onMethod method))) :
    (analysis.judgeMethods methods).eval bodies = .ok (methods.map fun method =>
      ⟨.method, method.name, method.signature, verdict (.onMethod method)⟩) := by
  induction methods with
  | nil => rfl
  | cons method rest ih =>
    obtain ⟨here, behind⟩ := List.forall_mem_cons.mp answered
    simp only [judgeMethods, Query.eval_bind_eq_ok_iff, Query.eval_pure]
    exact ⟨_, here, _, ih behind, rfl⟩

/-- A report holds the answers to all inquiries about the record. -/
theorem eval_classify {record : RecordType} {checked : Bool}
    (built : (build record checked).eval bodies = .ok analysis)
    (ofRecord : analysis.record = record)
    (answered : ∀ inquiry : Inquiry, inquiry.IsAbout record →
      (inquiry.query analysis).eval bodies = .ok (verdict inquiry)) :
    (record.classify checked).eval bodies = .ok (analysis.reportWith verdict) := by
  subst ofRecord
  simp only [RecordType.classify, report, Query.eval_bind_eq_ok_iff, Query.eval_pure]
  refine ⟨analysis, built, _, ?_, _, ?_, rfl⟩
  · -- a report asks about the properties first, and then about the methods
    apply eval_judgeProperties
    intro property member
    exact answered (.onProperty property) member
  · apply eval_judgeMethods
    intro method member
    exact answered (.onMethod method) member

end Report

/-- Up to the record itself, the same is found out about both. -/
theorem build_rearranged {record other : RecordType}
    (header : record.toRecordHeader = other.toRecordHeader)
    (fields : record.fields.Perm other.fields)
    (distinct : (record.fields.map fun field => field.name).Nodup)
    (properties : record.properties = other.properties) {checked : Bool}
    {bodies : Method → Option Body} {analysis : Analysis}
    (built : (build record checked).eval bodies = .ok analysis) :
    (build other checked).eval bodies = .ok { analysis with record := other } := by
  obtain ⟨backing, detected, rfl⟩ := eval_build_eq_ok_iff.mp built
  rw [AutoProperty.detect_rearranged header fields distinct properties] at detected
  have order : record.memberOrder? backing = other.memberOrder? backing := by
    rw [RecordType.memberOrder?, RecordType.memberOrder?, fields.all_eq, properties]
  refine eval_build_eq_ok_iff.mpr ⟨backing, detected, ?_⟩
  simp only [order, header]

end Analysis

namespace Dump

/-- Dumps that differ in the order of fields and methods are analysed alike, and every question about
the record has the same answer in both. -/
theorem analyses_of_sameUpToOrder {fileName : String} {document : Document} {dump other : RecordDump}
    (loaded : load fileName document = .ok dump) (same : dump.SameUpToOrder other) (checked : Bool) :
    ∃ analysis, (Analysis.build dump.record checked).eval dump.bodies.ofMethod = .ok analysis ∧
      (Analysis.build other.record checked).eval other.bodies.ofMethod =
        .ok { analysis with record := other.record } ∧
      ∀ inquiry : Inquiry,
        (inquiry.IsAbout dump.record ↔ inquiry.IsAbout other.record) ∧
        (inquiry.IsAbout dump.record → ∃ verdict,
          (inquiry.query analysis).eval dump.bodies.ofMethod = .ok verdict ∧
          (inquiry.query { analysis with record := other.record }).eval other.bodies.ofMethod =
            .ok verdict) := by
  have bodies : dump.bodies.ofMethod = other.bodies.ofMethod :=
    funext fun method => same.bodies method.token
  obtain ⟨analysis, built⟩ := exists_analysis loaded checked
  refine ⟨analysis, built, ?_, fun inquiry => ⟨?_, fun about => ?_⟩⟩
  · rw [← bodies]
    exact Analysis.build_rearranged same.header same.fields (fieldNames_of_load loaded)
      same.properties built
  · cases inquiry with
    | onMethod method => exact same.methods.mem_iff
    | onProperty property => rw [Inquiry.IsAbout, Inquiry.IsAbout, same.properties]
  · obtain ⟨verdict, evaluated⟩ := exists_verdict loaded analysis about
    -- a question about one member reads only the header of the record and the backing fields
    have header : analysis.record.toRecordHeader = other.record.toRecordHeader := by
      rw [(of_build loaded built).1, same.header]
    refine ⟨verdict, evaluated, ?_⟩
    rw [Analysis.query_of_header header, ← bodies, evaluated]

/-- The order of the fields and methods of a dump that gives all their tokens does not matter: one
order loads if the other one does, and then the same is found out about the record, with the same
verdict on every property and every method. The two reports differ in the order of verdicts only. -/
theorem classification_rearranged {fileName otherName : String} {document other : Document}
    (rearranged : Rearranged document other) (fields : GivesTokens "fields" document)
    (methods : GivesTokens "methods" document) :
    ((∃ dump, load fileName document = .ok dump) ↔ ∃ dump, load otherName other = .ok dump) ∧
      ∀ dump otherDump, load fileName document = .ok dump → load otherName other = .ok otherDump →
        ∀ checked, ∃ analysis otherAnalysis report otherReport,
          ((Analysis.build dump.record checked).eval dump.bodies.ofMethod = .ok analysis ∧
            (Analysis.build otherDump.record checked).eval otherDump.bodies.ofMethod =
              .ok otherAnalysis) ∧
          analysis.isInherited = otherAnalysis.isInherited ∧
          analysis.backingFields.pairs = otherAnalysis.backingFields.pairs ∧
          analysis.memberOrder = otherAnalysis.memberOrder ∧
          (∀ inquiry : Inquiry,
            (inquiry.IsAbout dump.record ↔ inquiry.IsAbout otherDump.record) ∧
            (inquiry.IsAbout dump.record → ∃ verdict,
              (inquiry.query analysis).eval dump.bodies.ofMethod = .ok verdict ∧
              (inquiry.query otherAnalysis).eval otherDump.bodies.ofMethod = .ok verdict)) ∧
          ((dump.record.classify checked).eval dump.bodies.ofMethod = .ok report ∧
            (otherDump.record.classify checked).eval otherDump.bodies.ofMethod = .ok otherReport) ∧
          otherReport = { report with verdicts := otherReport.verdicts } ∧
          report.verdicts.Perm otherReport.verdicts := by
  refine ⟨⟨?_, ?_⟩, ?_⟩
  · rintro ⟨dump, loaded⟩
    obtain ⟨otherDump, otherLoaded, _⟩ := load_rearranged rearranged fields methods loaded
    exact ⟨otherDump, otherLoaded⟩
  · rintro ⟨otherDump, otherLoaded⟩
    obtain ⟨dump, loaded, _⟩ := load_rearranged rearranged.symm
      (fields.of_sameItems rearranged.fields) (methods.of_sameItems rearranged.methods) otherLoaded
    exact ⟨dump, loaded⟩
  intro dump otherDump loaded otherLoaded checked
  obtain ⟨found, otherLoaded', same⟩ := load_rearranged rearranged fields methods loaded
  obtain rfl : found = otherDump := Except.ok.inj (otherLoaded'.symm.trans otherLoaded)
  obtain ⟨analysis, built, otherBuilt, inquiries⟩ := analyses_of_sameUpToOrder loaded same checked
  have ofRecord := (of_build loaded built).1
  -- one choice of verdicts serves both reports
  choose! verdict answered otherAnswered using fun inquiry => (inquiries inquiry).2
  refine ⟨analysis, _, analysis.reportWith verdict, _, ⟨built, otherBuilt⟩, rfl, rfl, rfl, inquiries,
    ⟨Analysis.eval_classify built ofRecord answered, Analysis.eval_classify otherBuilt rfl
      fun inquiry about => otherAnswered inquiry ((inquiries inquiry).1.mpr about)⟩, ?_, ?_⟩
  · have header : analysis.record.toRecordHeader = found.record.toRecordHeader := by
      rw [ofRecord, same.header]
    simp only [Analysis.reportWith, header]
  · simp only [Analysis.reportWith, ofRecord, same.properties]
    exact (same.methods.map _).append_left _

/-- The entries of fields and methods in the sample dump give their tokens. -/
theorem givesTokens_synthesizedDocument :
    GivesTokens "fields" (synthesizedDocument synthesizedFields synthesizedMethods) ∧
      GivesTokens "methods" (synthesizedDocument synthesizedFields synthesizedMethods) := by
  constructor
  · intro items found entry member
    cases found
    simp only [synthesizedFields, List.mem_cons, List.not_mem_nil, or_false] at member
    rcases member with rfl | rfl <;> exact ⟨_, rfl, nofun⟩
  · intro items found entry member
    cases found
    simp only [synthesizedMethods, List.mem_cons, List.not_mem_nil, or_false] at member
    rcases member with rfl | rfl | rfl | rfl | rfl <;> exact ⟨_, rfl, nofun⟩

theorem classification_rearranged_synthesizedDump :
    ∃ otherDump analysis otherAnalysis,
      load "point.yaml" (synthesizedDocument synthesizedFields.reverse synthesizedMethods.reverse) =
        .ok otherDump ∧
      (Analysis.build synthesizedDump.record true).eval synthesizedDump.bodies.ofMethod =
        .ok analysis ∧
      (Analysis.build otherDump.record true).eval otherDump.bodies.ofMethod = .ok otherAnalysis ∧
      analysis.memberOrder = otherAnalysis.memberOrder ∧
      ∀ inquiry : Inquiry, inquiry.IsAbout synthesizedDump.record → ∃ verdict,
        (inquiry.query analysis).eval synthesizedDump.bodies.ofMethod = .ok verdict ∧
        (inquiry.query otherAnalysis).eval otherDump.bodies.ofMethod = .ok verdict := by
  obtain ⟨fields, methods⟩ := givesTokens_synthesizedDocument
  have rearranged : Rearranged (synthesizedDocument synthesizedFields synthesizedMethods)
      (synthesizedDocument synthesizedFields.reverse synthesizedMethods.reverse) :=
    ⟨rfl, rfl, .inr ⟨_, _, rfl, rfl, (List.reverse_perm _).symm⟩,
      .inr ⟨_, _, rfl, rfl, (List.reverse_perm _).symm⟩, rfl⟩
  obtain ⟨loads, same⟩ := classification_rearranged rearranged fields methods
  obtain ⟨otherDump, otherLoaded⟩ := loads.mp ⟨synthesizedDump, load_synthesizedDocument⟩
  obtain ⟨analysis, otherAnalysis, _, _, ⟨built, otherBuilt⟩, _, _, order, verdicts, _⟩ :=
    same synthesizedDump otherDump load_synthesizedDocument otherLoaded true
  exact ⟨otherDump, analysis, otherAnalysis, otherLoaded, built, otherBuilt, order,
    fun inquiry about => (verdicts inquiry).2 about⟩

end Dump

end MemberOrigin
