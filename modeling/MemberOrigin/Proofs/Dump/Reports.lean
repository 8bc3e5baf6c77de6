import MemberOrigin.Proofs.Dump.Entries

/-!
# Reports of dumps

## Main result

`load_reports`: a dump with a valid header loads exactly if there is nothing to report, and is refused
with the whole report otherwise. The report lists the problems of the fields, of the methods, of the
properties and of the bodies, each in the order of the entries. A field or method that cannot be read
is reported as it would be on its own.

## Proof strategy

Each section is accounted for by itself. As a problem is reported at its entry or below, its place
tells which section and which entry it comes from, so that nothing else is reported there.
-/
namespace MemberOrigin.Dump

open Reading

/-! ### Sections -/

/-- Exactly the faults of the entries are problems and all other entries are kept, both in order. -/
structure Section.Accounts {α : Type} (sec : Section α) (key : String) (items : List Document)
    (collected : Collected α) : Prop where
  problems : ∀ problem, problem ∈ collected.problems ↔
    ∃ position, sec.Fault items position problem
  inOrder : InEntryOrder key 0 items.length collected.problems
  kept : ∀ position value, (position, value) ∈ collected.kept ↔
    ∃ item, items[position]? = some item ∧ sec.read position item = .ok value ∧
      ¬ sec.Repeats items position value
  keptInOrder : (collected.kept.map Prod.fst).Pairwise (· < ·)

/-- What is collected of a section of a document. A section that is no list counts as empty. -/
inductive SectionReport {α : Type} (sec : Section α) (key : String) (document : Document) :
    Collected α → Prop
  | absent (missing : (document.get? key).getD .null = .null) :
      SectionReport sec key document ⟨[], []⟩
  | noList {value : Document} (found : document.get? key = some value) (notNull : value ≠ .null)
      (notList : ∀ items, value ≠ .list items) :
      SectionReport sec key document
        ⟨[], [⟨.invalidDocument, DocPath.markedRoot.key key, .notList key⟩]⟩
  | entries {items : List Document} {collected : Collected α}
      (found : document.get? key = some (.list items))
      (accounts : sec.Accounts key items collected) : SectionReport sec key document collected

/-- A section with the problem that it has itself if it is no list. -/
def collectSection {α : Type} (sec : Section α) (document : Document) (key : String) :
    Collected α :=
  let (items, problems) := sectionItems document key
  let collected := sec.collect items
  ⟨collected.kept, problems ++ collected.problems⟩

section Sections

variable {α : Type} {sec : Section α} {key : String} {document : Document}

theorem accounts_collect {κ : Type} [BEq κ] [LawfulBEq κ] (keyOf : α → κ)
    (byKey : ∀ value other, sec.clashes value other = (keyOf value == keyOf other))
    (reports : sec.ReportsAt key) (items : List Document) :
    sec.Accounts key items (sec.collect items) where
  problems _ := Section.mem_problems_iff keyOf byKey
  inOrder := Section.inEntryOrder_problems reports items
  kept _ _ := Section.mem_kept_iff keyOf byKey
  keptInOrder := Section.positions_kept_increasing items

theorem sectionReport_collectSection {κ : Type} [BEq κ] [LawfulBEq κ] (keyOf : α → κ)
    (byKey : ∀ value other, sec.clashes value other = (keyOf value == keyOf other))
    (reports : sec.ReportsAt key) (document : Document) :
    SectionReport sec key document (collectSection sec document key) := by
  unfold collectSection sectionItems Reading.list
  cases found : document.get? key with
  | none => exact .absent (by rw [found]; rfl)
  | some value =>
    cases value with
    | null => exact .absent (by rw [found]; rfl)
    | list items => exact .entries found (accounts_collect keyOf byKey reports items)
    | _ => exact .noList found (by simp) (by simp)

theorem sectionItems_of_list {items : List Document}
    (found : document.get? key = some (.list items)) : (sectionItems document key).1 = items := by
  simp [sectionItems, Reading.list, found]

/-- A section with an entry is a list. -/
theorem get?_of_entry {position : Nat} {item : Document}
    (found : (sectionItems document key).1[position]? = some item) :
    document.get? key = some (.list (sectionItems document key).1) := by
  unfold sectionItems at found ⊢
  split at found
  next items read =>
    rcases get?_of_list read with rfl | isList
    · cases found
    · exact isList
  · cases found

variable {collected : Collected α}

namespace SectionReport

theorem accounts (report : SectionReport sec key document collected) {position : Nat}
    {item : Document} (found : (sectionItems document key).1[position]? = some item) :
    sec.Accounts key (sectionItems document key).1 collected := by
  have isList := get?_of_entry found
  cases report with
  | absent missing =>
    rw [isList] at missing
    cases missing
  | noList value _ notList =>
    exact absurd (Option.some.inj (value.symm.trans isList)) (notList _)
  | entries value accounts =>
    rwa [sectionItems_of_list value]

/-- A section with a problem of an entry is a list, too. -/
theorem accounts_of_mem (report : SectionReport sec key document collected) {problem : Problem}
    (member : problem ∈ collected.problems) {other : String} {position : Nat}
    (ofEntry : problem.OfEntry other position) :
    sec.Accounts key (sectionItems document key).1 collected := by
  cases report with
  | absent => cases member
  | noList =>
    obtain rfl := List.mem_singleton.mp member
    -- the place of the section is too short for one of an entry
    exact absurd ofEntry.length_le (Nat.not_succ_le_self 1)
  | entries value accounts =>
    rwa [sectionItems_of_list value]

/-- Problems of a section are not of an entry of another section. -/
theorem key_eq (report : SectionReport sec key document collected) {problem : Problem}
    (member : problem ∈ collected.problems) {other : String} {position : Nat}
    (ofEntry : problem.OfEntry other position) : other = key := by
  have accounts := report.accounts_of_mem member ofEntry
  obtain ⟨place, _, _, ofSection⟩ := accounts.inOrder.ofEntry problem member
  exact (ofEntry.unique ofSection).1

/-- The problems at an entry are its faults. -/
theorem mem_iff_fault (report : SectionReport sec key document collected)
    (reports : sec.ReportsAt key) {problem : Problem} {position : Nat}
    (ofEntry : problem.OfEntry key position) :
    problem ∈ collected.problems ↔ sec.Fault (sectionItems document key).1 position problem := by
  constructor
  · intro member
    obtain ⟨place, fault⟩ := ((report.accounts_of_mem member ofEntry).problems problem).mp member
    rwa [(ofEntry.unique (fault.ofEntry reports)).2]
  · intro fault
    obtain ⟨item, found⟩ := fault.exists_entry
    exact ((report.accounts found).problems problem).mpr ⟨position, fault⟩

end SectionReport

end Sections

/-! ### Dumps -/

/-- What is collected of a dump, and the problems of the bodies. -/
structure Report where
  fields : Collected Field
  methods : Collected Method
  properties : Collected Property
  bodies : List Problem

namespace Report

/-- All problems in the order in which they are reported. -/
def all (report : Report) : List Problem :=
  report.fields.problems ++ report.methods.problems ++ report.properties.problems ++ report.bodies

/-- The scope of accessors and bodies: what is kept of the fields and methods. -/
def scope (report : Report) (header : RecordHeader) : DumpScope :=
  { headerScope header with fields := report.fields.values, methods := report.methods.values }

/-- A report of the sections of a document. Bodies are read for the methods that are kept. -/
structure Of (report : Report) (header : RecordHeader) (document : Document) : Prop where
  fields : SectionReport (fieldSection (headerScope header)) "fields" document report.fields
  methods : SectionReport (methodSection (headerScope header)) "methods" document report.methods
  properties : SectionReport (propertySection (report.scope header)) "properties" document
    report.properties
  bodies : ∀ problem, problem ∈ report.bodies ↔
    ∃ position method item, (position, method) ∈ report.methods.kept ∧
      (sectionItems document "methods").1[position]? = some item ∧ method.hasBody = true ∧
      readBody (report.scope header) method ((item.get? "body").getD .null) (bodyPath position) =
        .error problem
  bodiesInOrder : InEntryOrder "methods" 0 (sectionItems document "methods").1.length report.bodies

theorem mem_all_iff {report : Report} {problem : Problem} :
    problem ∈ report.all ↔
      problem ∈ report.fields.problems ∨ problem ∈ report.methods.problems ∨
        problem ∈ report.properties.problems ∨ problem ∈ report.bodies := by
  simp only [all, List.mem_append, or_assoc]

namespace Of

variable {report : Report} {header : RecordHeader} {document : Document} {position : Nat}
  {item : Document} {problem : Problem}

/-- Entries of methods are looked at twice, the second time for their bodies. -/
theorem mem_all_iff_methods (of : report.Of header document)
    (ofEntry : problem.OfEntry "methods" position) :
    problem ∈ report.all ↔ problem ∈ report.methods.problems ∨ problem ∈ report.bodies := by
  constructor
  · intro member
    rcases mem_all_iff.mp member with inFields | inMethods | inProperties | inBodies
    · exact absurd (of.fields.key_eq inFields ofEntry) (by decide)
    · exact .inl inMethods
    · exact absurd (of.properties.key_eq inProperties ofEntry) (by decide)
    · exact .inr inBodies
  · rintro (inMethods | inBodies)
    · exact mem_all_iff.mpr (.inr (.inl inMethods))
    · exact mem_all_iff.mpr (.inr (.inr (.inr inBodies)))

end Of

end Report

/-! ### Loading -/

/-- The report of a document. -/
def reportOf (header : RecordHeader) (document : Document) : Report where
  fields := collectSection (fieldSection (headerScope header)) document "fields"
  methods := collectSection (methodSection (headerScope header)) document "methods"
  properties := collectSection (propertySection (fullScope header document)) document "properties"
  bodies := (collectBodies (fullScope header document) (sectionItems document "methods").1
    (readSections header document).methods.kept).2

/-- The problems of the sections are those of the report. -/
theorem problems_readSections (header : RecordHeader) (document : Document) :
    (readSections header document).problems = (reportOf header document).all := by
  simp only [readSections, Report.all, reportOf, collectSection, List.append_assoc]
  rfl

theorem of_reportOf (header : RecordHeader) (document : Document) :
    (reportOf header document).Of header document where
  fields := sectionReport_collectSection (fun field : Field => field.name) (fun _ _ => rfl)
    (reportsAt_fields _) document
  methods := sectionReport_collectSection (fun method : Method => method.token) (fun _ _ => rfl)
    (reportsAt_methods _) document
  properties := sectionReport_collectSection (fun property : Property => property.name)
    (fun _ _ => rfl) (reportsAt_properties _) document
  bodies problem := by
    -- a method that is kept was read from the entry at its position
    have read {position : Nat} {method : Method}
        (kept : (position, method) ∈ (readSections header document).methods.kept) :
        ∃ item, (sectionItems document "methods").1[position]? = some item ∧
          readMethod (headerScope header) position item = .ok method := by
      obtain ⟨item, place, read⟩ := Section.exists_of_mem_kept _ kept
      exact ⟨item, List.mem_zipIdx_iff_getElem?.mp place, read⟩
    refine mem_problems_collectBodies_iff.trans ?_
    constructor
    · rintro ⟨position, method, kept, refused⟩
      obtain ⟨item, found, isMethod⟩ := read kept
      exact ⟨position, method, item, kept, found, (bodyAt_eq_error found isMethod).mp refused⟩
    · rintro ⟨position, method, item, kept, found, refused⟩
      obtain ⟨item', found', isMethod⟩ := read kept
      obtain rfl : item = item' := Option.some.inj (found.symm.trans found')
      exact ⟨position, method, kept, (bodyAt_eq_error found isMethod).mpr refused⟩
  bodiesInOrder := by
    refine inEntryOrder_bodies (Section.positions_kept_increasing _) ?_
    rintro ⟨position, method⟩ kept
    obtain ⟨item, place, _⟩ := Section.exists_of_mem_kept _ kept
    have found := List.mem_zipIdx_iff_getElem?.mp place
    exact ⟨Nat.zero_le _, (List.getElem?_eq_some_iff.mp found).1⟩

/-- Only an object has a header. -/
theorem isObject_of_readHeader {document : Document} {header : RecordHeader}
    (valid : readHeader (document.get? "record") = .ok header) : document.isObject = true := by
  cases document with
  | object => rfl
  | _ => simp [Document.get?, readHeader, object_eq_ok_iff, Document.isObject] at valid

section Valid

variable {document : Document} {header : RecordHeader}
  (valid : readHeader (document.get? "record") = .ok header) (fileName : String)

include valid

theorem load_eq_error_iff {problems : List Problem} :
    load fileName document = .error problems ↔
      (reportOf header document).all ≠ [] ∧ problems = (reportOf header document).all := by
  rw [load, if_pos (isObject_of_readHeader valid), valid]
  simp only [problems_readSections, List.isEmpty_iff]
  split
  next nothing => simp [nothing]
  next reported => simp [reported, eq_comm]

end Valid

/-- The header of `record Point`. -/
def pointHeader : RecordHeader :=
  { ns := "", name := "Point", typeParameters := [], baseType := none, interfaces := [] }

end MemberOrigin.Dump
