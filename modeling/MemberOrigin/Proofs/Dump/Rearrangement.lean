import Mathlib.Data.List.Perm.Basic
import MemberOrigin.Proofs.Dump.Agreement
import MemberOrigin.Proofs.Dump.WellScoped
import MemberOrigin.Proofs.Search

/-!
# Dumps with rearranged declarations

## Main result

`load_rearranged`: if every field and every method of a dump gives its token, then the dump loads in
every order of its fields and methods, or in none, and what is loaded differs in this order only.

## Proof strategy

What is read of an entry does not depend on where it stands, as long as no token comes from the
position. So a section without problems keeps the values of its entries, and has no problems exactly if
every entry has a value and no key repeats; neither depends on the order. Names then mean the same
in both dumps, which gives the same properties, and the same bodies under the same tokens.
-/
namespace MemberOrigin

/-- Dumps of the same record that differ in the order of fields and methods only. -/
structure RecordDump.SameUpToOrder (dump other : RecordDump) : Prop where
  header : dump.record.toRecordHeader = other.record.toRecordHeader
  fields : dump.record.fields.Perm other.record.fields
  methods : dump.record.methods.Perm other.record.methods
  properties : dump.record.properties = other.record.properties
  bodies : ∀ token, dump.bodies.find? token = other.bodies.find? token

namespace Dump

open Reading Relocation

/-! ### Values of entries -/

/-- All places, of which none matters. -/
def anywhere : Relocation where
  At _ _ _ := True
  Pairs _ _ := True
  here _ _ _ := trivial
  below _ _ _ _ _ := trivial
  key _ _ _ _ := trivial
  item _ _ _ _ := trivial

theorem toOption_eq_of_agree {α : Type} {reading other : Reading α}
    (agree : anywhere.Agree reading other) : reading.toOption = other.toOption := by
  cases agree <;> rfl

namespace Section

variable {α : Type} (sec : Section α)

/-- What is read of an entry. -/
def valueOf (item : Document) : Option α :=
  (sec.read 0 item).toOption

/-- What is read of these entries does not depend on their positions. -/
def AnyPlace (items : List Document) : Prop :=
  ∀ item ∈ items, ∀ position, (sec.read position item).toOption = sec.valueOf item

variable {sec}

section Entry

variable {items : List Document} (anyPlace : sec.AnyPlace items) {item : Document}
  (member : item ∈ items) {position : Nat}

include anyPlace member

theorem valueOf_of_ok {value : α} (read : sec.read position item = .ok value) :
    sec.valueOf item = some value := by
  rw [← anyPlace item member position, read]
  rfl

theorem valueOf_of_error {problem : Problem} (read : sec.read position item = .error problem) :
    sec.valueOf item = none := by
  rw [← anyPlace item member position, read]
  rfl

end Entry

theorem collectFrom_fine_iff {items : List Document} (anyPlace : sec.AnyPlace items)
    (earlier : List α) (start : Nat) :
    (sec.collectFrom earlier start items).problems = [] ↔
      (∀ item ∈ items, (sec.valueOf item).isSome = true) ∧
        (∀ value ∈ items.filterMap sec.valueOf, ∀ other ∈ earlier,
          sec.clashes value other = false) ∧
        (items.filterMap sec.valueOf).Pairwise fun other value =>
          sec.clashes value other = false := by
  induction items generalizing earlier start with
  | nil => simp [collectFrom]
  | cons item rest ih =>
    have behind : sec.AnyPlace rest := (List.forall_mem_cons.mp anyPlace).2
    rw [collectFrom]
    cases read : sec.read start item with
    | error problem => simp [valueOf_of_error anyPlace List.mem_cons_self read]
    | ok value =>
      have isValue : sec.valueOf item = some value := valueOf_of_ok anyPlace List.mem_cons_self read
      by_cases clash : earlier.any (sec.clashes value) = true
      · -- the entry is a problem of its own, whatever follows
        obtain ⟨other, member, clashes⟩ := List.any_eq_true.mp clash
        simp only [clash, if_true, List.cons_ne_nil, false_iff]
        rintro ⟨_, apart, _⟩
        have free := apart value (by simp [isValue]) other member
        simp [clashes] at free
      · have new : ∀ other ∈ earlier, sec.clashes value other = false := by simpa using clash
        simp only [clash, Bool.false_eq_true, if_false, ih behind, List.forall_mem_cons, isValue,
          Option.isSome_some, true_and, List.filterMap_cons_some isValue, List.pairwise_cons,
          List.forall_mem_append, List.mem_singleton, forall_eq]
        constructor
        · rintro ⟨values, apart, pairwise⟩
          exact ⟨values, ⟨new, fun other member => (apart other member).1⟩,
            fun other member => (apart other member).2, pairwise⟩
        · rintro ⟨values, ⟨_, apart⟩, fromValue, pairwise⟩
          exact ⟨values, fun other member => ⟨apart other member, fromValue other member⟩, pairwise⟩

/-- A section whose values clash when they share a key has no problems exactly if every entry has a
value, and no two values share their key. -/
theorem collect_fine_iff {κ : Type} [BEq κ] [LawfulBEq κ] (key : α → κ)
    (byKey : ∀ value other, sec.clashes value other = (key value == key other))
    {items : List Document} (anyPlace : sec.AnyPlace items) :
    (sec.collect items).problems = [] ↔
      (∀ item ∈ items, (sec.valueOf item).isSome = true) ∧
        ((items.filterMap sec.valueOf).map key).Nodup := by
  have apart (other value : α) : sec.clashes value other = false ↔ key other ≠ key value := by
    rw [byKey, beq_eq_false_iff_ne]
    exact ne_comm
  rw [collect, collectFrom_fine_iff anyPlace, List.Nodup, List.pairwise_map]
  simp [apart]

theorem kept_of_fine {items : List Document} (anyPlace : sec.AnyPlace items)
    {earlier : List α} {start : Nat}
    (fine : (sec.collectFrom earlier start items).problems = []) :
    (sec.collectFrom earlier start items).kept =
      (items.zipIdx start).filterMap fun entry =>
        (sec.valueOf entry.1).map fun value => (entry.2, value) := by
  induction items generalizing earlier start with
  | nil => rfl
  | cons item rest ih =>
    have behind : sec.AnyPlace rest := (List.forall_mem_cons.mp anyPlace).2
    rw [collectFrom] at fine ⊢
    cases read : sec.read start item with
    | error problem => simp [read] at fine
    | ok value =>
      have isValue : sec.valueOf item = some value := valueOf_of_ok anyPlace List.mem_cons_self read
      simp only [read] at fine ⊢
      -- a clash would be a problem, so the value is new and kept
      split at fine
      · simp at fine
      next new =>
        simp only [new]
        rw [ih behind fine]
        simp [isValue]

theorem values_of_fine {items : List Document} (anyPlace : sec.AnyPlace items)
    (fine : (sec.collect items).problems = []) :
    (sec.collect items).values = items.filterMap sec.valueOf := by
  rw [Collected.values, collect, kept_of_fine anyPlace fine, List.map_filterMap]
  conv_rhs => rw [← List.zipIdx_map_fst 0 items, List.filterMap_map]
  simp [Function.comp_def]

theorem mem_kept_iff_of_fine {items : List Document} (anyPlace : sec.AnyPlace items)
    (fine : (sec.collect items).problems = []) {position : Nat} {value : α} :
    (position, value) ∈ (sec.collect items).kept ↔
      ∃ item, items[position]? = some item ∧ sec.valueOf item = some value := by
  rw [collect, kept_of_fine anyPlace fine]
  simp [List.mem_zipIdx_iff_getElem?]

/-- The order of the entries matters neither for whether there are problems, nor for what is read, but
for the order of the values. -/
theorem collect_perm {κ : Type} [BEq κ] [LawfulBEq κ] (key : α → κ)
    (byKey : ∀ value other, sec.clashes value other = (key value == key other))
    {items others : List Document} (anyPlace : sec.AnyPlace items) (perm : items.Perm others)
    (fine : (sec.collect items).problems = []) :
    (sec.collect others).problems = [] ∧
      (sec.collect items).values.Perm (sec.collect others).values := by
  have anyPlace' : sec.AnyPlace others := fun item member => anyPlace item (perm.mem_iff.mpr member)
  have values : (items.filterMap sec.valueOf).Perm (others.filterMap sec.valueOf) :=
    perm.filterMap _
  -- being fine only speaks of all entries and of pairs of them, in any order
  have fine' : (sec.collect others).problems = [] := by
    rw [collect_fine_iff key byKey anyPlace']
    obtain ⟨all, distinct⟩ := (collect_fine_iff key byKey anyPlace).mp fine
    exact ⟨fun item member => all item (perm.mem_iff.mpr member),
      (values.map key).nodup_iff.mp distinct⟩
  rw [values_of_fine anyPlace fine, values_of_fine anyPlace' fine']
  exact ⟨fine', values⟩

/-- Sections whose entries have the same values keep the same, and have problems at the same
entries. -/
theorem collectFrom_congr (sec other : Section α) (clashes : sec.clashes = other.clashes)
    (items : List Document)
    (reads : ∀ item position, (sec.read position item).toOption =
      (other.read position item).toOption) (earlier : List α) (start : Nat) :
    (sec.collectFrom earlier start items).kept = (other.collectFrom earlier start items).kept ∧
      ((sec.collectFrom earlier start items).problems = [] ↔
        (other.collectFrom earlier start items).problems = []) := by
  induction items generalizing earlier start with
  | nil => exact ⟨rfl, .rfl⟩
  | cons item rest ih =>
    -- both readers give a value or none of them does, and then it is the same one
    have here := reads item start
    rw [collectFrom, collectFrom, clashes]
    cases read : sec.read start item with
    | error problem =>
      cases read' : other.read start item with
      | error problem' => simp [(ih earlier (start + 1)).1]
      | ok value' => simp [read, read', Except.toOption] at here
    | ok value =>
      cases read' : other.read start item with
      | error problem' => simp [read, read', Except.toOption] at here
      | ok value' =>
        obtain rfl : value = value' := by simpa [read, read', Except.toOption] using here
        dsimp only
        split
        · simp [(ih earlier (start + 1)).1]
        · simp [(ih (earlier ++ [value]) (start + 1)).1, (ih (earlier ++ [value]) (start + 1)).2]

end Section

/-! ### Bodies -/

/-- What is read of the body of a method. -/
def bodyOf (scope : DumpScope) (item : Document) (method : Method) : Option Body :=
  (readBody scope method ((item.get? "body").getD .null) .root).toOption

theorem bodyOf_congr {scope other : DumpScope} (same : SameScope scope other) (item : Document)
    (method : Method) : bodyOf scope item method = bodyOf other item method :=
  toOption_eq_of_agree (readBody_agrees same trivial fun _ _ _ => trivial)

section Bodies

variable {header scope : DumpScope} {items : List Document}

section Entry

variable {position : Nat} {item : Document} {method : Method}
  (found : items[position]? = some item)
  (read : (methodSection header).valueOf item = some method)

include found read

variable (scope) in
/-- A method with a body has the one of its entry. -/
theorem exists_bodyAt (hasBody : method.hasBody = true) :
    ∃ reading, bodyAt scope items position method = some reading ∧
      reading.toOption = bodyOf scope item method := by
  have isObject := (readMethod_declaringType (toOption_eq_some_iff.mp read)).1
  have here : bodyAt scope items position method = some (readBody scope method
      ((item.get? "body").getD .null) (((DocPath.root.key "methods").index position).key "body")) := by
    simp [bodyAt, found, hasBody, isObject]
  exact ⟨_, here, toOption_eq_of_agree (readBody_agrees (.refl scope) trivial fun _ _ _ => trivial)⟩

theorem bodyAt_eq_ok_iff {body : Body} :
    bodyAt scope items position method = some (.ok body) ↔
      method.hasBody = true ∧ bodyOf scope item method = some body := by
  by_cases hasBody : method.hasBody = true
  · obtain ⟨reading, isReading, value⟩ := exists_bodyAt scope found read hasBody
    simp [isReading, hasBody, ← value, toOption_eq_some_iff]
  · simp [bodyAt, found, hasBody]

theorem bodyAt_eq_error_iff :
    (∃ problem, bodyAt scope items position method = some (.error problem)) ↔
      method.hasBody = true ∧ bodyOf scope item method = none := by
  by_cases hasBody : method.hasBody = true
  · obtain ⟨reading, isReading, value⟩ := exists_bodyAt scope found read hasBody
    cases reading <;> simp [isReading, hasBody, ← value, Except.toOption]
  · simp [bodyAt, found, hasBody]

end Entry

variable (anyPlace : (methodSection header).AnyPlace items)
  (fine : ((methodSection header).collect items).problems = [])

include anyPlace fine

theorem mem_bodies_iff_of_fine {token : Int} {body : Body} :
    (token, body) ∈ (collectBodies scope items ((methodSection header).collect items).kept).1 ↔
      ∃ item ∈ items, ∃ method, (methodSection header).valueOf item = some method ∧
        method.token = token ∧ method.hasBody = true ∧ bodyOf scope item method = some body := by
  simp only [mem_collectBodies_iff, Section.mem_kept_iff_of_fine anyPlace fine]
  constructor
  · rintro ⟨position, method, ⟨item, found, read⟩, token, here⟩
    exact ⟨item, List.mem_of_getElem? found, method, read, token,
      (bodyAt_eq_ok_iff found read).mp here⟩
  · rintro ⟨item, member, method, read, token, body⟩
    obtain ⟨position, found⟩ := List.mem_iff_getElem?.mp member
    exact ⟨position, method, ⟨item, found, read⟩, token, (bodyAt_eq_ok_iff found read).mpr body⟩

theorem bodies_fine_iff :
    (collectBodies scope items ((methodSection header).collect items).kept).2 = [] ↔
      ∀ item ∈ items, ∀ method, (methodSection header).valueOf item = some method →
        method.hasBody = true → (bodyOf scope item method).isSome = true := by
  rw [List.eq_nil_iff_forall_not_mem]
  simp only [mem_problems_collectBodies_iff, Section.mem_kept_iff_of_fine anyPlace fine]
  constructor
  · intro fineBodies item member method read hasBody
    obtain ⟨position, found⟩ := List.mem_iff_getElem?.mp member
    -- a method whose body cannot be read is a problem
    by_contra noBody
    rw [Option.not_isSome_iff_eq_none] at noBody
    obtain ⟨problem, here⟩ := (bodyAt_eq_error_iff found read).mpr ⟨hasBody, noBody⟩
    exact fineBodies problem ⟨position, method, ⟨item, found, read⟩, here⟩
  · rintro readable problem ⟨position, method, ⟨item, found, read⟩, here⟩
    obtain ⟨hasBody, noBody⟩ := (bodyAt_eq_error_iff found read).mp ⟨problem, here⟩
    have some := readable item (List.mem_of_getElem? found) method read hasBody
    simp [noBody] at some

end Bodies

/-! ### Names -/

/-- Names of fields and methods mean the same in every order. -/
theorem sameScope_of_perm {scope other : DumpScope} (selfType : scope.selfType = other.selfType)
    (typeParameters : scope.typeParameters = other.typeParameters)
    (fields : scope.fields.Perm other.fields)
    (distinct : (scope.fields.map fun field => field.name).Nodup)
    (methods : scope.methods.Perm other.methods) : SameScope scope other where
  selfType := selfType
  typeParameters := typeParameters
  fields name := by
    apply find?_eq_of_perm fields distinct
    intro field field' named named'
    rw [beq_iff_eq] at named named'
    rw [named, named']
  methods _ := methods.filter _

/-! ### Documents -/

/-- Two documents have the same entry at a key, or lists of the same items in some order. -/
def SameItems (key : String) (document other : Document) : Prop :=
  document.get? key = other.get? key ∨ ∃ items others, document.get? key = some (.list items) ∧
    other.get? key = some (.list others) ∧ items.Perm others

theorem SameItems.symm {key : String} {document other : Document}
    (same : SameItems key document other) : SameItems key other document := by
  rcases same with equal | ⟨items, others, found, found', perm⟩
  · exact .inl equal.symm
  · exact .inr ⟨others, items, found', found, perm.symm⟩

/-- A document with its fields and methods in another order. -/
structure Rearranged (document other : Document) : Prop where
  form : document.isObject = other.isObject
  record : document.get? "record" = other.get? "record"
  fields : SameItems "fields" document other
  methods : SameItems "methods" document other
  properties : document.get? "properties" = other.get? "properties"

theorem Rearranged.symm {document other : Document} (rearranged : Rearranged document other) :
    Rearranged other document where
  form := rearranged.form.symm
  record := rearranged.record.symm
  fields := rearranged.fields.symm
  methods := rearranged.methods.symm
  properties := rearranged.properties.symm

/-- Every item of the list at a key gives its token. -/
def GivesTokens (key : String) (document : Document) : Prop :=
  ∀ items, document.get? key = some (.list items) → ∀ item ∈ items, GivesToken item

theorem GivesTokens.of_sameItems {key : String} {document other : Document}
    (gives : GivesTokens key document) (same : SameItems key document other) :
    GivesTokens key other := by
  intro others found item member
  rcases same with equal | ⟨items, _, inDocument, inOther, perm⟩
  · exact gives others (equal.trans found) item member
  · cases found.symm.trans inOther
    exact gives items inDocument item (perm.mem_iff.mpr member)

theorem GivesTokens.of_mem {key : String} {document : Document} (gives : GivesTokens key document)
    {item : Document} (member : item ∈ (sectionItems document key).1) : GivesToken item := by
  unfold sectionItems at member
  split at member
  next items read =>
    rcases get?_of_list read with rfl | found
    · cases member
    · exact gives items found item member
  · cases member

theorem sectionItems_perm {key : String} {document other : Document}
    (same : SameItems key document other) :
    (sectionItems document key).1.Perm (sectionItems other key).1 ∧
      (sectionItems document key).2 = (sectionItems other key).2 := by
  rcases same with equal | ⟨items, others, found, found', perm⟩
  · have same : sectionItems document key = sectionItems other key := by
      simp [sectionItems, Reading.list, equal]
    rw [same]
    exact ⟨.refl _, rfl⟩
  · simpa [sectionItems, Reading.list, found, found'] using perm

theorem anyPlace_fields (scope : DumpScope) {document : Document}
    (gives : GivesTokens "fields" document) :
    (fieldSection scope).AnyPlace (sectionItems document "fields").1 := by
  intro item member position
  exact toOption_eq_of_agree (readField_agrees (.refl scope) (.inr (gives.of_mem member)) trivial)

theorem anyPlace_methods (scope : DumpScope) {document : Document}
    (gives : GivesTokens "methods" document) :
    (methodSection scope).AnyPlace (sectionItems document "methods").1 := by
  intro item member position
  exact toOption_eq_of_agree (readMethod_agrees (.refl scope) (.inr (gives.of_mem member)) trivial)

/-- A body is found under its token if it is there, since tokens are distinct. -/
theorem find?_eq_some_iff_of_nodup {bodies : Bodies} (distinct : (bodies.map Prod.fst).Nodup)
    {token : Int} {body : Body} : bodies.find? token = some body ↔ (token, body) ∈ bodies := by
  constructor
  · exact mem_of_find?
  · intro member
    obtain ⟨other, found⟩ := Option.isSome_iff_exists.mp (isSome_find?_iff.mpr ⟨body, member⟩)
    have same := List.inj_on_of_nodup_map distinct (mem_of_find? found) member rfl
    rw [found, (Prod.mk.inj same).2]

section Rearranged

variable {document other : Document} (rearranged : Rearranged document other)
  {header : RecordHeader} (fine : (readSections header document).problems = [])

include rearranged fine

theorem fields_rearranged (gives : GivesTokens "fields" document) :
    (readSections header other).fields.problems = [] ∧
      (readSections header document).fields.values.Perm
        (readSections header other).fields.values :=
  Section.collect_perm (fun field : Field => field.name) (fun _ _ => rfl)
    (anyPlace_fields _ gives) (sectionItems_perm rearranged.fields).1
    ((problems_eq_nil_iff header document).mp fine).1.2

theorem methods_rearranged (gives : GivesTokens "methods" document) :
    (readSections header other).methods.problems = [] ∧
      (readSections header document).methods.values.Perm
        (readSections header other).methods.values :=
  Section.collect_perm (fun method : Method => method.token) (fun _ _ => rfl)
    (anyPlace_methods _ gives) (sectionItems_perm rearranged.methods).1
    ((problems_eq_nil_iff header document).mp fine).2.1.2

variable (fields : GivesTokens "fields" document) (methods : GivesTokens "methods" document)

include fields methods

theorem fullScope_rearranged : SameScope (fullScope header document) (fullScope header other) :=
  sameScope_of_perm rfl rfl (fields_rearranged rearranged fine fields).2
    (fields_scoped header document).1 (methods_rearranged rearranged fine methods).2

theorem properties_rearranged :
    (readSections header other).properties.problems = [] ∧
      (readSections header document).properties.values =
        (readSections header other).properties.values := by
  have items : sectionItems document "properties" = sectionItems other "properties" := by
    simp [sectionItems, Reading.list, rearranged.properties]
  have same := fullScope_rearranged rearranged fine fields methods
  -- the properties stay in place, only the scope that they are read in is another one
  obtain ⟨kept, problems⟩ := Section.collectFrom_congr (propertySection (fullScope header document))
    (propertySection (fullScope header other)) rfl (sectionItems document "properties").1
    (fun item position =>
      toOption_eq_of_agree (readProperty_agrees same (.inl rfl) trivial)) [] 0
  have fine' := ((problems_eq_nil_iff header document).mp fine).2.2.1.2
  rw [readSections_properties] at fine' ⊢
  rw [readSections_properties, ← items]
  exact ⟨problems.mp fine', congrArg (List.map Prod.snd) kept⟩

/-- The bodies of methods are read from the same entries, in scopes with the same meaning. -/
theorem bodies_rearranged :
    (collectBodies (fullScope header other) (sectionItems other "methods").1
        (readSections header other).methods.kept).2 = [] ∧
      ∀ token, (readSections header document).bodies.find? token =
        (readSections header other).bodies.find? token := by
  have same := fullScope_rearranged rearranged fine fields methods
  obtain ⟨_, ⟨_, methodsFine⟩, _, bodiesFine⟩ := (problems_eq_nil_iff header document).mp fine
  have methodsFine' := (methods_rearranged rearranged fine methods).1
  have perm := (sectionItems_perm rearranged.methods).1
  have anyPlace := anyPlace_methods (headerScope header) methods
  have anyPlace' := anyPlace_methods (headerScope header) (methods.of_sameItems rearranged.methods)
  constructor
  · apply (bodies_fine_iff anyPlace' methodsFine').mpr
    intro item member method read hasBody
    rw [← bodyOf_congr same]
    exact (bodies_fine_iff anyPlace methodsFine).mp bodiesFine item (perm.mem_iff.mpr member)
      method read hasBody
  · intro token
    -- tokens are distinct, so looking up a body is being among the pairs
    ext body
    rw [find?_eq_some_iff_of_nodup (bodyTokens_nodup header document),
      find?_eq_some_iff_of_nodup (bodyTokens_nodup header other)]
    rw [readSections_bodies, readSections_bodies, readSections_methods, readSections_methods,
      mem_bodies_iff_of_fine anyPlace methodsFine, mem_bodies_iff_of_fine anyPlace' methodsFine']
    simp only [perm.mem_iff, bodyOf_congr same]

end Rearranged

/-- A dump whose fields and methods give their tokens loads in every order of them, and what is loaded
differs in the order of fields and methods only. -/
theorem load_rearranged {fileName otherName : String} {document other : Document}
    (rearranged : Rearranged document other) (fields : GivesTokens "fields" document)
    (methods : GivesTokens "methods" document) {dump : RecordDump}
    (loaded : load fileName document = .ok dump) :
    ∃ otherDump, load otherName other = .ok otherDump ∧ dump.SameUpToOrder otherDump := by
  obtain ⟨isObject, header, read, fine, rfl⟩ := load_eq_ok_iff.mp loaded
  rw [rearranged.form] at isObject
  rw [rearranged.record] at read
  obtain ⟨⟨fieldList, _⟩, ⟨methodList, _⟩, ⟨propertyList, _⟩, _⟩ :=
    (problems_eq_nil_iff header document).mp fine
  obtain ⟨fieldsFine, fieldValues⟩ := fields_rearranged rearranged fine fields
  obtain ⟨methodsFine, methodValues⟩ := methods_rearranged rearranged fine methods
  obtain ⟨propertiesFine, properties⟩ := properties_rearranged rearranged fine fields methods
  obtain ⟨bodiesFine, bodies⟩ := bodies_rearranged rearranged fine fields methods
  rw [(sectionItems_perm rearranged.fields).2] at fieldList
  rw [(sectionItems_perm rearranged.methods).2] at methodList
  rw [(sectionItems_perm (.inl rearranged.properties)).2] at propertyList
  -- the other document has no problem in any section, so it loads too
  have fine' : (readSections header other).problems = [] :=
    (problems_eq_nil_iff header other).mpr ⟨⟨fieldList, fieldsFine⟩, ⟨methodList, methodsFine⟩,
      ⟨propertyList, propertiesFine⟩, bodiesFine⟩
  exact ⟨_, load_eq_ok_iff.mpr ⟨isObject, header, read, fine', rfl⟩,
    ⟨rfl, fieldValues, methodValues, properties, bodies⟩⟩

end Dump

end MemberOrigin
