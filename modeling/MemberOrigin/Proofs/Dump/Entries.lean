import MemberOrigin.Proofs.Dump.Agreement
import MemberOrigin.Proofs.Dump.WellScoped

/-!
# Entries of a section

## Main results

`Section.mem_problems_iff`, `Section.mem_kept_iff`: an entry of a section is a problem exactly if it
cannot be read, or repeats an entry in front of it that can be read. All others are kept.

`Section.inEntryOrder_problems`, `inEntryOrder_bodies`: problems are in the order of their entries, and
no entry has two.

## Proof strategy

Entries are only compared with those that were kept. As values clash when they share a key, a value
that clashes with an entry that was not kept clashes with a kept one as well.
-/
namespace MemberOrigin

/-- A problem of the entry at a position of a section, reported there or below. -/
def Problem.OfEntry (problem : Problem) (key : String) (position : Nat) : Prop :=
  [.key key, .index position] <+: problem.path.steps

theorem Problem.OfEntry.unique {problem : Problem} {key key' : String} {position position' : Nat}
    (ofEntry : problem.OfEntry key position) (ofOther : problem.OfEntry key' position') :
    key = key' ∧ position = position' := by
  have same := List.prefix_of_prefix_length_le ofEntry ofOther (Nat.le_refl 2)
  simpa using same.eq_of_length rfl

namespace Dump

open Reading Relocation

/-! ### The order of problems -/

/-- Problems of entries from one position up to another, in their order, and no two of one entry. -/
structure InEntryOrder (key : String) (start stop : Nat) (problems : List Problem) : Prop where
  ofEntry : ∀ problem ∈ problems, ∃ position, start ≤ position ∧ position < stop ∧
    problem.OfEntry key position
  increasing : problems.Pairwise fun problem later => ∀ position position',
    problem.OfEntry key position → later.OfEntry key position' → position < position'

namespace InEntryOrder

variable {key : String} {start stop position : Nat} {problem : Problem} {problems : List Problem}

theorem nil : InEntryOrder key start stop [] :=
  ⟨by simp, .nil⟩

theorem weaken (ordered : InEntryOrder key position stop problems) (behind : start ≤ position) :
    InEntryOrder key start stop problems where
  ofEntry other member := by
    obtain ⟨place, from', before, ofEntry⟩ := ordered.ofEntry other member
    exact ⟨place, Nat.le_trans behind from', before, ofEntry⟩
  increasing := ordered.increasing

theorem cons (ofEntry : problem.OfEntry key position) (behind : start ≤ position)
    (inside : position < stop) (ordered : InEntryOrder key (position + 1) stop problems) :
    InEntryOrder key start stop (problem :: problems) where
  ofEntry :=
    List.forall_mem_cons.mpr ⟨⟨position, behind, inside, ofEntry⟩,
      (ordered.weaken (Nat.le_succ_of_le behind)).ofEntry⟩
  increasing := by
    refine List.pairwise_cons.mpr ⟨fun later member place place' ofHere ofLater => ?_,
      ordered.increasing⟩
    obtain ⟨other, from', _, ofOther⟩ := ordered.ofEntry later member
    rw [(ofHere.unique ofEntry).2, (ofLater.unique ofOther).2]
    exact from'

end InEntryOrder

/-! ### Entries that are kept, and entries that are problems -/

namespace Section

variable {α : Type} (sec : Section α)

/-- The value of an entry clashes with that of an entry in front of it. -/
def Repeats (items : List Document) (position : Nat) (value : α) : Prop :=
  ∃ front item other, front < position ∧ items[front]? = some item ∧
    sec.read front item = .ok other ∧ sec.clashes value other = true

/-- What is wrong with the entry at a position. -/
inductive Fault (items : List Document) (position : Nat) : Problem → Prop
  | unreadable {item : Document} {problem : Problem} (found : items[position]? = some item)
      (refused : sec.read position item = .error problem) : Fault items position problem
  | repeated {item : Document} {value : α} (found : items[position]? = some item)
      (read : sec.read position item = .ok value) (again : sec.Repeats items position value) :
      Fault items position (sec.clash position value)

variable {sec} in
theorem Fault.exists_entry {items : List Document} {position : Nat} {problem : Problem}
    (fault : sec.Fault items position problem) : ∃ item, items[position]? = some item := by
  cases fault with
  | unreadable found => exact ⟨_, found⟩
  | repeated found => exact ⟨_, found⟩

/-- A value clashes with an earlier one, or with that of an entry in front of a position. -/
def ClashesBefore (earlier : List α) (entries : List (Document × Nat)) (position : Nat)
    (value : α) : Prop :=
  (∃ other ∈ earlier, sec.clashes value other = true) ∨
    ∃ entry ∈ entries, entry.2 < position ∧
      ∃ other, sec.read entry.2 entry.1 = .ok other ∧ sec.clashes value other = true

variable {sec}

theorem clashesBefore_nil {items : List Document} {position : Nat} {value : α} :
    sec.ClashesBefore [] items.zipIdx position value ↔ sec.Repeats items position value := by
  constructor
  · rintro (⟨_, none, _⟩ | ⟨⟨item, front⟩, member, before, other, read, clashes⟩)
    · cases none
    · exact ⟨front, item, other, before, List.mem_zipIdx_iff_getElem?.mp member, read, clashes⟩
  · rintro ⟨front, item, other, before, found, read, clashes⟩
    exact .inr ⟨(item, front), List.mem_zipIdx_iff_getElem?.mpr found, before, other, read, clashes⟩

/-- At the first position, only earlier values count. -/
theorem clashesBefore_start {earlier : List α} {items : List Document} {start : Nat} {value : α} :
    sec.ClashesBefore earlier (items.zipIdx start) start value ↔
      earlier.any (sec.clashes value) = true := by
  rw [List.any_eq_true]
  refine or_iff_left ?_
  rintro ⟨entry, member, before, _⟩
  exact Nat.not_le_of_lt before (List.le_snd_of_mem_zipIdx member)

section Step

variable {earlier : List α} {entries : List (Document × Nat)} {item : Document}
  {start position : Nat} {value : α}

/-- An entry that cannot be read clashes with nothing. -/
theorem clashesBefore_cons_of_error {problem : Problem}
    (refused : sec.read start item = .error problem) :
    sec.ClashesBefore earlier ((item, start) :: entries) position value ↔
      sec.ClashesBefore earlier entries position value := by
  simp [ClashesBefore, refused]

theorem clashesBefore_cons_of_ok {first : α} (read : sec.read start item = .ok first)
    (behind : start < position) :
    sec.ClashesBefore earlier ((item, start) :: entries) position value ↔
      sec.ClashesBefore (earlier ++ [first]) entries position value := by
  simp [ClashesBefore, read, behind, or_and_right, exists_or, or_assoc]

/-- A value that clashes with an earlier one adds nothing to clash with. -/
theorem clashesBefore_append {κ : Type} [BEq κ] [LawfulBEq κ] {key : α → κ}
    (byKey : ∀ value other, sec.clashes value other = (key value == key other)) {first : α}
    (clash : earlier.any (sec.clashes first) = true) :
    sec.ClashesBefore (earlier ++ [first]) entries position value ↔
      sec.ClashesBefore earlier entries position value := by
  obtain ⟨other, member, same⟩ := List.any_eq_true.mp clash
  refine or_congr_left ⟨?_, ?_⟩
  · rintro ⟨last, isMember, clashes⟩
    rcases List.mem_append.mp isMember with inEarlier | isFirst
    · exact ⟨last, inEarlier, clashes⟩
    · -- what clashes with the value clashes with the earlier one, as all three share a key
      rw [List.mem_singleton.mp isFirst] at clashes
      rw [byKey, beq_iff_eq] at same clashes
      exact ⟨other, member, by rw [byKey, clashes, same, beq_self_eq_true]⟩
  · rintro ⟨last, inEarlier, clashes⟩
    exact ⟨last, List.mem_append_left _ inEarlier, clashes⟩

end Step

/-- An entry behind the first one clashes as if the value of the first one had come earlier, if this is
kept, and as if there were no first one, if it is not. -/
theorem clashesBefore_cons {κ : Type} [BEq κ] [LawfulBEq κ] {key : α → κ}
    (byKey : ∀ value other, sec.clashes value other = (key value == key other))
    {earlier : List α} {item : Document} {rest : List Document} {start : Nat} {first : α}
    (read : sec.read start item = .ok first) {entry : Document × Nat}
    (behind : entry ∈ rest.zipIdx (start + 1)) (value : α) :
    sec.ClashesBefore earlier ((item, start) :: rest.zipIdx (start + 1)) entry.2 value ↔
      sec.ClashesBefore
        (if earlier.any (sec.clashes first) = true then earlier else earlier ++ [first])
        (rest.zipIdx (start + 1)) entry.2 value := by
  rw [clashesBefore_cons_of_ok read (List.le_snd_of_mem_zipIdx behind)]
  split
  next clash => exact clashesBefore_append byKey clash
  next => rfl

section Keyed

variable {κ : Type} [BEq κ] [LawfulBEq κ] (key : α → κ)
  (byKey : ∀ value other, sec.clashes value other = (key value == key other))

include byKey

theorem mem_problems_collectFrom_iff {earlier : List α} {items : List Document} {start : Nat}
    {problem : Problem} :
    problem ∈ (sec.collectFrom earlier start items).problems ↔
      ∃ entry ∈ items.zipIdx start, sec.read entry.2 entry.1 = .error problem ∨
        ∃ value, sec.read entry.2 entry.1 = .ok value ∧
          sec.ClashesBefore earlier (items.zipIdx start) entry.2 value ∧
          sec.clash entry.2 value = problem := by
  -- in the induction, the kept values of the entries in front take the place of these entries
  induction items generalizing earlier start with
  | nil => simp [collectFrom]
  | cons item rest ih =>
    rw [List.zipIdx_cons, collectFrom]
    simp only [List.exists_mem_cons_iff]
    cases read : sec.read start item with
    | error refused =>
      simp only [List.mem_cons, ih, clashesBefore_cons_of_error read, Except.error.injEq,
        reduceCtorEq, false_and, exists_false, or_false, eq_comm (a := problem)]
    | ok first =>
      -- behind the first entry, it only matters whether this was kept
      have rest' : (∃ entry ∈ rest.zipIdx (start + 1), sec.read entry.2 entry.1 = .error problem ∨
          ∃ value, sec.read entry.2 entry.1 = .ok value ∧
            sec.ClashesBefore earlier ((item, start) :: rest.zipIdx (start + 1)) entry.2 value ∧
            sec.clash entry.2 value = problem) ↔
          problem ∈ (sec.collectFrom
            (if earlier.any (sec.clashes first) = true then earlier else earlier ++ [first])
            (start + 1) rest).problems := by
        rw [ih]
        refine exists_congr fun entry => and_congr_right fun behind => ?_
        simp only [clashesBefore_cons byKey read behind]
      rw [rest', ← List.zipIdx_cons]
      simp only [clashesBefore_start, reduceCtorEq, false_or, Except.ok.injEq, exists_eq_left']
      split
      next clash => simp [clash, eq_comm]
      next new => simp [new]

theorem mem_kept_collectFrom_iff {earlier : List α} {items : List Document} {start position : Nat}
    {value : α} :
    (position, value) ∈ (sec.collectFrom earlier start items).kept ↔
      ∃ entry ∈ items.zipIdx start, entry.2 = position ∧ sec.read entry.2 entry.1 = .ok value ∧
        ¬ sec.ClashesBefore earlier (items.zipIdx start) entry.2 value := by
  induction items generalizing earlier start with
  | nil => simp [collectFrom]
  | cons item rest ih =>
    rw [List.zipIdx_cons, collectFrom]
    simp only [List.exists_mem_cons_iff]
    cases read : sec.read start item with
    | error refused =>
      simp only [ih, clashesBefore_cons_of_error read, reduceCtorEq, false_and, and_false, false_or]
    | ok first =>
      -- the rest is read with the first value among the earlier ones, unless it clashes itself
      have rest' : (∃ entry ∈ rest.zipIdx (start + 1), entry.2 = position ∧
          sec.read entry.2 entry.1 = .ok value ∧
            ¬ sec.ClashesBefore earlier ((item, start) :: rest.zipIdx (start + 1)) entry.2 value) ↔
          (position, value) ∈ (sec.collectFrom
            (if earlier.any (sec.clashes first) = true then earlier else earlier ++ [first])
            (start + 1) rest).kept := by
        rw [ih]
        refine exists_congr fun entry => and_congr_right fun behind => ?_
        simp only [clashesBefore_cons byKey read behind]
      rw [rest', ← List.zipIdx_cons]
      simp only [clashesBefore_start, Except.ok.injEq]
      split
      next clash =>
        refine (or_iff_right ?_).symm
        rintro ⟨_, rfl, new⟩
        exact new clash
      next new =>
        rw [List.mem_cons, Prod.mk.injEq]
        refine or_congr_left ⟨?_, ?_⟩
        · rintro ⟨rfl, rfl⟩
          exact ⟨rfl, rfl, new⟩
        · rintro ⟨rfl, rfl, _⟩
          exact ⟨rfl, rfl⟩

/-- Exactly the faults of entries are problems of a section. -/
theorem mem_problems_iff {items : List Document} {problem : Problem} :
    problem ∈ (sec.collect items).problems ↔ ∃ position, sec.Fault items position problem := by
  rw [collect, mem_problems_collectFrom_iff key byKey]
  simp only [clashesBefore_nil]
  constructor
  · rintro ⟨⟨item, position⟩, member, refused | ⟨value, read, again, rfl⟩⟩
    · exact ⟨position, .unreadable (List.mem_zipIdx_iff_getElem?.mp member) refused⟩
    · exact ⟨position, .repeated (List.mem_zipIdx_iff_getElem?.mp member) read again⟩
  · rintro ⟨position, ⟨found, refused⟩ | ⟨found, read, again⟩⟩
    · exact ⟨(_, position), List.mem_zipIdx_iff_getElem?.mpr found, .inl refused⟩
    · exact ⟨(_, position), List.mem_zipIdx_iff_getElem?.mpr found, .inr ⟨_, read, again, rfl⟩⟩

/-- All other entries are kept. -/
theorem mem_kept_iff {items : List Document} {position : Nat} {value : α} :
    (position, value) ∈ (sec.collect items).kept ↔
      ∃ item, items[position]? = some item ∧ sec.read position item = .ok value ∧
        ¬ sec.Repeats items position value := by
  rw [collect, mem_kept_collectFrom_iff key byKey]
  simp only [clashesBefore_nil]
  constructor
  · rintro ⟨⟨item, _⟩, member, rfl, read, new⟩
    exact ⟨item, List.mem_zipIdx_iff_getElem?.mp member, read, new⟩
  · rintro ⟨item, found, read, new⟩
    exact ⟨(item, position), List.mem_zipIdx_iff_getElem?.mpr found, rfl, read, new⟩

end Keyed

/-! ### Positions -/

/-- The problems of entries are reported at the entries or below. -/
structure ReportsAt (sec : Section α) (key : String) : Prop where
  refused : ∀ position item problem, sec.read position item = .error problem →
    problem.OfEntry key position
  clash : ∀ position value, (sec.clash position value).OfEntry key position

theorem Fault.ofEntry {key : String} (reports : sec.ReportsAt key) {items : List Document}
    {position : Nat} {problem : Problem} (fault : sec.Fault items position problem) :
    problem.OfEntry key position := by
  cases fault with
  | unreadable _ refused => exact reports.refused _ _ _ refused
  | repeated => exact reports.clash _ _

theorem inEntryOrder_collectFrom {key : String} (reports : sec.ReportsAt key) (earlier : List α)
    (start : Nat) (items : List Document) :
    InEntryOrder key start (start + items.length) (sec.collectFrom earlier start items).problems := by
  induction items generalizing earlier start with
  | nil => exact .nil
  | cons item rest ih =>
    have stop : start + (item :: rest).length = start + 1 + rest.length := by
      rw [List.length_cons, Nat.add_comm rest.length, Nat.add_assoc]
    have inside : start < start + 1 + rest.length := by omega
    rw [collectFrom, stop]
    -- the problems of the rest belong to later entries
    split
    next problem refused =>
      exact .cons (reports.refused _ _ _ refused) (Nat.le_refl _) inside (ih _ _)
    next value read =>
      split
      · exact .cons (reports.clash start value) (Nat.le_refl _) inside (ih _ _)
      · exact (ih _ _).weaken (Nat.le_succ start)

theorem inEntryOrder_problems {key : String} (reports : sec.ReportsAt key) (items : List Document) :
    InEntryOrder key 0 items.length (sec.collect items).problems := by
  have ordered := inEntryOrder_collectFrom reports [] 0 items
  rwa [Nat.zero_add] at ordered

theorem positions_kept_sublist (earlier : List α) (start : Nat) (items : List Document) :
    ((sec.collectFrom earlier start items).kept.map Prod.fst).Sublist
      (List.range' start items.length) := by
  induction items generalizing earlier start with
  | nil => exact List.Sublist.refl _
  | cons item rest ih =>
    rw [collectFrom, List.length_cons, List.range'_succ]
    split
    · exact (ih _ _).cons _
    · split
      · exact (ih _ _).cons _
      · exact (ih _ _).cons_cons _

/-- Kept entries are in their order. -/
theorem positions_kept_increasing (items : List Document) :
    ((sec.collect items).kept.map Prod.fst).Pairwise (· < ·) :=
  List.Pairwise.sublist (positions_kept_sublist [] 0 items) List.pairwise_lt_range'

end Section

/-! ### Places of problems -/

/-- All places at a place or below. -/
def inside (place : List Step) : Relocation where
  At path _ _ := place <+: path.steps
  Pairs problem _ := place <+: problem.path.steps
  here placed _ _ := placed
  below placed _ _ _ _ := placed.trans (List.prefix_append _ _)
  key placed _ _ _ := placed.trans (List.prefix_append _ _)
  item placed _ _ _ := placed.trans (List.prefix_append _ _)

theorem inside_of_refused {α : Type} {place : List Step} {reading : Reading α}
    (agree : (inside place).Agree reading reading) {problem : Problem}
    (refused : reading = .error problem) : place <+: problem.path.steps := by
  subst refused
  cases agree with
  | error pairs => exact pairs

theorem reportsAt_fields (scope : DumpScope) : (fieldSection scope).ReportsAt "fields" where
  refused _ _ _ refused := inside_of_refused
    (readField_agrees (.refl scope) (.inl rfl) (List.prefix_refl _)) refused
  clash _ _ := List.prefix_refl _

theorem reportsAt_methods (scope : DumpScope) : (methodSection scope).ReportsAt "methods" where
  refused _ _ _ refused := inside_of_refused
    (readMethod_agrees (.refl scope) (.inl rfl) (List.prefix_refl _)) refused
  clash _ _ := List.prefix_append _ _

theorem reportsAt_properties (scope : DumpScope) :
    (propertySection scope).ReportsAt "properties" where
  refused _ _ _ refused := inside_of_refused
    (readProperty_agrees (.refl scope) (.inl rfl) (List.prefix_refl _)) refused
  clash _ _ := List.prefix_refl _

/-- A body is a problem below its own place. -/
theorem inside_of_readBody {scope : DumpScope} {method : Method} {node : Document} {path : DocPath}
    {problem : Problem} (refused : readBody scope method node path = .error problem) :
    path.steps <+: problem.path.steps := by
  refine inside_of_refused (readBody_agrees (.refl scope) (List.prefix_refl _) ?_) refused
  intro index parameter _
  exact (List.prefix_append _ _).trans (List.prefix_append _ _)

/-! ### Bodies -/

/-- The place of the body of the method at a position. -/
def bodyPath (position : Nat) : DocPath :=
  ((DocPath.root.key "methods").index position).key "body"

/-- A body that cannot be read is a problem of the entry of its method. -/
theorem ofEntry_of_bodyAt {scope : DumpScope} {items : List Document} {position : Nat}
    {method : Method} {problem : Problem}
    (refused : bodyAt scope items position method = some (.error problem)) :
    problem.OfEntry "methods" position := by
  unfold bodyAt at refused
  split at refused
  · split at refused
    · exact (List.prefix_append _ _).trans (inside_of_readBody (Option.some.inj refused))
    · cases refused
  · cases refused

/-- The body of a method that is kept is a problem exactly if it cannot be read. -/
theorem bodyAt_eq_error {scope other : DumpScope} {items : List Document} {position : Nat}
    {item : Document} {method : Method} {problem : Problem}
    (found : items[position]? = some item) (read : readMethod other position item = .ok method) :
    bodyAt scope items position method = some (.error problem) ↔
      method.hasBody = true ∧
        readBody scope method ((item.get? "body").getD .null) (bodyPath position) =
          .error problem := by
  have isObject := (readMethod_declaringType read).1
  rw [bodyAt, found]
  simp [isObject, bodyPath]

theorem inEntryOrder_bodies {scope : DumpScope} {items : List Document} {start stop : Nat}
    {kept : List (Nat × Method)} (increasing : (kept.map Prod.fst).Pairwise (· < ·))
    (inside : ∀ entry ∈ kept, start ≤ entry.1 ∧ entry.1 < stop) :
    InEntryOrder "methods" start stop (collectBodies scope items kept).2 := by
  induction kept generalizing start with
  | nil => exact .nil
  | cons entry rest ih =>
    obtain ⟨position, method⟩ := entry
    obtain ⟨behind, increasing⟩ := List.pairwise_cons.mp increasing
    obtain ⟨⟨from', before⟩, insideRest⟩ := List.forall_mem_cons.mp inside
    have rest' : InEntryOrder "methods" (position + 1) stop (collectBodies scope items rest).2 :=
      ih increasing fun entry member =>
        ⟨behind entry.1 (List.mem_map_of_mem member), (insideRest entry member).2⟩
    -- problems behind this entry are behind the start as well
    have fromStart := rest'.weaken (Nat.le_succ_of_le from')
    simp only [collectBodies]
    split
    · exact fromStart
    · exact fromStart
    next problem refused => exact .cons (ofEntry_of_bodyAt refused) from' before rest'

end Dump

end MemberOrigin
