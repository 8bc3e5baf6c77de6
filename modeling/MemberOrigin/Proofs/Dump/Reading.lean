import MemberOrigin.Dump.Section

/-!
# Successful readings

What a reading that gives a result says of its steps: sequences, lists of items, and sections with
entries that must not clash.
-/
namespace MemberOrigin

namespace Reading

variable {α β : Type}

/-- A sequence of readings gives a result exactly if both of its steps do. -/
@[simp] theorem bind_eq_ok_iff {reading : Reading α} {next : α → Reading β} {result : β} :
    (reading >>= next) = .ok result ↔ ∃ value, reading = .ok value ∧ next value = .ok result := by
  cases reading <;> simp [bind, Except.bind]

@[simp] theorem ok_bind (value : α) (next : α → Reading β) :
    ((.ok value : Reading α) >>= next) = next value := rfl

@[simp] theorem pure_eq_ok_iff {value result : α} :
    (pure value : Reading α) = .ok result ↔ value = result := by
  simp [pure, Except.pure]

@[simp] theorem map_eq_ok_iff {reading : Reading α} {f : α → β} {result : β} :
    reading.map f = .ok result ↔ ∃ value, reading = .ok value ∧ f value = result := by
  cases reading <;> simp [Except.map]

@[simp] theorem refuse_ne_ok {code : DiagnosticCode} {path : DocPath} {cause : Cause}
    {result : α} : (refuse code path cause : Reading α) ≠ .ok result := by
  simp [refuse]

/-- Whether something is refused can be decided, whatever it would have given. -/
instance {ε : Type} [DecidableEq ε] (outcome : Except ε α) (refused : ε) :
    Decidable (outcome = .error refused) :=
  match outcome with
  | .ok _ => isFalse (by simp)
  | .error other => decidable_of_iff (other = refused) (by simp)

theorem toOption_eq_some_iff {ε : Type} {outcome : Except ε α} {value : α} :
    outcome.toOption = some value ↔ outcome = .ok value := by
  cases outcome <;> simp [Except.toOption]

theorem object_eq_ok_iff {value node : Document} {path : DocPath} {code : DiagnosticCode}
    {what : String} :
    object value path code what = .ok node ↔ value.isObject = true ∧ value = node := by
  unfold object
  split <;> simp_all

/-- A string that is read is the one at the key. -/
theorem get?_of_string {node : Document} {key : String} {path : DocPath} {code : DiagnosticCode}
    {text : String} (read : string node key path code = .ok text) :
    node.get? key = some (.string text) := by
  unfold string at read
  split at read
  next found =>
    split at read
    · simp at read
    · cases read
      exact found
  · simp at read

/-- Items that are read are those of the list at the key. -/
theorem get?_of_list {node : Document} {key : String} {path : DocPath} {code : DiagnosticCode}
    {items : List Document} (read : list node key path code = .ok items) :
    items = [] ∨ node.get? key = some (.list items) := by
  unfold list at read
  split at read
  · cases read
    exact .inl rfl
  · cases read
    exact .inl rfl
  next found =>
    cases read
    exact .inr found
  · simp at read

/-- Every value was read from the item at its position. -/
theorem getElem?_of_each {read : Nat → α → Reading β} {start : Nat} {items : List α}
    {values : List β} (found : each read start items = .ok values) {position : Nat} {value : β}
    (here : values[position]? = some value) :
    ∃ item, items[position]? = some item ∧ read (start + position) item = .ok value := by
  induction items generalizing start values position with
  | nil =>
    cases found
    cases here
  | cons item rest ih =>
    simp only [each, bind_eq_ok_iff, pure_eq_ok_iff] at found
    obtain ⟨first, read, others, more, rfl⟩ := found
    cases position with
    | zero =>
      obtain rfl : first = value := by simpa using here
      exact ⟨item, rfl, read⟩
    | succ position =>
      obtain ⟨item', found, read⟩ := ih more (by simpa using here)
      refine ⟨item', by simpa using found, ?_⟩
      rwa [← Nat.add_assoc, Nat.add_right_comm]

theorem exists_of_mem_each {read : Nat → α → Reading β} {start : Nat} {items : List α}
    {values : List β} (found : each read start items = .ok values) {value : β}
    (member : value ∈ values) : ∃ item ∈ items, ∃ position, read position item = .ok value := by
  obtain ⟨position, here⟩ := List.mem_iff_getElem?.mp member
  obtain ⟨item, inItems, read⟩ := getElem?_of_each found here
  exact ⟨item, List.mem_of_getElem? inItems, _, read⟩

end Reading

/-! ### Nodes -/

namespace Document

theorem node?_append (document : Document) (steps others : List Step) :
    document.node? (steps ++ others) =
      (document.node? steps).bind fun node => node.node? others := by
  induction steps generalizing document with
  | nil => rfl
  | cons step rest ih =>
    rw [List.cons_append, node?, node?]
    cases document.child? step with
    | none => rfl
    | some child => exact ih child

theorem child?_key (node : Document) (key : String) : node.child? (.key key) = node.get? key := by
  cases node <;> rfl

theorem node?_key {document node child : Document} {steps : List Step} {key : String}
    (stands : document.node? steps = some node) (found : node.get? key = some child) :
    document.node? (steps ++ [.key key]) = some child := by
  rw [node?_append, stands]
  simp [node?, child?_key, found]

theorem node?_item {document item : Document} {steps : List Step} {items : List Document}
    {position : Nat} (stands : document.node? steps = some (.list items))
    (found : items[position]? = some item) :
    document.node? (steps ++ [.index position]) = some item := by
  rw [node?_append, stands]
  simp [node?, child?, found]

end Document

namespace Dump.Section

variable {α : Type} (sec : Section α)

/-- What is kept was read from the entry at its position. -/
theorem exists_of_mem_kept {earlier : List α} {items : List Document} {start position : Nat}
    {value : α} (member : (position, value) ∈ (sec.collectFrom earlier start items).kept) :
    ∃ item, (item, position) ∈ items.zipIdx start ∧ sec.read position item = .ok value := by
  induction items generalizing earlier start with
  | nil => simp [collectFrom] at member
  | cons item rest ih =>
    rw [collectFrom] at member
    -- what is kept from the rest stands one position further
    have behind {earlier : List α}
        (member : (position, value) ∈ (sec.collectFrom earlier (start + 1) rest).kept) :
        ∃ item', (item', position) ∈ (item :: rest).zipIdx start ∧
          sec.read position item' = .ok value := by
      obtain ⟨item', found, read⟩ := ih member
      exact ⟨item', by simp [found], read⟩
    split at member
    · exact behind member
    next read =>
      split at member
      · exact behind member
      · rcases List.mem_cons.mp member with same | member
        · cases same
          exact ⟨item, by simp, read⟩
        · exact behind member

/-- A problem comes from an entry that cannot be read, or that clashes with an earlier one. -/
theorem exists_of_mem_problems {earlier : List α} {items : List Document} {start : Nat}
    {problem : Problem} (member : problem ∈ (sec.collectFrom earlier start items).problems) :
    ∃ item position, (item, position) ∈ items.zipIdx start ∧
      (sec.read position item = .error problem ∨
        ∃ value, sec.read position item = .ok value ∧ problem = sec.clash position value) := by
  induction items generalizing earlier start with
  | nil => simp [collectFrom] at member
  | cons item rest ih =>
    rw [collectFrom] at member
    have behind {earlier : List α}
        (member : problem ∈ (sec.collectFrom earlier (start + 1) rest).problems) :
        ∃ item' position, (item', position) ∈ (item :: rest).zipIdx start ∧
          (sec.read position item' = .error problem ∨
            ∃ value, sec.read position item' = .ok value ∧ problem = sec.clash position value) := by
      obtain ⟨item', position, found, cause⟩ := ih member
      exact ⟨item', position, by simp [found], cause⟩
    -- the first entry gives a problem if it is refused, or if its value clashes
    split at member
    next refused =>
      rcases List.mem_cons.mp member with rfl | member
      · exact ⟨item, start, by simp, .inl refused⟩
      · exact behind member
    next value read =>
      split at member
      · rcases List.mem_cons.mp member with rfl | member
        · exact ⟨item, start, by simp, .inr ⟨value, read, rfl⟩⟩
        · exact behind member
      · exact behind member

/-- No kept value clashes with an earlier one. -/
theorem kept_apart (earlier : List α) (start : Nat) (items : List Document) :
    (∀ value ∈ (sec.collectFrom earlier start items).values, ∀ other ∈ earlier,
        sec.clashes value other = false) ∧
      (sec.collectFrom earlier start items).values.Pairwise fun other value =>
        sec.clashes value other = false := by
  induction items generalizing earlier start with
  | nil => simp [collectFrom, Collected.values]
  | cons item rest ih =>
    rw [collectFrom]
    split
    · exact ih earlier (start + 1)
    next value read =>
      split
      · exact ih earlier (start + 1)
      next new =>
        obtain ⟨apart, pairwise⟩ := ih (earlier ++ [value]) (start + 1)
        simp only [Collected.values, List.map_cons, List.forall_mem_cons, List.pairwise_cons]
          at apart pairwise ⊢
        -- the value is new against the earlier ones, and the others are apart from both
        refine ⟨⟨?_, ?_⟩, ?_, pairwise⟩
        · simpa using new
        · intro other member earlier inEarlier
          exact apart other member earlier (List.mem_append_left _ inEarlier)
        · intro other member
          exact apart other member value (by simp)

theorem exists_of_mem_values {items : List Document} {value : α}
    (member : value ∈ (sec.collect items).values) :
    ∃ position item, sec.read position item = .ok value := by
  obtain ⟨⟨position, _⟩, kept, rfl⟩ := List.mem_map.mp member
  obtain ⟨item, _, read⟩ := sec.exists_of_mem_kept kept
  exact ⟨position, item, read⟩

/-- If values clash exactly when they share a key, the kept values have distinct keys. -/
theorem nodup_keys {κ : Type} [BEq κ] [LawfulBEq κ] (key : α → κ)
    (byKey : ∀ value other, sec.clashes value other = (key value == key other))
    (items : List Document) : ((sec.collect items).values.map key).Nodup := by
  rw [List.Nodup, List.pairwise_map]
  refine (sec.kept_apart [] 0 items).2.imp fun {other value} apart => ?_
  rw [byKey, beq_eq_false_iff_ne] at apart
  exact apart.symm

end Dump.Section

end MemberOrigin
