import Mathlib.Data.List.Basic
import Mathlib.Data.List.Nodup
import MemberOrigin.Record.BackingFields

/-!
# The table of backing fields

A key tells members apart by what they are, their tokens and their names, whatever characters are
in a name. The table of pairs of which no two share a member therefore holds exactly these pairs,
each under the keys of its two members.
-/
namespace MemberOrigin

/-! ### Keys -/

/-- A mark that is no digit is not in the digits of a number. -/
theorem notMem_digits (mark : Char) (noDigit : mark.isDigit = false) (n : Nat) :
    mark ∉ Nat.toDigits 10 n := by
  intro member
  rw [Nat.isDigit_of_mem_toDigits (by decide) (by decide) member] at noDigit
  cases noDigit

/-- A token is written as its digits, behind a sign if it is negative. -/
theorem toList_token (token : Int) :
    (toString token).toList =
      if 0 ≤ token then Nat.toDigits 10 token.toNat else '-' :: Nat.toDigits 10 (-token).toNat := by
  rw [Int.toString_eq_repr, Int.repr_eq_if]
  split <;> simp [Nat.toList_repr]

theorem colon_notMem_token (token : Int) : ':' ∉ (toString token).toList := by
  rw [toList_token]
  split
  · exact notMem_digits _ rfl _
  · simpa using notMem_digits _ rfl _

theorem toString_token_inj {token other : Int}
    (same : (toString token).toList = (toString other).toList) : token = other := by
  have value {n m : Nat} (digits : Nat.toDigits 10 n = Nat.toDigits 10 m) : n = m := by
    simpa using congrArg (Nat.ofDigitChars 10 · 0) digits
  have unsigned (n m : Nat) : Nat.toDigits 10 n ≠ '-' :: Nat.toDigits 10 m :=
    fun digits => notMem_digits '-' rfl n (by simp [digits])
  rw [toList_token, toList_token] at same
  split at same <;> split at same
  · have := value same
    omega
  · exact absurd same (unsigned _ _)
  · exact absurd same.symm (unsigned _ _)
  · have := value (List.cons.inj same).2
    omega

/-- Texts are cut at the first of a mark in only one way. -/
theorem append_mark_inj {mark : Char} {front front' back back' : List Char}
    (free : mark ∉ front) (free' : mark ∉ front')
    (same : front ++ mark :: back = front' ++ mark :: back') : front = front' ∧ back = back' := by
  rcases List.append_eq_append_iff.mp same with ⟨more, rfl, rest⟩ | ⟨more, rfl, rest⟩
  · cases more with
    | nil => exact ⟨by simp, (List.cons.inj rest).2⟩
    | cons c more =>
      obtain rfl : mark = c := (List.cons.inj rest).1
      exact absurd free' (by simp)
  · cases more with
    | nil => exact ⟨by simp, (List.cons.inj rest).2.symm⟩
    | cons c more =>
      obtain rfl : mark = c := (List.cons.inj rest).1
      exact absurd free (by simp)

/-- The first colon behind the kind of a member ends the token. -/
theorem tokenAndName_inj {start : String} {token other : Int} {name name' : String} :
    start ++ toString token ++ ":" ++ name = start ++ toString other ++ ":" ++ name' ↔
      token = other ∧ name = name' := by
  constructor
  · intro same
    have chars := congrArg String.toList same
    have colon : ":".toList = [':'] := rfl
    simp only [String.toList_append, List.append_assoc, List.append_cancel_left_eq, colon,
      List.singleton_append] at chars
    obtain ⟨tokens, names⟩ :=
      append_mark_inj (colon_notMem_token token) (colon_notMem_token other) chars
    exact ⟨toString_token_inj tokens, String.toList_inj.mp names⟩
  · rintro ⟨rfl, rfl⟩
    rfl

theorem Property.key_eq_iff {property other : Property} :
    property.key = other.key ↔ property.token = other.token ∧ property.name = other.name :=
  tokenAndName_inj

theorem Field.key_eq_iff {field other : Field} :
    field.key = other.key ↔ field.token = other.token ∧ field.name = other.name :=
  tokenAndName_inj

/-- A property and a field never have the same key. -/
theorem Property.key_ne_field_key (property : Property) (field : Field) :
    property.key ≠ field.key := by
  intro same
  have chars := congrArg String.toList same
  simp [Property.key, Field.key] at chars

/-! ### The table -/

namespace BackingFields

/-- The member of a key is in a pair. -/
def OfPair (key : String) (pair : Property × Field) : Prop :=
  pair.1.key = key ∨ pair.2.key = key

instance (key : String) (pair : Property × Field) : Decidable (OfPair key pair) :=
  inferInstanceAs (Decidable (_ ∨ _))

/-- Two pairs without a common member. -/
def Apart (pair other : Property × Field) : Prop :=
  pair.1.key ≠ other.1.key ∧ pair.2.key ≠ other.2.key

/-- The table finds exactly these pairs, each by its two members. -/
structure Holds (backing : BackingFields) (pairs : List (Property × Field)) : Prop where
  listed : backing.pairs = pairs
  found : ∀ key pair, backing.pairOf? key = some pair ↔ pair ∈ pairs ∧ OfPair key pair

variable {backing : BackingFields} {pairs : List (Property × Field)} {pair : Property × Field}

theorem Holds.empty : Holds {} [] :=
  ⟨rfl, by simp [pairOf?]⟩

theorem pairOf?_add (key : String) :
    (backing.add pair).pairOf? key =
      if OfPair key pair then some pair else backing.pairOf? key := by
  simp only [pairOf?, add, List.lookup_cons, OfPair]
  by_cases ofProperty : pair.1.key = key
  · simp [ofProperty]
  · have noProperty : (key == pair.1.key) = false := by simpa using Ne.symm ofProperty
    by_cases ofField : pair.2.key = key
    · simp [noProperty, ofField]
    · have noField : (key == pair.2.key) = false := by simpa using Ne.symm ofField
      simp [noProperty, noField, ofProperty, ofField]

/-- A pair repeats a member exactly if it is not apart from all pairs that are held. -/
theorem Holds.repeats_eq_false_iff (holds : Holds backing pairs) :
    backing.repeats pair = false ↔ ∀ held ∈ pairs, Apart held pair := by
  have absent (key : String) :
      backing.pairOf? key = none ↔ ∀ held ∈ pairs, ¬OfPair key held := by
    rw [Option.eq_none_iff_forall_ne_some]
    constructor
    · intro none held member ofHeld
      exact none held ((holds.found key held).mpr ⟨member, ofHeld⟩)
    · intro none held found
      obtain ⟨member, ofHeld⟩ := (holds.found key held).mp found
      exact none held member ofHeld
  -- a property is only ever found by the key of a property, and a field by that of a field
  have kinds (held : Property × Field) :
      ¬OfPair pair.1.key held ∧ ¬OfPair pair.2.key held ↔ Apart held pair := by
    simp only [OfPair, Apart, not_or]
    constructor
    · rintro ⟨⟨properties, _⟩, _, fields⟩
      exact ⟨properties, fields⟩
    · rintro ⟨properties, fields⟩
      exact ⟨⟨properties, (pair.1.key_ne_field_key held.2).symm⟩,
        held.1.key_ne_field_key pair.2, fields⟩
  simp only [repeats, Bool.or_eq_false_iff, Option.isSome_eq_false_iff, Option.isNone_iff_eq_none,
    absent, ← kinds]
  exact ⟨fun none held member => ⟨none.1 held member, none.2 held member⟩,
    fun none => ⟨fun held member => (none held member).1, fun held member => (none held member).2⟩⟩

/-- A pair that is apart from those that are held can be added to them. -/
theorem Holds.add (holds : Holds backing pairs) (apart : ∀ held ∈ pairs, Apart held pair) :
    Holds (backing.add pair) (pairs ++ [pair]) := by
  refine ⟨by simp [BackingFields.add, holds.listed], fun key other => ?_⟩
  rw [pairOf?_add]
  split
  next ofNew =>
    constructor
    · rintro ⟨⟩
      exact ⟨by simp, ofNew⟩
    · rintro ⟨member, ofOther⟩
      rcases List.mem_append.mp member with held | new
      · -- the key would belong to a held pair as well, which is apart
        obtain ⟨properties, fields⟩ := apart other held
        rcases ofNew with rfl | rfl
        · rcases ofOther with same | same
          · exact absurd same properties
          · exact absurd same.symm (pair.1.key_ne_field_key other.2)
        · rcases ofOther with same | same
          · exact absurd same (other.1.key_ne_field_key pair.2)
          · exact absurd same fields
      · rw [List.mem_singleton.mp new]
  next notNew =>
    rw [holds.found]
    constructor
    · rintro ⟨held, ofOther⟩
      exact ⟨List.mem_append_left _ held, ofOther⟩
    · rintro ⟨member, ofOther⟩
      refine ⟨?_, ofOther⟩
      rcases List.mem_append.mp member with held | new
      · exact held
      · rw [List.mem_singleton.mp new] at ofOther
        exact absurd ofOther notNew

/-- Pairs of which no two share a member are all added. -/
theorem Holds.addAll (holds : Holds backing pairs) {rest : List (Property × Field)}
    (apart : (pairs ++ rest).Pairwise Apart) :
    ∃ result, backing.addAll rest = .ok result ∧ Holds result (pairs ++ rest) := by
  induction rest generalizing backing pairs with
  | nil => exact ⟨backing, rfl, by simpa using holds⟩
  | cons pair rest ih =>
    have new : ∀ held ∈ pairs, Apart held pair := fun held member =>
      (List.pairwise_append.mp apart).2.2 held member pair List.mem_cons_self
    rw [List.append_cons] at apart
    obtain ⟨result, added, holdsAll⟩ := ih (holds.add new) apart
    refine ⟨result, ?_, by simpa using holdsAll⟩
    simp [BackingFields.addAll, holds.repeats_eq_false_iff.mpr new, added]

theorem exists_ofPairs (apart : pairs.Pairwise Apart) :
    ∃ backing, ofPairs pairs = .ok backing ∧ Holds backing pairs := by
  rw [← List.nil_append pairs] at apart
  exact Holds.empty.addAll apart

/-! ### Both directions -/

/-- The field behind a property is that of the pair with this property. -/
theorem Holds.fieldOf?_eq_some_iff (holds : Holds backing pairs) {property : Property}
    {field : Field} :
    backing.fieldOf? property = some field ↔
      ∃ other, (other, field) ∈ pairs ∧ other.key = property.key := by
  simp only [fieldOf?, Option.map_eq_some_iff, holds.found, OfPair]
  constructor
  · rintro ⟨pair, ⟨member, same | same⟩, rfl⟩
    · exact ⟨pair.1, member, same⟩
    · exact absurd same.symm (property.key_ne_field_key pair.2)
  · rintro ⟨other, member, same⟩
    exact ⟨(other, field), ⟨member, .inl same⟩, rfl⟩

/-- The property in front of a field is that of the pair with this field. -/
theorem Holds.propertyOf?_eq_some_iff (holds : Holds backing pairs) {field : Field}
    {property : Property} :
    backing.propertyOf? field = some property ↔
      ∃ other, (property, other) ∈ pairs ∧ other.key = field.key := by
  simp only [propertyOf?, Option.map_eq_some_iff, holds.found, OfPair]
  constructor
  · rintro ⟨pair, ⟨member, same | same⟩, rfl⟩
    · exact absurd same (pair.1.key_ne_field_key field)
    · exact ⟨pair.2, member, same⟩
  · rintro ⟨other, member, same⟩
    exact ⟨(property, other), ⟨member, .inr same⟩, rfl⟩

theorem hasField_eq_true_iff {field : Field} :
    backing.hasField field = true ↔ ∃ property, backing.propertyOf? field = some property := by
  simp [hasField, propertyOf?, Option.isSome_iff_exists]

end BackingFields

end MemberOrigin
