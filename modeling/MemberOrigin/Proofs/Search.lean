import Mathlib.Data.List.Nodup

/-!
# Searching by a key

Where all elements that pass a test share their key, and no two elements of a list have the same key,
at most one element of the list passes. So a search finds it wherever it stands.
-/
namespace MemberOrigin

variable {α κ : Type} {p : α → Bool} {key : α → κ} {items others : List α}

theorem find?_eq_some_iff_of_key (distinct : (items.map key).Nodup)
    (byKey : ∀ x y, p x = true → p y = true → key x = key y) {x : α} :
    items.find? p = some x ↔ x ∈ items ∧ p x = true := by
  constructor
  · intro found
    exact ⟨List.mem_of_find?_eq_some found, List.find?_some found⟩
  · rintro ⟨member, passes⟩
    have some : (items.find? p).isSome = true := List.find?_isSome.mpr ⟨x, member, passes⟩
    obtain ⟨y, found⟩ := Option.isSome_iff_exists.mp some
    have sameKey : key y = key x := byKey y x (List.find?_some found) passes
    rw [found, List.inj_on_of_nodup_map distinct (List.mem_of_find?_eq_some found) member sameKey]

theorem find?_eq_of_perm (perm : items.Perm others) (distinct : (items.map key).Nodup)
    (byKey : ∀ x y, p x = true → p y = true → key x = key y) :
    items.find? p = others.find? p := by
  have distinct' : (others.map key).Nodup := (perm.map key).nodup_iff.mp distinct
  ext x
  rw [find?_eq_some_iff_of_key distinct byKey, find?_eq_some_iff_of_key distinct' byKey,
    perm.mem_iff]

end MemberOrigin
