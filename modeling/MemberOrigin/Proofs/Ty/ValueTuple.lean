import Mathlib.Data.List.Forall2
import MemberOrigin.Proofs.Ty.Identity
import MemberOrigin.Ty.Erasure

/-!
# Value tuples hold their elements

## Main result

`tuple_keepsElements`: two tuples are the same at run time exactly if their elements are, one by
one. Each node on the nesting spine of a value tuple has eight arguments exactly if more than seven
elements remain there, and the elements are read off along the spine.

## Proof strategy

What is at the eighth place of a value tuple is always a value tuple of the remaining elements and
never an element, even if the elements are value tuples themselves. So the elements are a function
of the value tuple, and the comparison of value tuples is the comparison of their elements.
-/
namespace MemberOrigin.Ty

/-! ### The nesting spine -/

/-- The elements that are held along the spine of a type, from its first argument on. -/
def heldElements : Ty → List Ty
  | .named _ _ args _ =>
    if nested : 7 < args.length then args.take 7 ++ heldElements args[7] else args
  | _ => []
termination_by type => sizeOf type
decreasing_by
  have smaller := List.sizeOf_lt_of_mem (List.getElem_mem nested)
  simp only [Ty.named.sizeOf_spec]
  omega

/-- The nodes on the spine of a type over some elements, each with the elements that remain there.
Every step leads to an eighth argument and leaves seven elements behind. -/
inductive OnSpine (elements : List Ty) (whole : Ty) : List Ty → Ty → Prop
  | whole : OnSpine elements whole elements whole
  | eighth {remaining args : List Ty} {ns name : String} {nullable : Bool} {rest : Ty}
      (above : OnSpine elements whole remaining (.named ns name args nullable))
      (last : args[7]? = some rest) : OnSpine elements whole (remaining.drop 7) rest

/-- A value tuple that holds the remaining elements: seven of them at most itself, and the others in
the value tuple that is its eighth argument. -/
def HoldsRemaining (remaining : List Ty) (node : Ty) : Prop :=
  ∃ args, node = .named "System" "ValueTuple" args false ∧ args.length ≤ 8 ∧
    args.take 7 = remaining.take 7 ∧ (args.length = 8 ↔ 7 < remaining.length) ∧
    (7 < remaining.length → args[7]? = some (valueTuple (remaining.drop 7)))

theorem holdsRemaining_valueTuple (elements : List Ty) :
    HoldsRemaining elements (valueTuple elements) := by
  by_cases few : elements.length ≤ 7
  · have none : ¬ 7 < elements.length := by omega
    exact ⟨elements, valueTuple_of_le few, by omega, rfl, by omega, fun many => absurd many none⟩
  · have many : 7 < elements.length := by omega
    have taken : (elements.take 7).length = 7 := by
      rw [List.length_take]
      omega
    -- the eighth argument stands behind the seven elements that are held here
    refine ⟨_, valueTuple_of_lt many, ?_, ?_, ?_, fun _ => ?_⟩
    · rw [maxTupleArity, List.length_append, taken]
      exact Nat.le_refl 8
    · rw [maxTupleArity, List.take_append_of_le_length (by omega), List.take_take]
      rfl
    · simp [maxTupleArity, many]
      omega
    · rw [maxTupleArity, List.getElem?_append_right (by omega), taken]
      rfl

/-- Every node on the spine of a value tuple is the value tuple of what remains there. -/
theorem OnSpine.eq_valueTuple {elements remaining : List Ty} {node : Ty}
    (onSpine : OnSpine elements (valueTuple elements) remaining node) :
    node = valueTuple remaining := by
  induction onSpine with
  | whole => rfl
  | @eighth remaining args ns name nullable rest above last ih =>
    obtain ⟨args', same, few, -, eight, deeper⟩ := holdsRemaining_valueTuple remaining
    obtain ⟨-, -, rfl, -⟩ := Ty.named.inj (ih.trans same)
    -- there is an eighth argument, so more than seven elements remain
    obtain ⟨bound, -⟩ := List.getElem?_eq_some_iff.mp last
    have many := eight.mp (by omega)
    exact Option.some.inj (last.symm.trans (deeper many))

/-- Walking along the spine gives the elements back. -/
theorem heldElements_valueTuple (elements : List Ty) :
    heldElements (valueTuple elements) = elements := by
  induction elements using valueTuple.induct with
  | case1 elements few =>
    have none : ¬ 7 < elements.length := Nat.not_lt.mpr few
    rw [valueTuple_of_le few, heldElements, dif_neg none]
  | case2 elements many ih =>
    have many : 7 < elements.length := Nat.lt_of_not_le many
    -- the eighth argument holds the elements behind the seventh, as another such type
    obtain ⟨args, same, -, taken, eight, deeper⟩ := holdsRemaining_valueTuple elements
    have nested : 7 < args.length := by
      rw [eight.mpr many]
      omega
    have last : args[7] = valueTuple (elements.drop 7) :=
      (List.getElem_eq_iff nested).mpr (deeper many)
    have held : heldElements (valueTuple (elements.drop 7)) = elements.drop 7 := ih
    rw [same, heldElements, dif_pos nested, last, taken, held, List.take_append_drop]

theorem valueTuple_inj {left right : List Ty} :
    valueTuple left = valueTuple right ↔ left = right := by
  constructor
  · intro same
    rw [← heldElements_valueTuple left, same, heldElements_valueTuple]
  · rintro rfl
    rfl

/-! ### Tuples at run time -/

theorem canonical_valueTuple (elements : List Ty) :
    canonical (valueTuple elements) = valueTuple (elements.map canonical) := by
  induction elements using valueTuple.induct with
  | case1 elements few =>
    rw [valueTuple_of_le few, valueTuple_of_le (by simpa using few), canonical,
      canonicalAll_eq_map]
  | case2 elements many ih =>
    -- the canonical forms are cut at the same place as the elements
    have whole := valueTuple_of_lt (Nat.lt_of_not_le many)
    have mapped : valueTuple (elements.map canonical) = _ :=
      valueTuple_of_lt (by simpa using Nat.lt_of_not_le many)
    rw [whole, mapped, canonical, canonicalAll_eq_map, List.map_append, List.map_singleton, ih,
      List.map_take, List.map_drop]

theorem erase_tuple (elements : List Ty) (names : List (Option String)) :
    erase (.tuple elements names) = valueTuple (elements.map erase) := by
  rw [erase, eraseAll_eq_map]

theorem sameErased_iff (left right : Ty) :
    sameErased left right = true ↔ canonical (erase left) = canonical (erase right) :=
  same_iff (erase left) (erase right)

theorem sameErased_tuple_iff {elements others : List Ty} {names names' : List (Option String)} :
    sameErased (.tuple elements names) (.tuple others names') = true ↔
      List.Forall₂ (fun element other => sameErased element other = true) elements others := by
  simp only [sameErased_iff, erase_tuple, canonical_valueTuple, valueTuple_inj, List.map_map]
  rw [← List.forall₂_eq_eq_eq, List.forall₂_map_left_iff, List.forall₂_map_right_iff]
  rfl

/-! ### Main theorem -/

/-- Tuples of any length are the same at run time exactly if they have the same number of elements
and these are the same one by one. Every node on the spine of the runtime type of a tuple is a value
tuple over the elements that remain there, and the spine gives the elements back in order. -/
theorem tuple_keepsElements (elements : List Ty) (names : List (Option String)) :
    (∀ others names', sameErased (.tuple elements names) (.tuple others names') = true ↔
      List.Forall₂ (fun element other => sameErased element other = true) elements others) ∧
      (∀ remaining node,
        OnSpine (elements.map erase) (erase (.tuple elements names)) remaining node →
        HoldsRemaining remaining node) ∧
      heldElements (erase (.tuple elements names)) = elements.map erase := by
  refine ⟨fun others names' => sameErased_tuple_iff, ?_, ?_⟩
  · intro remaining node onSpine
    rw [erase_tuple] at onSpine
    rw [onSpine.eq_valueTuple]
    exact holdsRemaining_valueTuple remaining
  · rw [erase_tuple, heldElements_valueTuple]

/-- Eight elements, of which the last one is a value tuple itself. -/
def eightElements : List Ty :=
  List.replicate 7 (.dynamic false) ++ [.tuple [.nativeInteger true] [some "n"]]

/-- The last element is not the eighth argument: a value tuple of one element is around it. -/
theorem tuple_keepsElements_eightElements :
    ∃ node, OnSpine (eightElements.map erase) (erase (.tuple eightElements []))
        [erase (.tuple [.nativeInteger true] [])] node ∧
      HoldsRemaining [erase (.tuple [.nativeInteger true] [])] node := by
  obtain ⟨args, same, -, -, -, deeper⟩ := holdsRemaining_valueTuple (eightElements.map erase)
  rw [← erase_tuple eightElements []] at same
  have root : OnSpine (eightElements.map erase) (erase (.tuple eightElements []))
      (eightElements.map erase) (.named "System" "ValueTuple" args false) := same ▸ .whole
  have nested := OnSpine.eighth root (deeper (by decide))
  exact ⟨_, nested, (tuple_keepsElements eightElements []).2.1 _ _ nested⟩

end MemberOrigin.Ty
