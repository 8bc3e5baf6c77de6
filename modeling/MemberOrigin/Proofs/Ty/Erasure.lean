import MemberOrigin.Proofs.Code.Forms
import MemberOrigin.Proofs.Ty.ValueTuple

/-!
# Erasure is a projection

## Main result

`erase_projects`: the runtime type of a type has nothing in it that erasure removes, erasing it
again changes nothing, and being the same at run time is an equivalence that does not tell a type
from its runtime type and holds of types that are the same. So default comparers are recognised
alike for types that are the same at run time.

## Proof strategy

Erased types are closed under value tuples and are fixed by erasure. Erasure commutes with canonical
forms, since the names that these forget play no part in it.
-/
namespace MemberOrigin

namespace Ty

/-! ### Erased types -/

/-- A type of the runtime: nothing in it, at any depth, is a tuple, a native integer, the dynamic
type or annotated. -/
inductive Erased : Ty → Prop
  | named {ns name : String} {args : List Ty} (inner : ∀ arg ∈ args, Erased arg) :
      Erased (.named ns name args false)
  | parameter {owner : Owner} {index : Int} {name : String} :
      Erased (.parameter owner index name false)
  | array {element : Ty} {rank : Int} (inner : Erased element) : Erased (.array element rank false)
  | reference {element : Ty} (inner : Erased element) : Erased (.reference element)

theorem erased_ofKnown (known : KnownType) : Erased (ofKnown known) :=
  .named (by simp)

theorem erased_valueTuple {elements : List Ty} (inner : ∀ element ∈ elements, Erased element) :
    Erased (valueTuple elements) := by
  induction elements using valueTuple.induct with
  | case1 elements few =>
    rw [valueTuple_of_le few]
    exact .named inner
  | case2 elements many ih =>
    rw [valueTuple_of_lt (Nat.lt_of_not_le many)]
    refine .named fun arg member => ?_
    -- an argument is one of the first elements or the value tuple of the others
    rcases List.mem_append.mp member with first | last
    · exact inner arg (List.mem_of_mem_take first)
    · rw [List.mem_singleton.mp last]
      exact ih fun element later => inner element (List.mem_of_mem_drop later)

theorem erased_erase (type : Ty) : Erased (erase type) := by
  induction type using Ty.induction with
  | named ns name args nullable ih =>
    rw [erase, eraseAll_eq_map]
    exact .named (List.forall_mem_map.mpr ih)
  | parameter owner index name nullable => exact .parameter
  | array element rank nullable ih => exact .array ih
  | reference element ih => exact .reference ih
  | tuple elements names ih =>
    rw [erase_tuple]
    exact erased_valueTuple (List.forall_mem_map.mpr ih)
  | nativeInteger unsigned => exact erased_ofKnown _
  | dynamic nullable => exact erased_ofKnown _

theorem Erased.erase_eq {type : Ty} (erased : Erased type) : erase type = type := by
  induction erased with
  | @named ns name args inner ih =>
    rw [erase, eraseAll_eq_map, List.map_congr_left ih, List.map_id']
  | parameter => rfl
  | array inner ih => rw [erase, ih]
  | reference inner ih => rw [erase, ih]

theorem erase_erase (type : Ty) : erase (erase type) = erase type :=
  (erased_erase type).erase_eq

/-! ### Identity at run time -/

theorem canonical_erase (type : Ty) : canonical (erase type) = erase (canonical type) := by
  induction type using Ty.induction with
  | named ns name args nullable ih =>
    simp only [erase, canonical, eraseAll_eq_map, canonicalAll_eq_map, List.map_map]
    exact congrArg (named ns name · false) (List.map_congr_left ih)
  | parameter owner index name nullable => rfl
  | array element rank nullable ih => simp only [erase, canonical, ih]
  | reference element ih => simp only [erase, canonical, ih]
  | tuple elements names ih =>
    -- only the elements go into the value tuple, so the names of both sides are out of the way
    simp only [erase, canonical, eraseAll_eq_map, canonicalAll_eq_map, canonical_valueTuple,
      List.map_map]
    exact congrArg valueTuple (List.map_congr_left ih)
  | nativeInteger unsigned => cases unsigned <;> rfl
  | dynamic nullable => rfl

theorem sameErased_of_same {left right : Ty} (identical : same left right = true) :
    sameErased left right = true := by
  rw [sameErased_iff, canonical_erase, canonical_erase, (same_iff left right).mp identical]

theorem sameErased_equivalence :
    Equivalence fun left right : Ty => sameErased left right = true where
  refl type := same_refl (erase type)
  symm identical := same_symm identical
  trans identical next := same_trans identical next

theorem sameErased_erase (type : Ty) : sameErased type (erase type) = true := by
  rw [sameErased, erase_erase]
  exact same_refl (erase type)

end Ty

/-! ### Default comparers -/

namespace Instr

theorem DefaultComparer.ofType {type type' : Ty} {instr : Instr}
    (same : type.sameErased type' = true) (comparer : DefaultComparer type instr) :
    DefaultComparer type' instr := by
  obtain ⟨called, isStatic, declared, isComparer, compared⟩ := comparer
  exact .call called isStatic declared isComparer (Ty.sameErased_equivalence.trans compared same)

theorem isDefaultComparer_ofType {type type' : Ty} (same : type.sameErased type' = true)
    (instr : Instr) : instr.isDefaultComparer type = instr.isDefaultComparer type' := by
  rw [Bool.eq_iff_iff, isDefaultComparer_iff, isDefaultComparer_iff]
  constructor
  · exact DefaultComparer.ofType same
  · exact DefaultComparer.ofType (Ty.sameErased_equivalence.symm same)

section

variable {ns name : String} {compared compared' type : Ty} {others : List Ty} {nullable : Bool}
  {kind : CallKind} {method : MethodRef} {args : List Instr}

/-- The comparer of another type that is the same at run time. -/
theorem DefaultComparer.replace (same : compared.sameErased compared' = true)
    (declared : method.declaringType = .named ns name (compared :: others) nullable)
    (comparer : DefaultComparer type (Instr.call kind method args)) :
    DefaultComparer type (Instr.call kind
      { method with declaringType := .named ns name (compared' :: others) nullable } args) := by
  cases comparer with
  | call called isStatic single isComparer ofType =>
    rw [declared] at single isComparer
    -- a comparer has one argument only, so nothing stands behind the replaced one
    cases single
    exact .call called isStatic rfl isComparer
      (Ty.sameErased_equivalence.trans (Ty.sameErased_equivalence.symm same) ofType)

theorem isDefaultComparer_replace (same : compared.sameErased compared' = true)
    (declared : method.declaringType = .named ns name (compared :: others) nullable) :
    (call kind { method with declaringType := .named ns name (compared' :: others) nullable }
      args).isDefaultComparer type = (call kind method args).isDefaultComparer type := by
  rw [Bool.eq_iff_iff, isDefaultComparer_iff, isDefaultComparer_iff]
  constructor
  · intro comparer
    -- putting the first type back gives the method as it was
    have back := comparer.replace (Ty.sameErased_equivalence.symm same) rfl
    rwa [← declared] at back
  · exact DefaultComparer.replace same declared

end

end Instr

/-! ### Main theorem -/

namespace Ty

/-- Erasure is a projection onto the types of the runtime, and types that are the same stay the same
under it. The recognition of a default comparer depends neither on which of the types that are the
same at run time is compared nor on which of them the comparer is of. -/
theorem erase_projects :
    (∀ type, Erased (erase type) ∧ erase (erase type) = erase type ∧
      sameErased type (erase type) = true) ∧
      Equivalence (fun left right : Ty => sameErased left right = true) ∧
      (∀ left right, same left right = true → sameErased left right = true) ∧
      (∀ type type' (instr : Instr), sameErased type type' = true →
        instr.isDefaultComparer type = instr.isDefaultComparer type') ∧
      ∀ (kind : CallKind) (method : MethodRef) (args : List Instr) (type : Ty) (ns name : String)
        (compared compared' : Ty) (others : List Ty) (nullable : Bool),
        method.declaringType = .named ns name (compared :: others) nullable →
        sameErased compared compared' = true →
        (Instr.call kind
          { method with declaringType := .named ns name (compared' :: others) nullable }
          args).isDefaultComparer type = (Instr.call kind method args).isDefaultComparer type := by
  refine ⟨fun type => ⟨erased_erase type, erase_erase type, sameErased_erase type⟩,
    sameErased_equivalence, fun left right => sameErased_of_same, ?_, ?_⟩
  · intro type type' instr same
    exact Instr.isDefaultComparer_ofType same instr
  · intro kind method args type ns name compared compared' others nullable declared same
    exact Instr.isDefaultComparer_replace same declared

/-- A pair of a pointer-sized integer and an annotated dynamic type, with names. -/
def handlePair : Ty :=
  .tuple [.nativeInteger false, .dynamic true] [some "handle", some "owner"]

/-- The default comparer of that pair. -/
def handlePairComparer : MethodRef where
  name := "get_Default"
  declaringType := .named "System.Collections.Generic" "EqualityComparer" [handlePair] false
  isStatic := true

/-- The same pair with a name for a third element. -/
def paddedHandlePair : Ty :=
  .tuple [.nativeInteger false, .dynamic true] [some "handle", some "owner", some "third"]

/-- A field of the pair is compared by the comparer of its runtime type. -/
theorem erase_projects_handlePair :
    same handlePair paddedHandlePair = true ∧ sameErased handlePair paddedHandlePair = true ∧
      sameErased handlePair (erase handlePair) = true ∧
      (Instr.call .direct
        { handlePairComparer with
          declaringType := .named "System.Collections.Generic" "EqualityComparer"
            [erase handlePair] false } []).isDefaultComparer handlePair =
        (Instr.call .direct handlePairComparer []).isDefaultComparer (erase handlePair) ∧
      (Instr.call .direct handlePairComparer []).isDefaultComparer paddedHandlePair = true := by
  obtain ⟨erases, -, ofSame, ofType, ofArgument⟩ := erase_projects
  have identical : same handlePair paddedHandlePair = true := by decide
  -- two types that are the same are the same at run time as well
  have padded := ofSame handlePair paddedHandlePair identical
  have erased := (erases handlePair).2.2
  have replaced := ofArgument .direct handlePairComparer [] handlePair _ _ _ _ _ _ rfl erased
  have compared := ofType handlePair (erase handlePair) (.call .direct handlePairComparer []) erased
  refine ⟨identical, padded, erased, replaced.trans compared, ?_⟩
  simpa [Instr.isDefaultComparer, handlePairComparer, Ty.isKnown, KnownType.ns, KnownType.name,
    KnownType.arity] using padded

end Ty

end MemberOrigin
