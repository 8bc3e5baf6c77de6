import MemberOrigin.Code.Pattern

/-!
# Forms of instructions

What an instruction has to be for a pattern to accept it, as a statement about the instruction
itself. Each form has one lemma that ties it to the pattern.
-/
namespace MemberOrigin

namespace Instr

/-- A load of the variable. -/
def LoadsVar (v : Variable) (instr : Instr) : Prop :=
  ∃ w, instr = load w ∧ w.id = v.id

/-- A load of the receiver. -/
def LoadsThis (instr : Instr) : Prop :=
  ∃ w, instr = load w ∧ w.kind = .parameter ∧ w.index = -1

/-- A call that appends the value to the string builder in the variable. -/
inductive Appends (builder : Variable) (value : Instr) : Instr → Prop
  | call {method : MethodRef} {receiver : Instr} (name : method.name = "Append")
      (onBuilder : method.declaringType.isKnown .stringBuilder = true)
      (loaded : LoadsVar builder receiver) :
      Appends builder value (call .virtual method [receiver, value])

/-- A call that reads the equality contract of the target. -/
inductive ReadsContract (target : Instr) : Instr → Prop
  | call {method : MethodRef} (name : method.name = "get_EqualityContract") :
      ReadsContract target (call .virtual method [target])

/-- The default equality comparer of a type that is the same as the given one at run time. -/
inductive DefaultComparer (type : Ty) : Instr → Prop
  | call {method : MethodRef} {ns name : String} {compared : Ty} {nullable : Bool}
      (called : method.name = "get_Default") (isStatic : method.isStatic = true)
      (declared : method.declaringType = .named ns name [compared] nullable)
      (comparer : method.declaringType.isKnown .equalityComparer = true)
      (same : compared.sameErased type = true) : DefaultComparer type (call .direct method [])

/-- An access to the field on the target. -/
def LoadsField (field : FieldRef) (target instr : Instr) : Prop :=
  ∃ accessed, instr = loadField target accessed ∧ accessed.same field = true

/-- The conditions of a conjunction from left to right, however it is grouped. -/
inductive Leaves : Instr → List Instr → Prop
  | leaf {instr : Instr} (single : ∀ left right, instr ≠ both left right) : Leaves instr [instr]
  | both {left right : Instr} {before after : List Instr} (onLeft : Leaves left before)
      (onRight : Leaves right after) : Leaves (both left right) (before ++ after)

theorem loads_iff {v : Variable} {instr : Instr} : instr.loads v = true ↔ LoadsVar v instr := by
  cases instr <;> simp [loads, LoadsVar]

theorem loadsThis_iff {instr : Instr} : instr.loadsThis = true ↔ LoadsThis instr := by
  cases instr <;> simp [loadsThis, LoadsThis, Variable.isThis]

theorem returned?_eq_some_iff {instr value : Instr} :
    instr.returned? = some value ↔ instr = leave .body value := by
  cases instr with
  | leave container inner => cases container <;> simp [returned?]
  | _ => simp [returned?]

theorem text?_eq_some_iff {instr : Instr} {value : String} :
    instr.text? = some value ↔ instr = text value := by
  cases instr <;> simp [text?]

theorem isInt_iff {instr : Instr} {value : Int} : instr.isInt value = true ↔ instr = int value := by
  cases instr <;> simp [isInt]

theorem notNull?_eq_some_iff {instr value : Instr} :
    instr.notNull? = some value ↔ instr = compare .notEqual value null := by
  constructor
  · intro found
    unfold notNull? at found
    split at found
    · cases found
      rfl
    · cases found
  · rintro rfl
    rfl

theorem appended?_eq_some_iff {builder : Variable} {instr value : Instr} :
    instr.appended? builder = some value ↔ Appends builder value instr := by
  constructor
  · intro found
    unfold appended? at found
    split at found
    · split at found
      -- both checks passed: the name of the method, and the builder as its receiver
      next accepted =>
        simp only [Bool.and_eq_true, beq_iff_eq] at accepted
        cases found
        exact .call accepted.1.1 accepted.1.2 (loads_iff.mp accepted.2)
      · cases found
    · cases found
  · rintro ⟨name, onBuilder, loaded⟩
    simp [appended?, name, onBuilder, loads_iff.mpr loaded]

theorem contractTarget?_eq_some_iff {instr target : Instr} :
    instr.contractTarget? = some target ↔ ReadsContract target instr := by
  constructor
  · intro found
    unfold contractTarget? at found
    split at found
    · split at found
      next name =>
        cases found
        exact .call (beq_iff_eq.mp name)
      · cases found
    · cases found
  · rintro ⟨name⟩
    simp [contractTarget?, name]

theorem fieldLoadOf?_eq_some_iff {field : FieldRef} {instr target : Instr} :
    instr.fieldLoadOf? field = some target ↔ LoadsField field target instr := by
  constructor
  · intro found
    unfold fieldLoadOf? at found
    split at found
    next inner accessed =>
      split at found
      next same =>
        cases found
        exact ⟨accessed, rfl, same⟩
      · cases found
    · cases found
  · rintro ⟨accessed, rfl, same⟩
    simp [fieldLoadOf?, same]

theorem isDefaultComparer_iff {type : Ty} {instr : Instr} :
    instr.isDefaultComparer type = true ↔ DefaultComparer type instr := by
  constructor
  · intro accepted
    unfold isDefaultComparer at accepted
    split at accepted
    next method =>
      simp only [Bool.and_eq_true, beq_iff_eq] at accepted
      obtain ⟨⟨⟨called, isStatic⟩, comparer⟩, inner⟩ := accepted
      split at inner
      next ns name compared others nullable declared =>
        -- the number of arguments is part of what makes the type the known one
        have single : others = [] := by
          rw [declared] at comparer
          simp only [Ty.isKnown, KnownType.arity, List.length_cons, Bool.and_eq_true,
            beq_iff_eq] at comparer
          exact List.eq_nil_of_length_eq_zero (by omega)
        subst single
        exact .call called isStatic declared comparer inner
      · cases inner
    · cases accepted
  · rintro ⟨called, isStatic, declared, comparer, same⟩
    rw [declared] at comparer
    simp [isDefaultComparer, called, isStatic, declared, comparer, same]

theorem conjuncts_eq_iff {instr : Instr} {conditions : List Instr} :
    instr.conjuncts = conditions ↔ Leaves instr conditions := by
  constructor
  · rintro rfl
    induction instr using conjuncts.induct with
    | case1 left right onLeft onRight => exact .both onLeft onRight
    | case2 instr single =>
      rw [conjuncts.eq_2 instr single]
      exact .leaf single
  · intro leaves
    induction leaves with
    | leaf single => exact conjuncts.eq_2 _ single
    | both _ _ onLeft onRight => rw [conjuncts, onLeft, onRight]

end Instr

/-- The one variable that stands for the declared parameter of an index. -/
def Body.IsParameter (body : Body) (index : Int) (v : Variable) : Prop :=
  body.vars.filter (fun w => w.kind == .parameter && w.index == index) = [v]

theorem Body.parameter?_eq_some_iff {body : Body} {index : Int} {v : Variable} :
    body.parameter? index = some v ↔ body.IsParameter index v := by
  unfold parameter? IsParameter
  split
  next only single => simp [single]
  next several => simpa using several v

end MemberOrigin
