import MemberOrigin.Code.Basic

/-!
# Instructions at any depth

The parts of an instruction, and what a single instruction names: a variable, a field or a method.
A property of single instructions holds everywhere in an instruction if it holds of the instruction
and everywhere in its operands.
-/
namespace MemberOrigin

namespace Instr

/-- The operands of an instruction, which are instructions themselves. -/
def operands : Instr → List Instr
  | nop | loadStatic _ | load _ | null | text _ | int _ | typeToken _ => []
  | leave _ value | storeStatic _ value | store _ value | addressOf value _ => [value]
  | block instructions => instructions
  | branch condition onTrue onFalse => [condition, onTrue, onFalse]
  | call _ _ args => args
  | loadField target _ | loadFieldAddress target _ => [target]
  | storeField target _ value => [target, value]
  | both left right | compare _ left right => [left, right]

/-- The instruction itself and its parts, at any depth. -/
inductive Within : Instr → Instr → Prop
  | self {instr : Instr} : Within instr instr
  | operand {instr part whole : Instr} (direct : part ∈ whole.operands)
      (deeper : Within instr part) : Within instr whole

/-- Whether all instructions within this one have a property. -/
def Everywhere (holds : Instr → Prop) (whole : Instr) : Prop :=
  ∀ instr, Within instr whole → holds instr

/-- The variable that the instruction itself reads or writes. -/
def usedVariable? : Instr → Option Variable
  | load v | store v _ => some v
  | _ => none

/-- The field that the instruction itself accesses. -/
def usedField? : Instr → Option FieldRef
  | loadField _ field | loadFieldAddress _ field | loadStatic field | storeField _ field _
  | storeStatic field _ => some field
  | _ => none

/-- The method that the instruction itself calls. -/
def usedMethod? : Instr → Option MethodRef
  | call _ method _ => some method
  | _ => none

theorem Within.trans {part inner whole : Instr} (inside : Within part inner)
    (within : Within inner whole) : Within part whole := by
  induction within with
  | self => exact inside
  | operand direct _ ih => exact .operand direct ih

theorem everywhere_iff {holds : Instr → Prop} {whole : Instr} :
    Everywhere holds whole ↔ holds whole ∧ ∀ part ∈ whole.operands, Everywhere holds part := by
  constructor
  · intro all
    exact ⟨all whole .self, fun part direct instr deeper => all instr (.operand direct deeper)⟩
  · rintro ⟨here, below⟩ instr inside
    cases inside with
    | self => exact here
    | operand direct deeper => exact below _ direct instr deeper

theorem sizeOf_lt_of_mem_operands {part whole : Instr} (direct : part ∈ whole.operands) :
    sizeOf part < sizeOf whole := by
  cases whole with
  | block instructions =>
    have smaller := List.sizeOf_lt_of_mem (show part ∈ instructions from direct)
    rw [block.sizeOf_spec]
    omega
  | call kind method args =>
    have smaller := List.sizeOf_lt_of_mem (show part ∈ args from direct)
    rw [call.sizeOf_spec]
    omega
  | _ =>
    simp only [operands, List.mem_cons, List.not_mem_nil, or_false] at direct <;> grind

/-- Induction over instructions, with a hypothesis for every operand. -/
@[elab_as_elim]
theorem induction {motive : Instr → Prop}
    (step : ∀ instr, (∀ part ∈ instr.operands, motive part) → motive instr) (instr : Instr) :
    motive instr :=
  step instr fun part _ => induction step part
termination_by sizeOf instr
decreasing_by exact sizeOf_lt_of_mem_operands ‹_›

theorem exists_both_of_conjunction (first second : Instr) (rest : List Instr) :
    ∃ left right, conjunction first (second :: rest) = both left right := by
  induction rest generalizing first second with
  | nil => exact ⟨first, second, rfl⟩
  | cons next rest ih => exact ih (both first second) next

/-- Grouping conditions to a conjunction adds nothing but the conjunctions themselves. -/
theorem everywhere_conjunction {holds : Instr → Prop}
    (ofBoth : ∀ left right, holds (both left right)) {first : Instr} {rest : List Instr}
    (onFirst : Everywhere holds first) (onRest : ∀ instr ∈ rest, Everywhere holds instr) :
    Everywhere holds (conjunction first rest) := by
  unfold conjunction
  induction rest generalizing first with
  | nil => exact onFirst
  | cons next rest ih =>
    refine ih (everywhere_iff.mpr ⟨ofBoth first next, ?_⟩) fun instr member =>
      onRest instr (List.mem_cons_of_mem _ member)
    simpa [operands] using ⟨onFirst, onRest next List.mem_cons_self⟩

end Instr

end MemberOrigin
