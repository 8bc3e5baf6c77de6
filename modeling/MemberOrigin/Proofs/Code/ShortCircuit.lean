import MemberOrigin.Proofs.Code.Forms
import MemberOrigin.Proofs.Dump.Reading
import MemberOrigin.Dump.Bodies

/-!
# The meaning of a flattened conjunction

## Main result

`conjuncts_evaluate`: a conjunction of any shape is evaluated like the list of its conditions, which
is evaluated in order up to the first condition that is false. The list does not depend on how the
conditions are grouped, so conjunctions that were read from a list of operands are flattened to the
conditions of these operands.

## Proof strategy

Evaluating two lists one after the other evaluates their concatenation. By induction on the
conjunction this is all that evaluation needs. It holds in any monad, so that the evaluation of a
single condition may change a state and fail.
-/
namespace MemberOrigin.Instr

universe u

/-! ### Evaluation -/

section

variable {m : Type → Type u} [Monad m]

/-- The value of a condition, of which `eval` evaluates all instructions but conjunctions. The right
side of a conjunction is not evaluated if the left one is false. -/
def shortCircuit (eval : Instr → m Bool) : Instr → m Bool
  | both left right => do
    if ← shortCircuit eval left then shortCircuit eval right else return false
  | instr => eval instr

/-- Evaluates conditions in order and stops at the first one that is false. -/
def evaluateInOrder (eval : Instr → m Bool) : List Instr → m Bool
  | [] => return true
  | condition :: rest => do
    if ← eval condition then evaluateInOrder eval rest else return false

variable [LawfulMonad m] {eval : Instr → m Bool}

theorem evaluateInOrder_singleton (condition : Instr) :
    evaluateInOrder eval [condition] = eval condition := by
  calc
    _ = eval condition >>= pure := by
      apply bind_congr
      intro value
      cases value <;> rfl
    _ = eval condition := bind_pure (eval condition)

theorem evaluateInOrder_append (before after : List Instr) :
    evaluateInOrder eval (before ++ after) = do
      if ← evaluateInOrder eval before then evaluateInOrder eval after else return false := by
  induction before with
  | nil => simp [evaluateInOrder]
  | cons condition rest ih =>
    simp only [List.cons_append, evaluateInOrder, bind_assoc]
    apply bind_congr
    intro value
    -- behind a false condition neither list is evaluated further
    cases value with
    | false => simp
    | true => simpa using ih

theorem shortCircuit_eq (instr : Instr) :
    shortCircuit eval instr = evaluateInOrder eval instr.conjuncts := by
  induction instr using conjuncts.induct with
  | case1 left right onLeft onRight =>
    rw [shortCircuit, conjuncts, evaluateInOrder_append, onLeft, onRight]
  | case2 instr single =>
    -- no conjunction, which the last equations of both functions ask for
    rw [shortCircuit.eq_2 eval instr single, conjuncts.eq_2 instr single,
      evaluateInOrder_singleton]

end

/-! ### The list of conditions -/

theorem Leaves.ne_nil {instr : Instr} {conditions : List Instr} (leaves : Leaves instr conditions) :
    conditions ≠ [] := by
  induction leaves with
  | leaf single => exact List.cons_ne_nil _ _
  | both _ _ onLeft _ => exact List.append_ne_nil_of_left_ne_nil onLeft _

theorem Leaves.ne_both {instr : Instr} {conditions : List Instr} (leaves : Leaves instr conditions)
    {condition : Instr} (member : condition ∈ conditions) (left right : Instr) :
    condition ≠ Instr.both left right := by
  induction leaves with
  | leaf single =>
    rw [List.mem_singleton.mp member]
    exact single left right
  | both _ _ onLeft onRight =>
    rcases List.mem_append.mp member with before | after
    · exact onLeft before
    · exact onRight after

/-- A conjunction of some conditions in their order, grouped in any way. -/
inductive Grouping : List Instr → Instr → Prop
  | single {condition : Instr} : Grouping [condition] condition
  | both {left right : Instr} {before after : List Instr} (onLeft : Grouping before left)
      (onRight : Grouping after right) : Grouping (before ++ after) (both left right)

theorem Grouping.conjuncts_eq {conditions : List Instr} {whole : Instr}
    (grouping : Grouping conditions whole) :
    whole.conjuncts = conditions.flatMap conjuncts := by
  induction grouping with
  | single => simp
  | both _ _ onLeft onRight => rw [conjuncts, onLeft, onRight, List.flatMap_append]

/-- Grouping to the left is one way of grouping. -/
theorem Grouping.conjunction {before : List Instr} {first : Instr}
    (grouping : Grouping before first) (rest : List Instr) :
    Grouping (before ++ rest) (Instr.conjunction first rest) := by
  induction rest generalizing before first with
  | nil => simpa [Instr.conjunction] using grouping
  | cons condition rest ih =>
    -- the next condition goes to the right of everything that is grouped already
    have added := ih (grouping.both (Grouping.single : Grouping [condition] condition))
    simpa [Instr.conjunction] using added

open Dump Reading

/-- A conjunction in a dump is read as the conjunction of its operands, grouped to the left. -/
theorem grouping_of_readInstr {scope : BodyScope} {node : Document} {path : DocPath} {instr : Instr}
    (operation : node.get? "op" = some (.string "logic.and"))
    (read : readInstr scope node path = .ok instr) :
    ∃ operands, readOperands node "operands" path (fun value _ path => readInstr scope value path) =
      .ok operands ∧ Grouping operands instr := by
  cases node with
  | object entries =>
    rw [readInstr] at read
    have named : string (.object entries) "op" path .invalidInstruction = .ok "logic.and" := by
      simp [string, operation]
    have known : Operation.ofName? "logic.and" = some .both := by decide
    rw [named, ok_bind, known] at read
    obtain ⟨operands, onOperands, read⟩ := bind_eq_ok_iff.mp read
    refine ⟨operands, onOperands, ?_⟩
    -- less than two operands are refused, and more are joined from the left
    split at read
    next first second rest =>
      cases read
      exact Grouping.single.conjunction (second :: rest)
    · simp at read
  | _ => cases operation

/-! ### Main theorem -/

/-- A conjunction means what its list of conditions means: it gives the same value with the same
effects, or it fails alike. The list has a condition and no conjunction in it. How conditions are
grouped does not change the list, and a conjunction in a dump has the conditions of its operands. -/
theorem conjuncts_evaluate {m : Type → Type u} [Monad m] [LawfulMonad m] (eval : Instr → m Bool) :
    (∀ instr, shortCircuit eval instr = evaluateInOrder eval instr.conjuncts) ∧
      (∀ instr : Instr, instr.conjuncts ≠ [] ∧
        ∀ condition ∈ instr.conjuncts, ∀ left right, condition ≠ both left right) ∧
      (∀ first rest, (conjunction first rest).conjuncts = (first :: rest).flatMap conjuncts) ∧
      (∀ conditions whole, Grouping conditions whole →
        whole.conjuncts = conditions.flatMap conjuncts) ∧
      ∀ (scope : BodyScope) (node : Document) (path : DocPath) (instr : Instr),
        node.get? "op" = some (.string "logic.and") → readInstr scope node path = .ok instr →
        ∃ operands, readOperands node "operands" path
          (fun value _ path => readInstr scope value path) = .ok operands ∧
          instr.conjuncts = operands.flatMap conjuncts := by
  refine ⟨shortCircuit_eq, fun instr => ?_, fun first rest => ?_,
    fun conditions whole => Grouping.conjuncts_eq, ?_⟩
  · -- the conditions are the leaves of the conjunction
    have leaves := conjuncts_eq_iff.mp (Eq.refl instr.conjuncts)
    exact ⟨leaves.ne_nil, fun condition member => leaves.ne_both member⟩
  · exact (Grouping.single.conjunction rest).conjuncts_eq
  · intro scope node path instr operation read
    obtain ⟨operands, onOperands, grouping⟩ := grouping_of_readInstr operation read
    exact ⟨operands, onOperands, grouping.conjuncts_eq⟩

/-- Evaluates integers, which are recorded, and fails for anything else. -/
def recorded : Instr → ExceptT String (StateM (List Int)) Bool
  | int n => do
    modify (n :: ·)
    return n != 0
  | _ => throw "no integer"

/-- A conjunction whose second operand is a conjunction itself. -/
def nestedConjunction : Document :=
  let integer (n : Int) : Document :=
    .object [("op", .string "ldc.i4"), ("value", .number (.integer n))]
  .object [("op", .string "logic.and"), ("operands", .list [integer 1,
    .object [("op", .string "logic.and"), ("operands", .list [.string "ldnull", integer 0])]])]

/-- The evaluation fails behind the first condition, and the effect of that one stays. -/
theorem conjuncts_evaluate_nestedConjunction :
    ∃ instr, nestedConjunction.get? "op" = some (.string "logic.and") ∧
      readInstr default nestedConjunction .root = .ok instr ∧
      (∃ operands, readOperands nestedConjunction "operands" .root
        (fun value _ path => readInstr default value path) = .ok operands ∧
        instr.conjuncts = operands.flatMap conjuncts) ∧
      Grouping [int 1, both null (int 0)] instr ∧
      instr.conjuncts = [int 1, both null (int 0)].flatMap conjuncts ∧
      shortCircuit recorded instr = evaluateInOrder recorded instr.conjuncts ∧
      (shortCircuit recorded instr).run [] = (.error "no integer", [1]) := by
  obtain ⟨evaluates, -, -, grouped, loaded⟩ := conjuncts_evaluate recorded
  have operation : nestedConjunction.get? "op" = some (.string "logic.and") := rfl
  have read : readInstr default nestedConjunction .root =
      .ok (both (int 1) (both null (int 0))) := by
    simp [nestedConjunction, readInstr, readOperands, readBare, each, string, Operation.ofName?,
      Operation.names, List.lookup_cons, Document.get?, Document.find?, Instr.conjunction,
      Functor.map, Except.map]
  have grouping : Grouping [int 1, both null (int 0)] (both (int 1) (both null (int 0))) :=
    Grouping.single.conjunction [both null (int 0)]
  exact ⟨_, operation, read, loaded _ _ _ _ operation read, grouping, grouped _ _ grouping,
    evaluates _, rfl⟩

end MemberOrigin.Instr
