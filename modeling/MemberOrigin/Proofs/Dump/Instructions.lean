import MemberOrigin.Dump.Bodies
import MemberOrigin.Proofs.Code.Depth
import MemberOrigin.Proofs.Dump.Members

/-!
# Instructions that are read

## Main results

`readsAs_of_readInstr`: all that reading a node can give, one rule for each operation.

`readInstr_everywhere`: what holds of all that is read from a node and the nodes below it holds
everywhere in the instruction of the node. Only the `nop` of an operand that is left out and the
inner pairs of a longer conjunction have no node of their own.

## Proof strategy

A reading that succeeds is taken apart once, in `ReadsAs`; what is known of it is read off this
relation. For what holds everywhere, the induction is on the size of the node. A reader of operands
hands on the node below together with its path, so that every part is read from where it stands.
-/
namespace MemberOrigin

/-- The path that goes on by further steps. -/
def DocPath.below (path : DocPath) (steps : List Step) : DocPath :=
  { path with steps := path.steps ++ steps }

theorem DocPath.below_nil (path : DocPath) : path.below [] = path := by
  simp [below]

theorem DocPath.below_below (path : DocPath) (steps others : List Step) :
    (path.below steps).below others = path.below (steps ++ others) := by
  simp [below]

theorem DocPath.index_key (path : DocPath) (name : String) (position : Nat) :
    (path.key name).index position = path.below [.key name, .index position] := by
  simp [below, key, index]

namespace Dump

open Reading Instr

section Operands

variable {node : Document} {key : String} {path : DocPath} {read : Below node Instr}
  {holds : Instr → Prop}

/-- What holds everywhere in all that is read below a node, each part from where it stands. -/
def HoldsBelow (node : Document) (path : DocPath) (read : Below node Instr)
    (holds : Instr → Prop) : Prop :=
  ∀ steps value small instr, node.node? steps = some value →
    read value small (path.below steps) = .ok instr → Everywhere holds instr

theorem readOperand_everywhere (below : HoldsBelow node path read holds) {instr : Instr}
    (found : readOperand node key path read = .ok instr) : Everywhere holds instr := by
  have here : node.node? [] = some node := rfl
  unfold readOperand at found
  split at found
  next value stands =>
    exact below [.key key] _ _ _ (Document.node?_key here stands) found
  · simp at found

theorem readOptional_everywhere (below : HoldsBelow node path read holds) (ofNop : holds .nop)
    {instr : Instr} (found : readOptional node key path read = .ok instr) :
    Everywhere holds instr := by
  unfold readOptional at found
  split at found
  · exact readOperand_everywhere below found
  · cases found
    exact everywhere_iff.mpr ⟨ofNop, by simp [operands]⟩

theorem readOperands_everywhere (below : HoldsBelow node path read holds)
    {instructions : List Instr} (found : readOperands node key path read = .ok instructions) :
    ∀ instr ∈ instructions, Everywhere holds instr := by
  unfold readOperands at found
  intro instr member
  split at found
  · cases found
    cases member
  · cases found
    cases member
  next items stands =>
    obtain ⟨position, kept⟩ := List.mem_iff_getElem?.mp member
    -- the items are read with the proof that they are smaller, which the lookup does not need
    obtain ⟨⟨item, inItems⟩, attached, read⟩ := getElem?_of_each found kept
    have listed : items[position]? = some item := by
      have value := congrArg (Option.map Subtype.val) attached
      rwa [← List.getElem?_map, List.attach_map_subtype_val] at value
    rw [Nat.zero_add, DocPath.index_key] at read
    have here : node.node? [] = some node := rfl
    exact below _ _ _ _ (Document.node?_item (Document.node?_key here stands) listed) read
  · simp at found

end Operands

theorem operands_of_readBare {scope : BodyScope} {operation : String} {path : DocPath}
    {instr : Instr} (read : readBare scope operation path = .ok instr) : instr.operands = [] := by
  unfold readBare at read
  split at read
  · cases read
    rfl
  · cases read
    rfl
  · obtain ⟨v, _, rfl⟩ := map_eq_ok_iff.mp read
    rfl
  · simp at read

/-! ### What a node reads as -/

/-- The reader of the nodes below a node. -/
def readBelow (scope : BodyScope) (node : Document) : Below node Instr :=
  fun value _ path => readInstr scope value path

/-- What a node reads as: for each operation, the instruction and the readings of its parts. -/
inductive ReadsAs (scope : BodyScope) (node : Document) (path : DocPath) : Instr → Prop
  | bare {operation : String} {instr : Instr} (read : readBare scope operation path = .ok instr) :
      ReadsAs scope node path instr
  | leave {container : Container} {value : Instr}
      (onContainer : readContainer node path = .ok container)
      (onValue : readOptional node "value" path (readBelow scope node) = .ok value) :
      ReadsAs scope node path (.leave container value)
  | block {instructions : List Instr}
      (inside : readOperands node "instructions" path (readBelow scope node) = .ok instructions) :
      ReadsAs scope node path (.block instructions)
  | branch {condition onTrue onFalse : Instr}
      (onCondition : readOperand node "condition" path (readBelow scope node) = .ok condition)
      (onThen : readOperand node "then" path (readBelow scope node) = .ok onTrue)
      (onElse : readOptional node "else" path (readBelow scope node) = .ok onFalse) :
      ReadsAs scope node path (.branch condition onTrue onFalse)
  | call {name text : String} {kind : CallKind} {method : MethodRef} {args : List Instr}
      (named : node.get? "op" = some (.string name))
      (calls : Operation.ofName? name = some (.call kind))
      (onMethod : node.get? "method" = some (.string text))
      (resolved : readMethodRef scope.toDumpScope text (path.key "method") = .ok method)
      (onArgs : readOperands node "args" path (readBelow scope node) = .ok args) :
      ReadsAs scope node path (.call kind method args)
  | loadField {target : Instr} {field : FieldRef}
      (onField : readFieldRef scope.toDumpScope node path = .ok field)
      (onTarget : readOperand node "target" path (readBelow scope node) = .ok target) :
      ReadsAs scope node path (.loadField target field)
  | loadFieldAddress {target : Instr} {field : FieldRef}
      (onField : readFieldRef scope.toDumpScope node path = .ok field)
      (onTarget : readOperand node "target" path (readBelow scope node) = .ok target) :
      ReadsAs scope node path (.loadFieldAddress target field)
  | loadStatic {field : FieldRef} (onField : readFieldRef scope.toDumpScope node path = .ok field) :
      ReadsAs scope node path (.loadStatic field)
  | storeField {target value : Instr} {field : FieldRef}
      (onTarget : readOperand node "target" path (readBelow scope node) = .ok target)
      (onField : readFieldRef scope.toDumpScope node path = .ok field)
      (onValue : readOperand node "value" path (readBelow scope node) = .ok value) :
      ReadsAs scope node path (.storeField target field value)
  | storeStatic {value : Instr} {field : FieldRef}
      (onField : readFieldRef scope.toDumpScope node path = .ok field)
      (onValue : readOperand node "value" path (readBelow scope node) = .ok value) :
      ReadsAs scope node path (.storeStatic field value)
  | load {v : Variable} (onVariable : readVariable scope node path = .ok v) :
      ReadsAs scope node path (.load v)
  | store {v : Variable} {value : Instr} (onVariable : readVariable scope node path = .ok v)
      (onValue : readOperand node "value" path (readBelow scope node) = .ok value) :
      ReadsAs scope node path (.store v value)
  | both {first second : Instr} {rest : List Instr}
      (conditions : readOperands node "operands" path (readBelow scope node) =
        .ok (first :: second :: rest)) :
      ReadsAs scope node path (conjunction first (second :: rest))
  | compare {comparison : Comparison} {left right : Instr}
      (onComparison : readComparison node path = .ok comparison)
      (onLeft : readOperand node "left" path (readBelow scope node) = .ok left)
      (onRight : readOperand node "right" path (readBelow scope node) = .ok right) :
      ReadsAs scope node path (.compare comparison left right)
  | text {value : String} (written : node.get? "value" = some (.string value)) :
      ReadsAs scope node path (.text value)
  | int {n : Int} (written : node.get? "value" = some (.number (.integer n))) :
      ReadsAs scope node path (.int n)
  | addressOf {value : Instr} {type : Ty}
      (onValue : readOperand node "value" path (readBelow scope node) = .ok value)
      (onType : readInstrType scope node path = .ok type) :
      ReadsAs scope node path (.addressOf value type)
  | typeToken {type : Ty} (onType : readInstrType scope node path = .ok type) :
      ReadsAs scope node path (.typeToken type)

/-- All that reading a node can give. -/
theorem readsAs_of_readInstr {scope : BodyScope} {node : Document} {path : DocPath} {instr : Instr}
    (read : readInstr scope node path = .ok instr) : ReadsAs scope node path instr := by
  cases node with
  | string operation =>
    rw [readInstr] at read
    exact .bare read
  | object entries =>
    rw [readInstr] at read
    obtain ⟨name, onName, read⟩ := bind_eq_ok_iff.mp read
    cases named : Operation.ofName? name with
    | none => simp [named] at read
    | some operation =>
      simp only [named] at read
      cases operation with
      | nop | null | this => exact .bare read
      | leave =>
        simp only [bind_eq_ok_iff, pure_eq_ok_iff] at read
        obtain ⟨_, onContainer, _, onValue, rfl⟩ := read
        exact .leave onContainer onValue
      | block =>
        simp only [bind_eq_ok_iff, pure_eq_ok_iff] at read
        obtain ⟨_, inside, rfl⟩ := read
        exact .block inside
      | branch =>
        simp only [bind_eq_ok_iff, pure_eq_ok_iff] at read
        obtain ⟨_, onCondition, _, onThen, _, onElse, rfl⟩ := read
        exact .branch onCondition onThen onElse
      | call kind =>
        simp only [bind_eq_ok_iff, pure_eq_ok_iff] at read
        obtain ⟨_, onMethod, _, resolved, _, onArgs, rfl⟩ := read
        exact .call (get?_of_string onName) named (get?_of_string onMethod) resolved onArgs
      | loadField =>
        simp only [bind_eq_ok_iff, pure_eq_ok_iff] at read
        obtain ⟨_, onField, _, onTarget, rfl⟩ := read
        exact .loadField onField onTarget
      | loadFieldAddress =>
        simp only [bind_eq_ok_iff, pure_eq_ok_iff] at read
        obtain ⟨_, onField, _, onTarget, rfl⟩ := read
        exact .loadFieldAddress onField onTarget
      | loadStatic =>
        simp only [bind_eq_ok_iff, pure_eq_ok_iff] at read
        obtain ⟨_, onField, rfl⟩ := read
        exact .loadStatic onField
      | storeField =>
        simp only [bind_eq_ok_iff, pure_eq_ok_iff] at read
        obtain ⟨_, onTarget, _, onField, _, onValue, rfl⟩ := read
        exact .storeField onTarget onField onValue
      | storeStatic =>
        simp only [bind_eq_ok_iff, pure_eq_ok_iff] at read
        obtain ⟨_, onField, _, onValue, rfl⟩ := read
        exact .storeStatic onField onValue
      | load =>
        simp only [bind_eq_ok_iff, pure_eq_ok_iff] at read
        obtain ⟨_, onVariable, rfl⟩ := read
        exact .load onVariable
      | store =>
        simp only [bind_eq_ok_iff, pure_eq_ok_iff] at read
        obtain ⟨_, onVariable, _, onValue, rfl⟩ := read
        exact .store onVariable onValue
      | both =>
        obtain ⟨_, conditions, read⟩ := bind_eq_ok_iff.mp read
        split at read
        · cases read
          exact .both conditions
        · simp at read
      | compare =>
        simp only [bind_eq_ok_iff, pure_eq_ok_iff] at read
        obtain ⟨_, onComparison, _, onLeft, _, onRight, rfl⟩ := read
        exact .compare onComparison onLeft onRight
      | text =>
        dsimp only at read
        split at read
        next written =>
          cases read
          exact .text written
        · simp at read
      | int =>
        dsimp only at read
        split at read
        next written =>
          cases read
          exact .int written
        · simp at read
      | addressOf =>
        simp only [bind_eq_ok_iff, pure_eq_ok_iff] at read
        obtain ⟨_, onValue, _, onType, rfl⟩ := read
        exact .addressOf onValue onType
      | typeToken =>
        simp only [bind_eq_ok_iff, pure_eq_ok_iff] at read
        obtain ⟨_, onType, rfl⟩ := read
        exact .typeToken onType
  | _ =>
    -- neither a name nor an object is refused
    rw [readInstr] at read
    · simp at read
    · simp
    · simp

/-! ### Everywhere in an instruction -/

/-- What holds of the instruction of a node, and everywhere in what is read below the node, holds
everywhere in the instruction. -/
theorem ReadsAs.everywhere {scope : BodyScope} {node : Document} {path : DocPath} {instr : Instr}
    {holds : Instr → Prop} (reads : ReadsAs scope node path instr) (here : holds instr)
    (below : HoldsBelow node path (readBelow scope node) holds) (ofNop : holds .nop)
    (ofBoth : ∀ left right, holds (.both left right)) : Everywhere holds instr := by
  cases reads with
  | bare read => exact everywhere_iff.mpr ⟨here, by simp [operands_of_readBare read]⟩
  | leave _ onValue =>
    refine everywhere_iff.mpr ⟨here, ?_⟩
    simpa [operands] using readOptional_everywhere below ofNop onValue
  | block inside => exact everywhere_iff.mpr ⟨here, readOperands_everywhere below inside⟩
  | branch onCondition onThen onElse =>
    refine everywhere_iff.mpr ⟨here, ?_⟩
    simpa [operands] using ⟨readOperand_everywhere below onCondition,
      readOperand_everywhere below onThen, readOptional_everywhere below ofNop onElse⟩
  | call _ _ _ _ onArgs => exact everywhere_iff.mpr ⟨here, readOperands_everywhere below onArgs⟩
  | loadField _ onTarget | loadFieldAddress _ onTarget =>
    refine everywhere_iff.mpr ⟨here, ?_⟩
    simpa [operands] using readOperand_everywhere below onTarget
  | loadStatic _ | load _ | text _ | int _ | typeToken _ =>
    exact everywhere_iff.mpr ⟨here, by simp [operands]⟩
  | storeField onTarget _ onValue =>
    refine everywhere_iff.mpr ⟨here, ?_⟩
    simpa [operands] using
      ⟨readOperand_everywhere below onTarget, readOperand_everywhere below onValue⟩
  | storeStatic _ onValue | store _ onValue | addressOf onValue _ =>
    refine everywhere_iff.mpr ⟨here, ?_⟩
    simpa [operands] using readOperand_everywhere below onValue
  | both conditions =>
    -- a list of conditions becomes a tree, whose inner pairs have no node of their own
    have all := readOperands_everywhere below conditions
    exact everywhere_conjunction ofBoth (all _ List.mem_cons_self)
      fun instr member => all instr (List.mem_cons_of_mem _ member)
  | compare _ onLeft onRight =>
    refine everywhere_iff.mpr ⟨here, ?_⟩
    simpa [operands] using
      ⟨readOperand_everywhere below onLeft, readOperand_everywhere below onRight⟩

/-- What holds of every instruction with a node of its own holds everywhere in what is read. -/
theorem readInstr_everywhere {scope : BodyScope} {holds : Instr → Prop} (ofNop : holds .nop)
    (ofBoth : ∀ left right, holds (.both left right)) {value : Document} {path : DocPath}
    (ofRead : ∀ steps node instr, value.node? steps = some node →
      readInstr scope node (path.below steps) = .ok instr → holds instr)
    {instr : Instr} (read : readInstr scope value path = .ok instr) : Everywhere holds instr := by
  -- induction on the size of the node: all readers below it are applied to smaller nodes
  have below : HoldsBelow value path (readBelow scope value) holds := by
    intro steps node small instr stands read
    refine readInstr_everywhere ofNop ofBoth (fun others part instr inside read => ?_) read
    refine ofRead (steps ++ others) part instr ?_ (by rwa [DocPath.below_below] at read)
    rw [Document.node?_append, stands]
    exact inside
  have here : holds instr := ofRead [] value instr rfl (by rwa [DocPath.below_nil])
  exact (readsAs_of_readInstr read).everywhere here below ofNop ofBoth
termination_by sizeOf value

end Dump

end MemberOrigin
