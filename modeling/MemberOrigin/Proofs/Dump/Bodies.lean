import Mathlib.Data.List.Nodup
import MemberOrigin.Proofs.Code.Forms
import MemberOrigin.Proofs.Dump.Instructions

/-!
# Scoping of bodies

## Main result

`readBody_wellScoped`: a body that is read from a dump has at least one instruction, its variables
are the receiver, the parameters and the locals of the method under distinct names, and everything
that its instructions name at any depth is declared.

## Proof strategy

One lemma for each reader of a name says that the name is declared. Induction on the size of the
node carries this through the operands. The list of variables only grows, and every declaration
checks the names in front of it.
-/
namespace MemberOrigin.Dump

open Reading Instr

/-! ### Names -/

/-- What a single instruction names is declared: a variable of the body, and a field or a method of
the record where the reference has a token. -/
structure InScope (fields : List Field) (methods : List Method) (vars : List Variable)
    (instr : Instr) : Prop where
  ofVariable : ∀ v, instr.usedVariable? = some v → v ∈ vars
  ofField : ∀ reference token, instr.usedField? = some reference → reference.token = some token →
    ∃ field ∈ fields, reference = field.toRef
  ofMethod : ∀ reference token, instr.usedMethod? = some reference → reference.token = some token →
    ∃ method ∈ methods, reference = method.toRef

theorem cutAtColons_eq_none_iff {text : List Char} :
    cutAtColons text = none ↔ ¬ [':', ':'] <:+: text := by
  fun_induction cutAtColons text with
  | case1 => simp
  | case2 rest => simpa using (List.prefix_append [':', ':'] rest).isInfix
  | case3 c rest noColons ih =>
    rw [Option.map_eq_none_iff, ih, List.infix_cons_iff, not_or]
    refine (and_iff_right ?_).symm
    rintro ⟨behind, split⟩
    cases split
    exact noColons _ rfl rfl

/-- The text has no double colon: it can only be the name of a method of the record. -/
def BareName (text : String) : Prop :=
  ¬ "::".toList <:+: text.toList

instance (text : String) : Decidable (BareName text) :=
  inferInstanceAs (Decidable ¬ "::".toList <:+: text.toList)

theorem cutAtLastColons_eq_none_iff {text : String} :
    cutAtLastColons text.toList = none ↔ BareName text := by
  rw [cutAtLastColons, Option.map_eq_none_iff, cutAtColons_eq_none_iff, ← List.reverse_infix,
    List.reverse_reverse]
  rfl

/-- A bare name is resolved to the one method of this name; any other reference gets no token. -/
theorem readMethodRef_cases {scope : DumpScope} {text : String} {path : DocPath}
    {reference : MethodRef} (read : readMethodRef scope text path = .ok reference) :
    (BareName text ∧ ∃ method, scope.method text path = .ok method ∧ reference = method.toRef) ∨
      (¬ BareName text ∧ reference.token = none) := by
  rw [← cutAtLastColons_eq_none_iff]
  unfold readMethodRef at read
  -- without a double colon, the text is a bare name for the scope
  split at read
  next none =>
    obtain ⟨method, found, rfl⟩ := map_eq_ok_iff.mp read
    exact .inl ⟨none, method, found, rfl⟩
  next front back cut =>
    dsimp only at read
    split at read
    · simp at read
    · simp only [bind_eq_ok_iff, pure_eq_ok_iff] at read
      obtain ⟨type, _, rfl⟩ := read
      exact .inr ⟨by simp [cut], rfl⟩

theorem readMethodRef_declared {scope : DumpScope} {text : String} {path : DocPath}
    {reference : MethodRef} (read : readMethodRef scope text path = .ok reference) (token : Int)
    (given : reference.token = some token) :
    ∃ method ∈ scope.methods, reference = method.toRef := by
  rcases readMethodRef_cases read with ⟨_, method, found, same⟩ | ⟨_, noToken⟩
  · exact ⟨method, (mem_and_name_of_method found).1, same⟩
  · simp [noToken] at given

theorem readFieldRef_declared {scope : DumpScope} {node : Document} {path : DocPath}
    {reference : FieldRef} (read : readFieldRef scope node path = .ok reference) (token : Int)
    (given : reference.token = some token) :
    ∃ field ∈ scope.fields, reference = field.toRef := by
  unfold readFieldRef at read
  split at read
  · split at read
    next field found =>
      cases read
      exact ⟨field, List.mem_of_find?_eq_some found, rfl⟩
    · simp at read
  · simp only [bind_eq_ok_iff, pure_eq_ok_iff] at read
    obtain ⟨_, _, name, _, text, _, declaringType, _, type, _, rfl⟩ := read
    cases given

theorem mem_of_findVariable {scope : BodyScope} {name : String} {path : DocPath} {v : Variable}
    (found : findVariable scope name path = .ok v) : v ∈ scope.vars := by
  unfold findVariable at found
  split at found
  next w known =>
    cases found
    exact List.mem_of_find?_eq_some known
  · simp at found

theorem mem_of_readVariable {scope : BodyScope} {node : Document} {path : DocPath} {v : Variable}
    (read : readVariable scope node path = .ok v) : v ∈ scope.vars := by
  obtain ⟨name, _, found⟩ := bind_eq_ok_iff.mp read
  exact mem_of_findVariable found

/-! ### Instructions -/

/-- What a single instruction names, as its node gives it: a variable of the body, and a field or a
method by a reference in the node. -/
structure NamedBy (scope : BodyScope) (node : Document) (path : DocPath) (instr : Instr) :
    Prop where
  ofVariable : ∀ v, instr.usedVariable? = some v → v ∈ scope.vars
  ofField : ∀ reference, instr.usedField? = some reference →
    readFieldRef scope.toDumpScope node path = .ok reference
  ofMethod : ∀ reference, instr.usedMethod? = some reference → ∃ name kind text,
    node.get? "op" = some (.string name) ∧ Operation.ofName? name = some (.call kind) ∧
      node.get? "method" = some (.string text) ∧
      readMethodRef scope.toDumpScope text (path.key "method") = .ok reference

section Names

variable {scope : BodyScope} {node : Document} {path : DocPath} {instr : Instr}

/-- An instruction that names nothing agrees with every node. -/
theorem NamedBy.of_anonymous (noVariable : instr.usedVariable? = none)
    (noField : instr.usedField? = none) (noMethod : instr.usedMethod? = none) :
    NamedBy scope node path instr :=
  ⟨by simp [noVariable], by simp [noField], by simp [noMethod]⟩

theorem NamedBy.of_variable {v : Variable} (uses : instr.usedVariable? = some v)
    (noField : instr.usedField? = none) (noMethod : instr.usedMethod? = none)
    (declared : v ∈ scope.vars) : NamedBy scope node path instr :=
  ⟨by simpa [uses], by simp [noField], by simp [noMethod]⟩

theorem NamedBy.of_field {reference : FieldRef} (noVariable : instr.usedVariable? = none)
    (accesses : instr.usedField? = some reference) (noMethod : instr.usedMethod? = none)
    (read : readFieldRef scope.toDumpScope node path = .ok reference) :
    NamedBy scope node path instr :=
  ⟨by simp [noVariable], by simpa [accesses], by simp [noMethod]⟩

theorem NamedBy.of_method {name text : String} {kind : CallKind} {reference : MethodRef}
    (noVariable : instr.usedVariable? = none) (noField : instr.usedField? = none)
    (uses : instr.usedMethod? = some reference) (named : node.get? "op" = some (.string name))
    (calls : Operation.ofName? name = some (.call kind))
    (method : node.get? "method" = some (.string text))
    (read : readMethodRef scope.toDumpScope text (path.key "method") = .ok reference) :
    NamedBy scope node path instr := by
  refine ⟨by simp [noVariable], by simp [noField], ?_⟩
  rw [uses]
  rintro _ ⟨⟩
  exact ⟨name, kind, text, named, calls, method, read⟩

/-- What is named by its node is declared. -/
theorem NamedBy.inScope (named : NamedBy scope node path instr) :
    InScope scope.fields scope.methods scope.vars instr where
  ofVariable := named.ofVariable
  ofField reference token accesses :=
    readFieldRef_declared (named.ofField reference accesses) token
  ofMethod reference token calls := by
    obtain ⟨_, _, _, _, _, _, read⟩ := named.ofMethod reference calls
    exact readMethodRef_declared read token

end Names

theorem readBare_named {scope : BodyScope} {operation : String} {node : Document} {path : DocPath}
    {instr : Instr} (read : readBare scope operation path = .ok instr) :
    NamedBy scope node path instr := by
  unfold readBare at read
  split at read
  · cases read
    exact .of_anonymous rfl rfl rfl
  · cases read
    exact .of_anonymous rfl rfl rfl
  · obtain ⟨v, found, rfl⟩ := map_eq_ok_iff.mp read
    exact .of_variable rfl rfl rfl (mem_of_findVariable found)
  · simp at read

theorem readInstr_named {scope : BodyScope} {value : Document} {path : DocPath} {instr : Instr}
    (read : readInstr scope value path = .ok instr) : NamedBy scope value path instr := by
  cases readsAs_of_readInstr read with
  | bare read => exact readBare_named read
  | leave _ _ | block _ | branch _ _ _ | compare _ _ _ | text _ | int _ | addressOf _ _
  | typeToken _ =>
    exact .of_anonymous rfl rfl rfl
  | call named calls onMethod resolved _ =>
    exact .of_method rfl rfl rfl named calls onMethod resolved
  | loadField onField _ | loadFieldAddress onField _ | loadStatic onField
  | storeField _ onField _ | storeStatic onField _ =>
    exact .of_field rfl rfl rfl onField
  | load onVariable | store onVariable _ =>
    exact .of_variable rfl rfl rfl (mem_of_readVariable onVariable)
  | @both first second rest _ =>
    -- several conditions are grouped to a pair, which names nothing itself
    obtain ⟨left, right, pair⟩ := exists_both_of_conjunction first second rest
    rw [pair]
    exact .of_anonymous rfl rfl rfl

/-- Everything that an instruction names, at any depth, is declared. -/
theorem readInstr_inScope {scope : BodyScope} {value : Document} {path : DocPath} {instr : Instr}
    (read : readInstr scope value path = .ok instr) :
    Everywhere (InScope scope.fields scope.methods scope.vars) instr := by
  refine readInstr_everywhere ?_ (fun left right => ?_)
    (fun _ _ _ _ read => (readInstr_named read).inScope) read
  · exact ⟨by simp [usedVariable?], by simp [usedField?], by simp [usedMethod?]⟩
  · exact ⟨by simp [usedVariable?], by simp [usedField?], by simp [usedMethod?]⟩

/-! ### Variables -/

/-- Variables with distinct names. -/
abbrev DistinctNames (vars : List Variable) : Prop :=
  (vars.map Variable.name).Nodup

/-- The variables of parameters from a position on, numbered from a number on. -/
def parameterVariables : Nat → Nat → List Parameter → List Variable
  | _, _, [] => []
  | id, position, parameter :: rest =>
    { id, kind := .parameter, index := position, name := parameter.name, type := parameter.type }
      :: parameterVariables (id + 1) (position + 1) rest

theorem declare_eq_ok_iff {vars result : List Variable} {kind : VariableKind} {index : Int}
    {name : String} {type : Ty} {path : DocPath} :
    declare vars kind index name type path = .ok result ↔
      (∀ v ∈ vars, v.name ≠ name) ∧ vars ++ [⟨vars.length, kind, index, name, type⟩] = result := by
  unfold declare
  split
  next known => simpa using fun new => absurd known (by simpa using new)
  next new => simpa using fun _ => by simpa using new

theorem DistinctNames.declare {vars : List Variable} (distinct : DistinctNames vars)
    {v : Variable} (new : ∀ w ∈ vars, w.name ≠ v.name) : DistinctNames (vars ++ [v]) := by
  simp only [DistinctNames, List.map_append, List.nodup_append, List.map_cons, List.map_nil]
  refine ⟨distinct, by simp, ?_⟩
  simpa using new

/-- Variables as they are declared: under distinct names, and numbered from zero on. -/
structure Declared (vars : List Variable) : Prop where
  names : DistinctNames vars
  numbers : vars.map Variable.id = List.range vars.length

theorem Declared.declare {vars : List Variable} (declared : Declared vars) {v : Variable}
    (new : ∀ w ∈ vars, w.name ≠ v.name) (next : v.id = vars.length) : Declared (vars ++ [v]) where
  names := declared.names.declare new
  numbers := by simp [declared.numbers, next, List.range_succ]

/-- Among declared variables, the number tells the variable. -/
theorem Declared.eq_of_id {vars : List Variable} (declared : Declared vars) {v w : Variable}
    (known : v ∈ vars) (known' : w ∈ vars) (same : v.id = w.id) : v = w := by
  have distinct : (vars.map Variable.id).Nodup := declared.numbers ▸ List.nodup_range
  exact List.inj_on_of_nodup_map distinct known known' same

theorem declareParameters_eq_ok {path : DocPath} {vars result : List Variable} {position : Nat}
    {parameters : List Parameter}
    (declared : declareParameters path vars position parameters = .ok result) :
    result = vars ++ parameterVariables vars.length position parameters ∧
      (Declared vars → Declared result) := by
  induction parameters generalizing vars position with
  | nil =>
    cases declared
    simp [parameterVariables]
  | cons parameter rest ih =>
    obtain ⟨_, one, others⟩ := bind_eq_ok_iff.mp declared
    -- the new name is compared with all names in front of it, which keeps them distinct
    obtain ⟨new, rfl⟩ := declare_eq_ok_iff.mp one
    obtain ⟨rfl, keeps⟩ := ih others
    exact ⟨by simp [parameterVariables], fun before => keeps (before.declare new rfl)⟩

theorem declareLocals_eq_ok {scope : DumpScope} {path : DocPath} {vars result : List Variable}
    {position : Nat} {items : List Document}
    (declared : declareLocals scope path vars position items = .ok result) :
    ∃ locals, result = vars ++ locals ∧ (∀ v ∈ locals, v.kind = .localSlot) ∧
      (Declared vars → Declared result) := by
  induction items generalizing vars position with
  | nil =>
    cases declared
    exact ⟨[], by simp, by simp, id⟩
  | cons item rest ih =>
    simp only [declareLocals, bind_eq_ok_iff] at declared
    obtain ⟨node, _, name, _, type, _, _, one, others⟩ := declared
    -- one local is put behind what is declared, and the others behind it
    obtain ⟨new, rfl⟩ := declare_eq_ok_iff.mp one
    obtain ⟨locals, rfl, kinds, keeps⟩ := ih others
    refine ⟨_ :: locals, List.append_assoc .., ?_, fun before => keeps (before.declare new rfl)⟩
    exact List.forall_mem_cons.mpr ⟨rfl, kinds⟩

/-- Parameters from a position on have no smaller index. -/
theorem filter_parameterVariables_eq_nil {id position : Nat} {index : Int}
    (small : index < position) (parameters : List Parameter) :
    (parameterVariables id position parameters).filter
      (fun v => v.kind == .parameter && v.index == index) = [] := by
  induction parameters generalizing id position with
  | nil => rfl
  | cons parameter rest ih =>
    have other : ((position : Int) == index) = false := by
      rw [beq_eq_false_iff_ne]
      omega
    have behind : index < (position + 1 : Nat) := by omega
    simpa [parameterVariables, other] using ih behind

/-- Exactly one variable stands for each parameter. -/
theorem filter_parameterVariables {id position index : Nat} {parameters : List Parameter}
    {parameter : Parameter} (found : parameters[index]? = some parameter) :
    (parameterVariables id position parameters).filter
        (fun v => v.kind == .parameter && v.index == ((position + index : Nat) : Int)) =
      [⟨id + index, .parameter, (position + index : Nat), parameter.name, parameter.type⟩] := by
  induction parameters generalizing id position index with
  | nil => simp at found
  | cons first rest ih =>
    -- the head has the smallest index, and each other parameter stands in the tail
    cases index with
    | zero =>
      obtain rfl : first = parameter := by simpa using found
      have here : (position : Int) < (position + 1 : Nat) := by omega
      simpa [parameterVariables] using filter_parameterVariables_eq_nil here rest
    | succ index =>
      have other : ((position : Int) == ((position + (index + 1) : Nat) : Int)) = false := by
        rw [beq_eq_false_iff_ne]
        omega
      have behind := @ih (id + 1) (position + 1) index (by simpa using found)
      rw [show position + 1 + index = position + (index + 1) by omega,
        show id + 1 + index = id + (index + 1) by omega] at behind
      rw [parameterVariables, List.filter_cons]
      simp only [other, Bool.and_false, Bool.false_eq_true, if_false]
      exact behind

/-! ### Bodies -/

/-- A body over the variables of its method, in which everything that is named is declared. -/
structure WellScopedBody (fields : List Field) (methods : List Method) (method : Method)
    (body : Body) : Prop where
  filled : body.instructions ≠ []
  distinctNames : DistinctNames body.vars
  receiver : (∃ v ∈ body.vars, v.kind = .parameter ∧ v.index = -1) ↔ method.isStatic = false
  parameters : ∀ (index : Nat) parameter, method.parameters[index]? = some parameter →
    ∃ v, body.IsParameter index v ∧ v.name = parameter.name ∧ v.type = parameter.type
  inScope : ∀ instr ∈ body.instructions, Everywhere (InScope fields methods body.vars) instr

theorem kind_and_index_of_mem_parameterVariables {id position : Nat} {parameters : List Parameter}
    {v : Variable} (member : v ∈ parameterVariables id position parameters) :
    v.kind = .parameter ∧ (position : Int) ≤ v.index := by
  induction parameters generalizing id position with
  | nil => cases member
  | cons parameter rest ih =>
    rcases List.mem_cons.mp member with rfl | behind
    · exact ⟨rfl, Int.le_refl _⟩
    · obtain ⟨kind, bound⟩ := ih behind
      exact ⟨kind, by omega⟩

/-- The variables of a method are its receiver, its parameters and the locals of its body. -/
theorem declareVariables_eq_ok {scope : DumpScope} {method : Method} {node : Document}
    {path : DocPath} {vars : List Variable}
    (declared : declareVariables scope method node path = .ok vars) :
    Declared vars ∧ ∃ locals, (∀ v ∈ locals, v.kind = .localSlot) ∧
      vars = receiver scope method
        ++ parameterVariables (receiver scope method).length 0 method.parameters ++ locals := by
  simp only [declareVariables, bind_eq_ok_iff] at declared
  obtain ⟨_, ofParameters, items, _, ofLocals⟩ := declared
  obtain ⟨rfl, keeps⟩ := declareParameters_eq_ok ofParameters
  obtain ⟨locals, rfl, kinds, keepsAll⟩ := declareLocals_eq_ok ofLocals
  have single : Declared (receiver scope method) := by
    unfold receiver
    split <;> exact ⟨by simp [DistinctNames], rfl⟩
  exact ⟨keepsAll (keeps single), locals, kinds, rfl⟩

section Variables

variable {scope : DumpScope} {method : Method} {locals : List Variable}
  (kinds : ∀ v ∈ locals, v.kind = .localSlot)

include kinds

/-- Only the receiver of an instance method has the index of a receiver. -/
theorem exists_receiver_iff {id : Nat} :
    (∃ v ∈ receiver scope method ++ parameterVariables id 0 method.parameters ++ locals,
      v.kind = .parameter ∧ v.index = -1) ↔ method.isStatic = false := by
  constructor
  · rintro ⟨v, member, kind, index⟩
    rcases List.mem_append.mp member with member | ofLocal
    · rcases List.mem_append.mp member with ofReceiver | ofParameter
      · unfold receiver at ofReceiver
        split at ofReceiver
        · cases ofReceiver
        next isInstance => simpa using isInstance
      · -- parameters are numbered from zero on
        have bound := (kind_and_index_of_mem_parameterVariables ofParameter).2
        omega
    · rw [kinds v ofLocal] at kind
      cases kind
  · intro isInstance
    exact ⟨⟨0, .parameter, -1, "this", scope.selfType⟩, by simp [receiver, isInstance], rfl, rfl⟩

/-- Neither the receiver nor a local stands for a declared parameter. -/
theorem filter_variables {id index : Nat} {parameter : Parameter}
    (found : method.parameters[index]? = some parameter) :
    (receiver scope method ++ parameterVariables id 0 method.parameters ++ locals).filter
        (fun v => v.kind == .parameter && v.index == (index : Int)) =
      [⟨id + index, .parameter, index, parameter.name, parameter.type⟩] := by
  have noReceiver : (receiver scope method).filter
      (fun v => v.kind == .parameter && v.index == (index : Int)) = [] := by
    rw [List.filter_eq_nil_iff]
    intro v member
    unfold receiver at member
    split at member
    · cases member
    · obtain rfl := List.mem_singleton.mp member
      simp only [Bool.and_eq_true, beq_iff_eq, true_and]
      omega
  have noLocal :
      locals.filter (fun v => v.kind == .parameter && v.index == (index : Int)) = [] := by
    rw [List.filter_eq_nil_iff]
    intro v member
    simp [kinds v member]
  have one := @filter_parameterVariables id 0 index _ _ found
  rw [Nat.zero_add] at one
  rw [List.filter_append, List.filter_append, noReceiver, noLocal, one]
  rfl

end Variables

theorem readBody_wellScoped {scope : DumpScope} {method : Method} {value : Document}
    {path : DocPath} {body : Body} (read : readBody scope method value path = .ok body) :
    WellScopedBody scope.fields scope.methods method body ∧ Declared body.vars := by
  simp only [readBody, bind_eq_ok_iff] at read
  obtain ⟨node, _, vars, declared, items, _, instructions, onInstructions, read⟩ := read
  -- a body without instructions is refused
  split at read
  · simp at read
  next filled =>
    cases read
    obtain ⟨declared, locals, kinds, rfl⟩ := declareVariables_eq_ok declared
    refine ⟨⟨by simpa using filled, declared.names, exists_receiver_iff kinds, ?_, ?_⟩, declared⟩
    · intro index parameter found
      exact ⟨_, filter_variables kinds found, rfl, rfl⟩
    · intro instr member
      obtain ⟨item, _, position, read⟩ := exists_of_mem_each onInstructions member
      exact readInstr_inScope read

end MemberOrigin.Dump
