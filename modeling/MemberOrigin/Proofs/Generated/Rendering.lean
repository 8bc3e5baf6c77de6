import MemberOrigin.Proofs.Code.Execution
import MemberOrigin.Proofs.Dump.Bodies
import MemberOrigin.Proofs.Generated.FirstReturn
import MemberOrigin.Proofs.Search

/-!
# What generated printing writes

## Main results

`run_printsRecord`: a body of the form of `PrintMembers` in a root record appends each member with
its label and one piece, with separators in between, and returns whether there is any. The pieces are
what the getters return exactly if the body makes no object before it returns.

`run_writesRecord`: a body of the form of `ToString` returns the name of the record, and between
braces what `PrintMembers` appends.

## Proof strategy

Each form of an instruction has one lemma on what its execution appends. A label is the same text
however it is cut, since literals are appended one behind the other. The form of a printed value leaves
the kind of its calls open, so that a value may also make an object; it then shows that object.
Induction on the members carries this through the segments, with the separator in front of all
segments but the first.
-/
namespace MemberOrigin

open Instr

/-! ### Texts of records -/

/-- A member with the piece that is printed for its value. -/
abbrev Shown := Property × Piece

/-- The piece is what the getter of the member returns. -/
def Shown.OfGetter (shown : Shown) : Prop :=
  shown.1.getter.map Piece.value = some shown.2

/-- An object stands in the place of what the getter of the member returns. -/
def Shown.OfObject (shown : Shown) : Prop :=
  shown.1.getter.isSome = true ∧ ∃ maker, shown.2 = .object maker

/-- A member as it is printed: its label, and the piece for its value. -/
def memberPieces (shown : Shown) : List Piece :=
  written (shown.1.name ++ " = ") ++ [shown.2]

/-- Members as they are printed, with separators in between. -/
def membersPieces (shown : List Shown) : List Piece :=
  (written ", ").intercalate (shown.map memberPieces)

/-- The text of a record of this name that shows these members. -/
def recordPieces (name : String) (shown : List Shown) : List Piece :=
  written name ++ written " \x7b " ++ membersPieces shown
    ++ (if shown.isEmpty then [] else written " ") ++ written "\x7d"

/-! ### Making objects -/

namespace Instr

/-- Whether the instruction itself makes an object. -/
def isCreation : Instr → Bool
  | call kind _ _ => kind == .construct
  | _ => false

/-- Instructions that make no object, at any depth. -/
def MakesNoObject : Instr → Prop :=
  Everywhere fun instr => instr.isCreation = false

theorem makesNoObject_iff {whole : Instr} :
    MakesNoObject whole ↔
      whole.isCreation = false ∧ ∀ part ∈ whole.operands, MakesNoObject part :=
  everywhere_iff

@[simp] theorem makesNoObject_call {kind : CallKind} {method : MethodRef} {args : List Instr} :
    MakesNoObject (call kind method args) ↔
      kind ≠ .construct ∧ ∀ arg ∈ args, MakesNoObject arg := by
  rw [makesNoObject_iff]
  simp [isCreation, operands]

@[simp] theorem makesNoObject_addressOf {value : Instr} {type : Ty} :
    MakesNoObject (addressOf value type) ↔ MakesNoObject value := by
  rw [makesNoObject_iff]
  simp [isCreation, operands]

@[simp] theorem makesNoObject_leave {container : Container} {value : Instr} :
    MakesNoObject (leave container value) ↔ MakesNoObject value := by
  rw [makesNoObject_iff]
  simp [isCreation, operands]

@[simp] theorem makesNoObject_load (v : Variable) : MakesNoObject (load v) := by
  rw [makesNoObject_iff]
  simp [isCreation, operands]

@[simp] theorem makesNoObject_text (value : String) : MakesNoObject (text value) := by
  rw [makesNoObject_iff]
  simp [isCreation, operands]

@[simp] theorem makesNoObject_int (n : Int) : MakesNoObject (int n) := by
  rw [makesNoObject_iff]
  simp [isCreation, operands]

/-- Appending a value makes an object exactly if the value does. -/
theorem Appends.makesNoObject_iff {builder : Variable} {value instr : Instr}
    (appends : Appends builder value instr) : MakesNoObject instr ↔ MakesNoObject value := by
  obtain ⟨_, _, w, rfl, _⟩ := appends
  simp

end Instr

namespace Generated

/-- What is in front of a member at a position. -/
def separator (position : Nat) : String :=
  if position = 0 then "" else ", "

/-- Members from a position on. -/
def piecesFrom (position : Nat) (shown : List Shown) : List Piece :=
  (shown.zipIdx position).flatMap fun (member, position) =>
    written (separator position) ++ memberPieces member

theorem piecesFrom_succ (position : Nat) (shown : List Shown) :
    piecesFrom (position + 1) shown =
      if shown.isEmpty then [] else written ", " ++ membersPieces shown := by
  induction shown generalizing position with
  | nil => rfl
  | cons member rest ih =>
    have behind := ih (position + 1)
    simp only [piecesFrom] at behind
    simp only [piecesFrom, List.zipIdx_cons, List.flatMap_cons, behind]
    cases rest with
    | nil => simp [separator, membersPieces]
    | cons next rest => simp [separator, membersPieces, List.intercalate_cons_cons]

/-- A separator in front of every member but the first joins the members. -/
theorem piecesFrom_zero (shown : List Shown) : piecesFrom 0 shown = membersPieces shown := by
  cases shown with
  | nil => rfl
  | cons member rest =>
    have behind := piecesFrom_succ 0 rest
    simp only [piecesFrom] at behind
    simp only [piecesFrom, List.zipIdx_cons, List.flatMap_cons, behind]
    cases rest with
    | nil => simp [separator, membersPieces, written]
    | cons next rest => simp [separator, membersPieces, List.intercalate_cons_cons, written]

theorem makesNoObject_of_texts {builder : Variable} {texts : List String}
    {literals : List Instr}
    (cut : AppendsTexts builder texts literals) : ∀ instr ∈ literals, MakesNoObject instr := by
  induction cut with
  | nil => simp
  | cons appends _ ih =>
    exact List.forall_mem_cons.mpr ⟨appends.makesNoObject_iff.mpr (makesNoObject_text _), ih⟩

/-! ### Single instructions -/

/-- The receiver is in its variable. -/
def HoldsThis (vars : List Variable) (memory : Memory) : Prop :=
  ∀ v ∈ vars, v.kind = .parameter → v.index = -1 → memory.values v.id = some .receiver

section Execution

variable {callees : Callees} {fields : List Field} {methods : List Method} {vars : List Variable}
  {memory : Memory}

theorem execute_loadsVar {v : Variable} {instr : Instr} {datum : Datum} (loads : LoadsVar v instr)
    (holds : memory.values v.id = some datum) :
    execute callees instr memory = some (.goesOn datum, memory) := by
  obtain ⟨w, rfl, same⟩ := loads
  simp [same, holds]

theorem execute_loadsThis {instr : Instr} (loads : LoadsThis instr)
    (inScope : Everywhere (Dump.InScope fields methods vars) instr) (this : HoldsThis vars memory) :
    execute callees instr memory = some (.goesOn .receiver, memory) := by
  obtain ⟨v, rfl, kind, index⟩ := loads
  have declared : v ∈ vars := (inScope _ .self).ofVariable v rfl
  simp [this v declared kind index]

theorem find?_targets (tokens : (callees.methods.map fun method => method.token).Nodup)
    {getter : Method} (known : getter ∈ callees.methods) {method : MethodRef}
    (target : method.targets getter.toMember = true) :
    (callees.methods.find? fun other => method.targets other.toMember) = some getter := by
  apply (find?_eq_some_iff_of_key tokens _).mpr ⟨known, target⟩
  intro first second target target'
  -- a reference that targets a method holds its token
  unfold MethodRef.targets at target target'
  split at target
  next token given =>
    simp only [given, Bool.and_eq_true, beq_iff_eq] at target target'
    exact target.1.1.2.symm.trans target'.1.1.2
  · cases target

/-- The instruction gives the datum wherever the receiver is in its variable, and changes nothing. -/
def Gives (callees : Callees) (vars : List Variable) (instr : Instr) (datum : Datum) : Prop :=
  ∀ memory, HoldsThis vars memory → execute callees instr memory = some (.goesOn datum, memory)

/-- What an instruction shows of a member: what the getter of the member returns, or an object if it
makes one. -/
inductive Shows (property : Property) (instr : Instr) : Piece → Prop
  | value {getter : Method} (own : property.getter = some getter) (calls : MakesNoObject instr) :
      Shows property instr (.value getter)
  | object {getter : Method} {maker : MethodRef} (own : property.getter = some getter)
      (makes : ¬ MakesNoObject instr) : Shows property instr (.object maker)

/-- The datum of which a piece is the text. -/
def datumOf : Piece → Datum
  | .char c => .text [.char c]
  | .value method => .value method
  | .object maker => .object maker

theorem printed?_datumOf (piece : Piece) : (datumOf piece).printed? = some [piece] := by
  cases piece <;> rfl

section Values

variable {property : Property} {piece : Piece}

theorem Shows.congr {instr other : Instr} (shows : Shows property instr piece)
    (same : MakesNoObject instr ↔ MakesNoObject other) : Shows property other piece := by
  cases shows with
  | value own calls => exact .value own (same.mp calls)
  | object own makes => exact .object own (mt same.mpr makes)

theorem Shows.ofGetter_iff {instr : Instr} (shows : Shows property instr piece) :
    Shown.OfGetter (property, piece) ↔ MakesNoObject instr := by
  cases shows with
  | value own calls => simp [Shown.OfGetter, own, calls]
  | object own makes => simp [Shown.OfGetter, own, makes]

theorem Shows.ofGetter_or_ofObject {instr : Instr} (shows : Shows property instr piece) :
    Shown.OfGetter (property, piece) ∨ Shown.OfObject (property, piece) := by
  cases shows with
  | value own calls => exact .inl (by simp [Shown.OfGetter, own])
  | object own makes => exact .inr ⟨by simp [own], _, rfl⟩

/-- A call of the getter gives what the getter returns, unless it makes an object. -/
theorem exists_shows_callsGetter (tokens : (callees.methods.map fun method => method.token).Nodup)
    (known : ∀ getter, property.getter = some getter → getter ∈ callees.methods) {value : Instr}
    (calls : CallsGetter property value)
    (inScope : Everywhere (Dump.InScope fields methods vars) value) :
    ∃ piece, Shows property value piece ∧ Gives callees vars value (datumOf piece) := by
  cases calls with
  | call own target receiver =>
    next kind method self getter =>
      have ofSelf := (everywhere_iff.mp inScope).2 self (by simp [operands])
      have found := find?_targets tokens (known getter own) target
      have noneInSelf : MakesNoObject self := by
        obtain ⟨v, rfl, _⟩ := receiver
        exact makesNoObject_load v
      have onSelf (memory : Memory) (this : HoldsThis vars memory) :
          execute callees self memory = some (.goesOn .receiver, memory) :=
        execute_loadsThis receiver ofSelf this
      cases kind with
      | direct | virtual =>
        refine ⟨.value getter, .value own (by simpa using noneInSelf), fun memory this => ?_⟩
        simp [onSelf memory this, found, datumOf]
      | construct =>
        refine ⟨.object method, .object own (by simp), fun memory this => ?_⟩
        simp [onSelf memory this, datumOf]

/-- The text of what an instruction shows is shown as well, unless the call for it makes an object. -/
theorem Shows.exists_text {operand : Instr} (shows : Shows property operand piece)
    (gives : Gives callees vars operand (datumOf piece)) (kind : CallKind) {method : MethodRef}
    (name : method.name = "ToString") (instanceCall : method.isStatic = false) :
    ∃ piece datum, Shows property (call kind method [operand]) piece ∧
      datum.printed? = some [piece] ∧ Gives callees vars (call kind method [operand]) datum := by
  cases kind with
  | direct | virtual =>
    refine ⟨piece, .text [piece], shows.congr (by simp), rfl, fun memory this => ?_⟩
    cases shows <;> simp [gives memory this, datumOf, name, instanceCall]
  | construct =>
    obtain ⟨getter, own⟩ : ∃ getter, property.getter = some getter := by
      cases shows with
      | value own | object own => exact ⟨_, own⟩
    refine ⟨.object method, .object method, .object own (by simp), rfl, fun memory this => ?_⟩
    simp [gives memory this]

/-- A printed value shows its member, as it is or as a text. -/
theorem exists_shows_printsValue (tokens : (callees.methods.map fun method => method.token).Nodup)
    (known : ∀ getter, property.getter = some getter → getter ∈ callees.methods) {value : Instr}
    (prints : PrintsValue property value)
    (inScope : Everywhere (Dump.InScope fields methods vars) value) :
    ∃ piece datum, Shows property value piece ∧ datum.printed? = some [piece] ∧
      Gives callees vars value datum := by
  cases prints with
  | plain _ calls =>
    obtain ⟨piece, shows, gives⟩ := exists_shows_callsGetter tokens known calls inScope
    exact ⟨piece, datumOf piece, shows, printed?_datumOf piece, gives⟩
  | text name instanceCall calls =>
    next kind method value =>
      obtain ⟨piece, shows, gives⟩ := exists_shows_callsGetter tokens known calls
        ((everywhere_iff.mp inScope).2 value (by simp [operands]))
      exact shows.exists_text gives kind name instanceCall
  | boxed name instanceCall calls =>
    next kind method value type =>
      have inner := (everywhere_iff.mp inScope).2 (.addressOf value type) (by simp [operands])
      obtain ⟨piece, shows, gives⟩ := exists_shows_callsGetter tokens known calls
        ((everywhere_iff.mp inner).2 value (by simp [operands]))
      -- the address of a value stands for the value
      have atAddress : Shows property (.addressOf value type) piece := shows.congr (by simp)
      exact atAddress.exists_text (fun memory this => gives memory this) kind name instanceCall

end Values

theorem execute_store_makesBuilder {value : Instr} (makes : MakesBuilder value) (v : Variable) :
    execute callees (.store v value) memory = some (.goesOn .nothing,
      Memory.assign { memory with builders := memory.builders ++ [[]] } v
        (.builder memory.builders.length)) := by
  cases makes with
  | construct type => simp [type]

variable {builder : Variable} {position : Nat}
  (holds : memory.values builder.id = some (.builder position))

include holds

theorem execute_appends {value instr : Instr} (appends : Appends builder value instr)
    {datum : Datum} {pieces : List Piece}
    (executes : execute callees value memory = some (.goesOn datum, memory))
    (printed : datum.printed? = some pieces) :
    execute callees instr memory =
      some (.goesOn (.builder position), memory.append position pieces) := by
  cases appends with
  | call name onBuilder loaded =>
    next method receiver =>
    have onReceiver : execute callees receiver memory =
        some (.goesOn (.builder position), memory) := execute_loadsVar loaded holds
    simp [onReceiver, executes, name, onBuilder, printed, Memory.append]

theorem execute_appendsText {text : String} {instr : Instr}
    (appends : Appends builder (.text text) instr) :
    execute callees instr memory =
      some (.goesOn (.builder position), memory.append position (written text)) := by
  have ofText : execute callees (.text text) memory =
      some (.goesOn (.text (written text)), memory) := by rw [execute]
  exact execute_appends holds appends ofText rfl

/-- The members step appends what the printing of the members appends, and a blank behind it if
there is anything. -/
theorem execute_printsMembers {shown : List Shown}
    (printing : ∀ builders, callees.printMembers position builders =
      some (.int (if shown.isEmpty then 0 else 1),
        builders.modify position (· ++ membersPieces shown)))
    (this : HoldsThis vars memory) {instr : Instr} (prints : PrintsMembers builder instr)
    (inScope : Everywhere (Dump.InScope fields methods vars) instr) :
    ∃ datum, execute callees instr memory =
      some (.goesOn datum, memory.append position
        (membersPieces shown ++ if shown.isEmpty then [] else written " ")) := by
  cases prints with
  | branch name receiver passed separates whole =>
    next method self argument onTrue blank =>
    have ofCall := (everywhere_iff.mp inScope).2 (.call .virtual method [self, argument])
      (by simp [operands])
    have onSelf : execute callees self memory = some (.goesOn .receiver, memory) :=
      execute_loadsThis receiver ((everywhere_iff.mp ofCall).2 self (by simp [operands])) this
    have onArgument : execute callees argument memory =
        some (.goesOn (.builder position), memory) := execute_loadsVar passed holds
    let after := memory.append position (membersPieces shown)
    have called : execute callees (.call .virtual method [self, argument]) memory =
        some (.goesOn (.int (if shown.isEmpty then 0 else 1)), after) := by
      simp [onSelf, onArgument, name, printing, after, Memory.append]
    have holds' : after.values builder.id = some (.builder position) := holds
    rw [execute_branch called]
    -- the printer returns zero exactly if there is no member, and then no blank is appended
    cases shown with
    | nil => exact ⟨.nothing, by simp [after]⟩
    | cons member others =>
      have blanks : execute callees blank after =
          some (.goesOn (.builder position), after.append position (written " ")) :=
        execute_appendsText holds' separates
      rcases whole with rfl | rfl
      · exact ⟨.builder position, by simp [blanks, after]⟩
      · exact ⟨.nothing, by simp [blanks, after]⟩

theorem executeAll_readsText {returned : Instr} (reads : ReadsText builder returned)
    {text : List Piece} (found : memory.builders[position]? = some text) (rest : List Instr) :
    executeAll callees (.leave .body returned :: rest) memory =
      some (.returns (.text text), memory) := by
  cases reads with
  | call name loaded =>
    next method receiver =>
    have onReceiver : execute callees receiver memory =
        some (.goesOn (.builder position), memory) := execute_loadsVar loaded holds
    simp [onReceiver, name, found]

/-! ### Members -/

/-- A text is appended as a whole, however it is cut into literals. -/
theorem executeAll_literals {texts : List String} {literals : List Instr}
    (cut : AppendsTexts builder texts literals) (rest : List Instr) :
    executeAll callees (literals ++ rest) memory =
      executeAll callees rest (memory.append position (written (String.join texts))) := by
  induction cut generalizing memory with
  | nil => simp [written]
  | cons appends others ih =>
    next text literal texts literals =>
    rw [List.cons_append, executeAll_cons (execute_appendsText holds appends),
      ih (by simpa using holds)]
    simp [String.join_cons, written_append]

end Execution

section Segments

variable {callees : Callees} {fields : List Field} {methods : List Method} {vars : List Variable}
  {builder : Variable} (tokens : (callees.methods.map fun method => method.token).Nodup)

/-- The instructions append these pieces to the string builder in the variable, and leave the
variables as they are. -/
def AppendsPieces (callees : Callees) (vars : List Variable) (builder : Variable)
    (instructions : List Instr) (pieces : List Piece) : Prop :=
  ∀ memory position rest, HoldsThis vars memory →
    memory.values builder.id = some (.builder position) →
    executeAll callees (instructions ++ rest) memory =
      executeAll callees rest (memory.append position pieces)

include tokens

/-- A segment appends its member with what separates it, and shows what the getter returns exactly if
it makes no object. -/
theorem exists_appends_member {property : Property} {index : Nat} {segment : List Instr}
    (known : ∀ getter, property.getter = some getter → getter ∈ callees.methods)
    (prints : PrintsMember builder (property, index) segment)
    (inScope : ∀ instr ∈ segment, Everywhere (Dump.InScope fields methods vars) instr) :
    ∃ shown : Shown, shown.1 = property ∧ (shown.OfGetter ∨ shown.OfObject) ∧
      (shown.OfGetter ↔ ∀ instr ∈ segment, MakesNoObject instr) ∧
      AppendsPieces callees vars builder segment
        (written (separator index) ++ memberPieces shown) := by
  cases prints with
  | segment nonempty cut label appends prints =>
    next literals texts last value =>
      have ofValue : Everywhere (Dump.InScope fields methods vars) value := by
        have ofLast := inScope last (by simp)
        cases appends
        exact (everywhere_iff.mp ofLast).2 value (by simp [operands])
      obtain ⟨piece, datum, shows, printed, gives⟩ :=
        exists_shows_printsValue tokens known prints ofValue
      refine ⟨(property, piece), rfl, shows.ofGetter_or_ofObject, ?_, ?_⟩
      · -- only the value can make an object, as the label is made of literals
        rw [shows.ofGetter_iff, List.forall_mem_append, List.forall_mem_singleton,
          appends.makesNoObject_iff, and_iff_right (makesNoObject_of_texts cut)]
      · intro memory position rest this holds
        -- the label changes a string builder only, so the value is found as before
        let labelled := memory.append position (written (String.join texts))
        have kept : HoldsThis vars labelled := this
        have holds' : labelled.values builder.id = some (.builder position) := holds
        have executesLast := execute_appends holds' appends (gives labelled kept) printed
        rw [List.append_assoc, executeAll_literals holds cut, List.singleton_append,
          executeAll_cons executesLast, Memory.append_append, label]
        simp [memberPieces, written_append, separator]

/-- Segment by segment, the members are appended with what separates them. -/
theorem exists_appends_members {printed : List Property} {start : Nat}
    {segments : List (List Instr)}
    (known : ∀ property ∈ printed, ∀ getter, property.getter = some getter →
      getter ∈ callees.methods)
    (prints : List.Forall₂ (PrintsMember builder) (printed.zipIdx start) segments)
    (inScope : ∀ instr ∈ segments.flatten, Everywhere (Dump.InScope fields methods vars) instr) :
    ∃ shown : List Shown, shown.map Prod.fst = printed ∧
      (∀ member ∈ shown, member.OfGetter ∨ member.OfObject) ∧
      ((∀ member ∈ shown, member.OfGetter) ↔ ∀ instr ∈ segments.flatten, MakesNoObject instr) ∧
      AppendsPieces callees vars builder segments.flatten (piecesFrom start shown) := by
  induction printed generalizing start segments with
  | nil =>
    cases prints
    exact ⟨[], rfl, by simp, by simp, fun memory position rest _ _ => by simp [piecesFrom]⟩
  | cons property others ih =>
    rw [List.zipIdx_cons] at prints
    cases prints with
    | cons first behind =>
      next segment segments =>
        rw [List.flatten_cons, List.forall_mem_append] at inScope
        rw [List.forall_mem_cons] at known
        obtain ⟨member, rfl, shows, ofGetter, appends⟩ :=
          exists_appends_member tokens known.1 first inScope.1
        obtain ⟨shown, rfl, showsRest, ofGetters, appendsRest⟩ := ih known.2 behind inScope.2
        refine ⟨member :: shown, rfl, List.forall_mem_cons.mpr ⟨shows, showsRest⟩, ?_, ?_⟩
        · rw [List.forall_mem_cons, List.flatten_cons, List.forall_mem_append, ofGetter, ofGetters]
        · intro memory position rest this holds
          -- what is appended leaves the variables as they are
          let next := memory.append position (written (separator start) ++ memberPieces member)
          have kept : HoldsThis vars next := this
          have holds' : next.values builder.id = some (.builder position) := holds
          rw [List.flatten_cons, List.append_assoc, appends memory position _ this holds,
            appendsRest next position rest kept holds', Memory.append_append]
          simp [piecesFrom]

end Segments

/-! ### Bodies -/

section Bodies

variable {callees : Callees} {fields : List Field} {methods : List Method} {body : Body}
  (declared : Dump.Declared body.vars)
  (inScope : ∀ instr ∈ body.instructions, Everywhere (Dump.InScope fields methods body.vars) instr)

include declared

/-- At the start, the variables of parameters hold the receiver and the arguments. -/
theorem entry_of_mem {v : Variable} (known : v ∈ body.vars) (arguments : List Datum) :
    body.entry arguments v.id =
      if v.isThis then some .receiver
      else if v.kind == .parameter then arguments[v.index.toNat]?
      else none := by
  have distinct : (body.vars.map Variable.id).Nodup := declared.numbers ▸ List.nodup_range
  have found : (body.vars.find? fun w => w.id == v.id) = some v := by
    apply (find?_eq_some_iff_of_key distinct _).mpr ⟨known, beq_self_eq_true v.id⟩
    intro first second same same'
    exact (beq_iff_eq.mp same).trans (beq_iff_eq.mp same').symm
  simp [Body.entry, found]

theorem holdsThis_entry (arguments : List Datum) (builders : Builders) :
    HoldsThis body.vars ⟨body.entry arguments, builders⟩ := by
  intro v known kind index
  simp [entry_of_mem declared known, Variable.isThis, kind, index]

/-- An assignment to a local leaves the receiver in its variable. -/
theorem holdsThis_assign {v : Variable} (listed : v ∈ body.vars) (isLocal : v.kind = .localSlot)
    {memory : Memory} (this : HoldsThis body.vars memory) (datum : Datum) :
    HoldsThis body.vars (memory.assign v datum) := by
  intro w known kind index
  have other : w.id ≠ v.id := by
    intro same
    obtain rfl := declared.eq_of_id known listed same
    rw [isLocal] at kind
    cases kind
  simpa [Memory.assign, other] using this w known kind index

include inScope

variable (callees) in
/-- Printing the members of a root record appends them, and tells whether there are any. What is shown
of them is what their getters return exactly if the body makes no object before it returns. -/
theorem run_printsRecord {builder : Variable} {printed : List Property}
    (tokens : (callees.methods.map fun method => method.token).Nodup)
    (known : ∀ property ∈ printed, ∀ getter, property.getter = some getter →
      getter ∈ callees.methods)
    (parameter : body.IsParameter 0 builder)
    (prints : PrintsRecord builder false printed body.instructions) :
    ∃ shown : List Shown, shown.map Prod.fst = printed ∧
      (∀ member ∈ shown, member.OfGetter ∨ member.OfObject) ∧
      ((∀ member ∈ shown, member.OfGetter) ↔
        ∀ instr ∈ body.upToReturn.instructions, MakesNoObject instr) ∧
      ∀ position builders, body.run callees [.builder position] builders =
        some (.int (if shown.isEmpty then 0 else 1),
          builders.modify position (· ++ membersPieces shown)) := by
  obtain ⟨_, segments, rest, split, ⟨⟩, prints⟩ := prints
  have isParameter : builder ∈ body.vars ∧ builder.kind = .parameter ∧ builder.index = 0 := by
    have member : builder ∈ body.vars.filter _ := parameter ▸ List.mem_singleton_self builder
    simpa using member
  obtain ⟨listed, kind, index⟩ := isParameter
  have ofSegments : ∀ instr ∈ segments.flatten,
      Everywhere (Dump.InScope fields methods body.vars) instr :=
    fun instr member => inScope instr (by simp [split, member])
  obtain ⟨shown, rfl, shows, ofGetters, appends⟩ :=
    exists_appends_members tokens known prints ofSegments
  have instructions : body.instructions = segments.flatten
      ++ .leave .body (.int (if shown.isEmpty then 0 else 1)) :: rest := by
    simpa using split
  refine ⟨shown, rfl, shows, ?_, fun position builders => ?_⟩
  · -- up to the return there are the segments and the return of a number
    rw [ofGetters, Body.upToReturn, instructions,
      upToReturn_append (unreturned_of_members prints), List.forall_mem_append,
      List.forall_mem_singleton, makesNoObject_leave, and_iff_left (makesNoObject_int _)]
  · -- on entry, the parameter holds the builder that is handed in
    have holds : (Memory.mk (body.entry [.builder position]) builders).values builder.id =
        some (.builder position) := by
      simp [entry_of_mem declared listed, Variable.isThis, kind, index]
    rw [Body.run, instructions,
      appends _ position _ (holdsThis_entry declared _ builders) holds, piecesFrom_zero]
    simp [Memory.append]

/-- The text of a record: its name and, between braces, what the printing of the members appends. -/
theorem run_writesRecord {name : String} {shown : List Shown}
    (printing : ∀ position builders, callees.printMembers position builders =
      some (.int (if shown.isEmpty then 0 else 1),
        builders.modify position (· ++ membersPieces shown)))
    (writes : WritesRecord name body.instructions)
    (isLocal : ∀ v value, body.instructions[0]? = some (.store v value) → v.kind = .localSlot)
    (step : ∃ condition onTrue, body.instructions[3]? = some (.branch condition onTrue .nop)) :
    body.run callees [] [] =
      some (.text (recordPieces name shown), [recordPieces name shown]) := by
  generalize instructions : body.instructions = all at writes isLocal step inScope
  obtain ⟨makes, ofName, opens, part, closes, reads⟩ := writes
  next builder value head opening close returned members rest =>
  cases part with
  | absent =>
    obtain ⟨condition, onTrue, found⟩ := step
    obtain rfl : close = .branch condition onTrue .nop := by simpa using found
    cases closes
  | step prints =>
    next instr =>
    let start : Memory := Memory.assign ⟨body.entry [], [[]]⟩ builder (.builder 0)
    have stores : execute callees (.store builder value) ⟨body.entry [], []⟩ =
        some (.goesOn .nothing, start) := execute_store_makesBuilder makes builder
    have holds : start.values builder.id = some (.builder 0) := by
      simp [start, Memory.assign]
    have listed : builder ∈ body.vars :=
      (inScope (.store builder value) (by simp) _ .self).ofVariable builder rfl
    have this : HoldsThis body.vars start :=
      holdsThis_assign declared listed (isLocal builder value rfl)
        (holdsThis_entry declared [] [[]]) _
    -- the string builder stays in its variable, whatever is appended to it
    have keeps (pieces : List Piece) :
        (start.append 0 pieces).values builder.id = some (.builder 0) := holds
    have literal {text : String} {instr : Instr} (appends : Appends builder (.text text) instr)
        (before : List Piece) : execute callees instr (start.append 0 before) =
          some (.goesOn (.builder 0), start.append 0 (before ++ written text)) := by
      rw [execute_appendsText (keeps before) appends, Memory.append_append]
    obtain ⟨datum, membersStep⟩ := execute_printsMembers (keeps (written name ++ written " \x7b "))
      (printing 0) this prints (inScope instr (by simp))
    rw [Memory.append_append] at membersStep
    have returns (text : List Piece) : executeAll callees (.leave .body returned :: rest)
        (start.append 0 text) = some (.returns (.text text), start.append 0 text) :=
      executeAll_readsText (keeps text) reads rfl rest
    have whole : executeAll callees body.instructions ⟨body.entry [], []⟩ =
        some (.returns (.text (recordPieces name shown)),
          start.append 0 (recordPieces name shown)) := by
      rw [instructions, executeAll_cons stores, ← start.append_nil 0,
        executeAll_cons (literal ofName _), List.nil_append, executeAll_cons (literal opens _),
        List.singleton_append, executeAll_cons membersStep, executeAll_cons (literal closes _),
        returns]
      simp [recordPieces]
    rw [Body.run, whole]
    rfl

end Bodies

end Generated

end MemberOrigin
