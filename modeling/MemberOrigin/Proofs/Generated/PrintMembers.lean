import Mathlib.Data.List.Forall2
import MemberOrigin.Generated.PrintMembers
import MemberOrigin.Proofs.Code.Forms
import MemberOrigin.Proofs.Generated.Signature
import MemberOrigin.Proofs.Record.Evaluation

/-!
# Recognition of generated member printing

## Main result

`printMembers_iff`: a method is recognised exactly if its signature is the synthesized one and its
body falls into the printing of the base, one segment for each printable member, and the return of
whether anything was printed.

## Proof strategy

Literals are consumed greedily, but a printed value is a call and never a literal. The literals in
front of a value are therefore the ones of its segment, however the label was cut, and induction on
the members gives the segments. Behind its precondition, the query is one test of the body that is
there (`eval_printMembers`), and the test is compared with the form part by part.
-/
namespace MemberOrigin.Generated

open Instr

/-! ### The synthesized shape -/

/-- Printing the members of the base, with a separator behind them if there are any. -/
inductive PrintsBase (builder : Variable) : Instr → Prop
  | branch {kind : CallKind} {method : MethodRef} {self argument onTrue separator : Instr}
      (called : kind ≠ .construct) (name : method.name = printMembersName)
      (receiver : LoadsThis self) (passed : LoadsVar builder argument)
      (separates : Appends builder (.text ", ") separator)
      (whole : onTrue = separator ∨ onTrue = .block [separator]) :
      PrintsBase builder (.branch (.call kind method [self, argument]) onTrue .nop)

/-- What stands in front of the members: the printing of the base, in a derived record. -/
inductive BasePart (builder : Variable) : Bool → List Instr → Prop
  | root : BasePart builder false []
  | derived {base : Instr} (prints : PrintsBase builder base) : BasePart builder true [base]

/-- A call of the getter of the property on the receiver. -/
inductive CallsGetter (property : Property) : Instr → Prop
  | call {kind : CallKind} {method : MethodRef} {self : Instr} {getter : Method}
      (own : property.getter = some getter) (target : method.targets getter.toMember = true)
      (receiver : LoadsThis self) : CallsGetter property (.call kind method [self])

/-- The value of a property as it is appended: the call of its getter, or the text of that call,
with or without a temporary that holds the value. -/
inductive PrintsValue (property : Property) : Instr → Prop
  | plain {kind : CallKind} {method : MethodRef} {args : List Instr}
      (noText : ¬ (method.name = "ToString" ∧ method.isStatic = false))
      (calls : CallsGetter property (.call kind method args)) :
      PrintsValue property (.call kind method args)
  | text {kind : CallKind} {method : MethodRef} {value : Instr} (name : method.name = "ToString")
      (instanceCall : method.isStatic = false) (calls : CallsGetter property value) :
      PrintsValue property (.call kind method [value])
  | boxed {kind : CallKind} {method : MethodRef} {value : Instr} {type : Ty}
      (name : method.name = "ToString") (instanceCall : method.isStatic = false)
      (calls : CallsGetter property value) :
      PrintsValue property (.call kind method [.addressOf value type])

/-- Instructions that append these literals. -/
abbrev AppendsTexts (builder : Variable) : List String → List Instr → Prop :=
  List.Forall₂ fun text literal => Appends builder (.text text) literal

/-- The segment of the member at a position: literals that make up its label, and its value. -/
inductive PrintsMember (builder : Variable) : Property × Nat → List Instr → Prop
  | segment {property : Property} {position : Nat} {literals : List Instr} {texts : List String}
      {last value : Instr} (some : literals ≠ []) (cut : AppendsTexts builder texts literals)
      (label : String.join texts = (if position = 0 then "" else ", ") ++ property.name ++ " = ")
      (appends : Appends builder value last) (prints : PrintsValue property value) :
      PrintsMember builder (property, position) (literals ++ [last])

/-- A body that prints these members. What stands behind the return does not matter. -/
def PrintsRecord (builder : Variable) (isInherited : Bool) (printed : List Property)
    (instructions : List Instr) : Prop :=
  ∃ base segments rest,
    instructions = base ++ segments.flatten
      ++ [.leave .body (.int (if printed.isEmpty then 0 else 1))] ++ rest ∧
    BasePart builder isInherited base ∧
    List.Forall₂ (PrintsMember builder) printed.zipIdx segments

/-- The `PrintMembers` that the compiler synthesizes for an analysed record. -/
structure SynthesizedPrintMembers (analysis : Analysis) (bodies : Method → Option Body)
    (method : Method) : Prop where
  signature : OneParameterMethod method
  shape : ∃ order body builder,
    analysis.memberOrder = some order ∧
    (method.token ≠ 0 ∧ method.hasBody = true ∧ bodies method = some body) ∧
    body.IsParameter 0 builder ∧
    builder.type.isKnown .stringBuilder = true ∧
    PrintsRecord builder analysis.isInherited
      (order.filter fun property => !property.isStatic && property.name != equalityContractName
        && !property.isExplicitImplementation) body.instructions

/-! ### The base -/

theorem appendedText_eq_some_iff {builder : Variable} {instr : Instr} {text : String} :
    (instr.appended? builder).bind Instr.text? = some text ↔
      Appends builder (.text text) instr := by
  simp [Option.bind_eq_some_iff, appended?_eq_some_iff, text?_eq_some_iff]

theorem isPrintCall_iff {builder : Variable} {method : MethodRef} {args : List Instr} :
    isPrintCall builder method args = true ↔
      ∃ self argument, args = [self, argument] ∧ method.name = printMembersName ∧
        LoadsThis self ∧ LoadsVar builder argument := by
  constructor
  · intro accepted
    -- exactly two arguments are accepted: the receiver and the builder
    unfold isPrintCall at accepted
    split at accepted
    next self argument =>
      simp only [Bool.and_eq_true, beq_iff_eq, loadsThis_iff, loads_iff] at accepted
      obtain ⟨⟨name, receiver⟩, passed⟩ := accepted
      exact ⟨self, argument, rfl, name, receiver, passed⟩
    · cases accepted
  · rintro ⟨self, argument, rfl, name, receiver, passed⟩
    simp [isPrintCall, name, loadsThis_iff.mpr receiver, loads_iff.mpr passed]

/-- What appends a literal may stand in a block of its own. -/
theorem unwrap_appendedText_iff {builder : Variable} {whole : Instr} {text : String} :
    (whole.unwrap.appended? builder).bind Instr.text? = some text ↔
      ∃ instr, Appends builder (.text text) instr ∧ (whole = instr ∨ whole = .block [instr]) := by
  rw [appendedText_eq_some_iff]
  constructor
  · intro appends
    refine ⟨whole.unwrap, appends, ?_⟩
    unfold unwrap
    split
    · exact .inr rfl
    · exact .inl rfl
  · rintro ⟨instr, appends, rfl | rfl⟩
    · cases appends
      exact .call ‹_› ‹_› ‹_›
    · exact appends

theorem isBaseCall_iff {builder : Variable} {instr : Instr} :
    isBaseCall builder instr = true ↔ PrintsBase builder instr := by
  constructor
  · intro accepted
    unfold isBaseCall at accepted
    split at accepted
    -- the call is the condition of a branch that appends the separator
    next kind method args onTrue =>
      simp only [Bool.and_eq_true, bne_iff_ne, beq_iff_eq, isPrintCall_iff,
        unwrap_appendedText_iff] at accepted
      obtain ⟨⟨called, self, argument, rfl, name, receiver, passed⟩, instr, separates, whole⟩ :=
        accepted
      exact .branch called name receiver passed separates whole
    · cases accepted
  · rintro ⟨called, name, receiver, passed, separates, whole⟩
    simp only [isBaseCall, Bool.and_eq_true, bne_iff_ne, beq_iff_eq, isPrintCall_iff,
      unwrap_appendedText_iff]
    exact ⟨⟨called, _, _, rfl, name, receiver, passed⟩, _, separates, whole⟩

theorem behindBase?_eq_some_iff {isInherited : Bool} {builder : Variable}
    {instructions rest : List Instr} :
    behindBase? isInherited builder instructions = some rest ↔
      ∃ base, instructions = base ++ rest ∧ BasePart builder isInherited base := by
  -- only the body of a derived record starts with the call of its base
  cases isInherited with
  | false =>
    constructor
    · intro found
      cases found
      exact ⟨[], rfl, .root⟩
    · rintro ⟨base, rfl, ⟨⟩⟩
      rfl
  | true =>
    constructor
    · intro found
      cases instructions with
      | nil => cases found
      | cons base others =>
        simp only [behindBase?, if_true, Option.ite_none_right_eq_some, Option.some.injEq]
          at found
        obtain ⟨prints, rfl⟩ := found
        exact ⟨[base], rfl, .derived (isBaseCall_iff.mp prints)⟩
    · rintro ⟨base, rfl, ⟨⟩⟩
      next prints => simp [behindBase?, isBaseCall_iff.mpr prints]

/-! ### Printed values -/

theorem isGetterCall_iff {property : Property} {instr : Instr} :
    isGetterCall property instr = true ↔ CallsGetter property instr := by
  constructor
  · intro accepted
    unfold isGetterCall at accepted
    split at accepted
    · simp only [Bool.and_eq_true, Option.any_eq_true, loadsThis_iff] at accepted
      obtain ⟨⟨getter, own, target⟩, receiver⟩ := accepted
      exact .call own target receiver
    · cases accepted
  · rintro ⟨own, target, receiver⟩
    simp [isGetterCall, own, target, loadsThis_iff.mpr receiver]

theorem isPrintedValue_iff {property : Property} {value : Instr} :
    isPrintedValue property value = true ↔ PrintsValue property value := by
  constructor
  · intro accepted
    simp only [isPrintedValue, Option.any_eq_true, isGetterCall_iff] at accepted
    obtain ⟨operand, found, calls⟩ := accepted
    unfold printedOperand? at found
    split at found
    next kind method args =>
      split at found
      next isText =>
        simp only [Bool.and_eq_true, beq_iff_eq, Bool.not_eq_true'] at isText
        split at found
        · cases found
          exact .boxed isText.1 isText.2 calls
        · cases found
          exact .text isText.1 isText.2 calls
        · cases found
      next noText =>
        cases found
        simp only [Bool.and_eq_true, beq_iff_eq, Bool.not_eq_true'] at noText
        exact .plain noText calls
    next noCall =>
      cases found
      cases calls
      exact absurd rfl (noCall _ _ _)
  · intro prints
    simp only [isPrintedValue, Option.any_eq_true, isGetterCall_iff]
    cases prints with
    | plain noText calls =>
      have kept (kind : CallKind) (args : List Instr) :
          printedOperand? (.call kind _ args) = some (.call kind _ args) :=
        if_neg (by simpa using noText)
      exact ⟨_, kept _ _, calls⟩
    | text name instanceCall calls =>
      refine ⟨_, ?_, calls⟩
      -- the receiver is a call, so it is not taken for the address of a temporary
      cases calls
      simp [printedOperand?, name, instanceCall]
    | boxed name instanceCall calls =>
      exact ⟨_, by simp [printedOperand?, name, instanceCall], calls⟩

/-- A printed value is a call, so its append is never taken for a literal. -/
theorem PrintsValue.text?_eq_none {property : Property} {value : Instr}
    (prints : PrintsValue property value) : value.text? = none := by
  cases prints <;> rfl

/-! ### Literals in front of a value -/

/-- The literals that are taken stand at the start. -/
theorem appendsTexts_leadingLiterals (builder : Variable) (instructions : List Instr) :
    ∃ literals, instructions = literals ++ (leadingLiterals builder instructions).2 ∧
      AppendsTexts builder (leadingLiterals builder instructions).1 literals := by
  induction instructions with
  | nil => exact ⟨[], rfl, .nil⟩
  | cons instr rest ih =>
    obtain ⟨literals, split, cut⟩ := ih
    rw [leadingLiterals]
    split
    next text found =>
      refine ⟨instr :: literals, ?_, .cons (appendedText_eq_some_iff.mp found) cut⟩
      rw [List.cons_append, ← split]
    · exact ⟨[], rfl, .nil⟩

/-- All literals are taken up to an instruction that appends none, however many there are. -/
theorem leadingLiterals_append {builder : Variable} {texts : List String} {literals : List Instr}
    {last : Instr} (cut : AppendsTexts builder texts literals)
    (ends : (last.appended? builder).bind Instr.text? = none) (rest : List Instr) :
    leadingLiterals builder (literals ++ last :: rest) = (texts, last :: rest) := by
  induction cut with
  | nil => simp [leadingLiterals, ends]
  | cons appends _ ih =>
    simp [leadingLiterals, appendedText_eq_some_iff.mpr appends, ih]

/-! ### The members -/

/-- One step over the members goes on behind the segment of the first. -/
theorem printsMembers_cons_iff {builder : Variable} {property : Property}
    {members : List Property} {position : Nat} {instructions : List Instr} :
    printsMembers builder (position == 0) (property :: members) instructions = true ↔
      ∃ segment rest, instructions = segment ++ rest ∧
        PrintsMember builder (property, position) segment ∧
        printsMembers builder false members rest = true := by
  constructor
  · intro accepted
    obtain ⟨literals, split, cut⟩ := appendsTexts_leadingLiterals builder instructions
    -- the result of the greedy run is generalized, so that both facts speak of the same texts
    rw [printsMembers] at accepted
    revert accepted split cut
    generalize leadingLiterals builder instructions = taken
    obtain ⟨texts, others⟩ := taken
    intro accepted split cut
    simp only [Bool.and_eq_true, Bool.not_eq_true', List.isEmpty_eq_false_iff, beq_iff_eq]
      at accepted
    obtain ⟨⟨some, label⟩, goesOn⟩ := accepted
    cases others with
    | nil => cases goesOn
    | cons last rest =>
      simp only [Bool.and_eq_true, Option.any_eq_true, appended?_eq_some_iff,
        isPrintedValue_iff] at goesOn
      obtain ⟨⟨value, appends, prints⟩, goesOn⟩ := goesOn
      refine ⟨literals ++ [last], rest, by simp [split], ?_, goesOn⟩
      refine .segment ?_ cut (by simpa [Generated.label] using label) appends prints
      rintro rfl
      cases cut
      exact some rfl
  · rintro ⟨_, rest, rfl, ⟨some, cut, label, appends, prints⟩, goesOn⟩
    next literals texts last value =>
      -- the value ends the run of literals: it is a call, and never a literal itself
      have ends : (last.appended? builder).bind Instr.text? = none := by
        simp [appended?_eq_some_iff.mpr appends, prints.text?_eq_none]
      have taken := leadingLiterals_append cut ends rest
      have texts_ne : texts ≠ [] := by
        rintro rfl
        cases cut
        exact some rfl
      simp [printsMembers, taken, texts_ne, label, Generated.label, goesOn,
        appended?_eq_some_iff.mpr appends, isPrintedValue_iff.mpr prints]

/-- Printing from a position on: a segment for each member that is left, and the return. -/
theorem printsMembers_iff (builder : Variable) (members : List Property) (position : Nat)
    (instructions : List Instr) :
    printsMembers builder (position == 0) members instructions = true ↔
      ∃ segments rest,
        instructions = segments.flatten
          ++ .leave .body (.int (if position + members.length = 0 then 0 else 1)) :: rest ∧
        List.Forall₂ (PrintsMember builder) (members.zipIdx position) segments := by
  -- the position is generalized because it moves on with the members
  induction members generalizing position instructions with
  | nil =>
    have returns (value : Int) :
        (instructions.head?.bind Instr.returned?).any (Instr.isInt value) = true ↔
          ∃ rest, instructions = .leave .body (.int value) :: rest := by
      cases instructions <;>
        simp [Option.any_eq_true, returned?_eq_some_iff, isInt_iff]
    simp [printsMembers, returns]
  | cons property members ih =>
    have next_ne : (position + 1 == 0) = false := rfl
    rw [printsMembers_cons_iff, ← next_ne]
    simp only [ih, List.zipIdx_cons, List.forall₂_cons_left_iff]
    constructor
    · rintro ⟨segment, _, rfl, prints, segments, rest, rfl, others⟩
      refine ⟨segment :: segments, rest, ?_, segment, segments, prints, others, rfl⟩
      simp [Nat.add_right_comm]
    · rintro ⟨_, rest, rfl, segment, segments, prints, others, rfl⟩
      refine ⟨segment, _, ?_, prints, segments, rest, rfl, others⟩
      simp [Nat.add_right_comm]

theorem prints_iff {builder : Variable} {isInherited : Bool} {printed : List Property}
    {instructions : List Instr} :
    (∃ rest, behindBase? isInherited builder instructions = some rest ∧
        printsMembers builder true printed rest = true) ↔
      PrintsRecord builder isInherited printed instructions := by
  -- no member stands in front of the first one, so printing starts at position zero
  have start (instructions : List Instr) :=
    printsMembers_iff builder printed 0 instructions
  simp only [beq_self_eq_true, Nat.zero_add] at start
  have count : (if printed.length = 0 then (0 : Int) else 1)
      = if printed.isEmpty then 0 else 1 := by
    simp
  simp only [behindBase?_eq_some_iff, start, count, PrintsRecord]
  constructor
  · rintro ⟨_, ⟨base, rfl, part⟩, segments, rest, rfl, prints⟩
    exact ⟨base, segments, rest, by simp, part, prints⟩
  · rintro ⟨base, segments, rest, rfl, part, prints⟩
    exact ⟨_, ⟨base, by simp, part⟩, segments, rest, rfl, prints⟩

/-! ### The method -/

/-- Whether a method has the synthesized form, given its body if that is available. -/
def acceptsPrintMembers (analysis : Analysis) (method : Method) (body? : Option Body) : Bool :=
  (method.parameters.length == 1 && method.isOverridable && method.hasNoAttributes) &&
    analysis.memberOrder.any fun order => body?.any fun body =>
      (body.parameter? 0).any fun builder => builder.type.isKnown .stringBuilder &&
        (behindBase? analysis.isInherited builder body.instructions).any
          (printsMembers builder true (order.filter isPrintable))

/-- It is accepted exactly if it has this form. -/
theorem synthesizedPrintMembers_iff {analysis : Analysis} {bodies : Method → Option Body}
    {method : Method} :
    SynthesizedPrintMembers analysis bodies method ↔
      acceptsPrintMembers analysis method (Query.bodyOf? bodies method) = true := by
  rw [acceptsPrintMembers, Bool.and_eq_true, oneParameterMethod_iff]
  simp only [Option.any_eq_true, Bool.and_eq_true, prints_iff, Body.parameter?_eq_some_iff,
    Query.bodyOf?_eq_some_iff]
  -- the parts are the same on both sides, only their order differs
  constructor
  · rintro ⟨signature, order, body, builder, known, available, parameter, type, prints⟩
    exact ⟨signature, order, known, body, available, builder, parameter, type, prints⟩
  · rintro ⟨signature, order, known, body, available, builder, parameter, type, prints⟩
    exact ⟨signature, order, body, builder, known, available, parameter, type, prints⟩

@[simp] theorem eval_checkpointIf {α : Type} (bodies : Method → Option Body) (condition : Bool)
    (next : Query α) : (checkpointIf condition next).eval bodies = next.eval bodies := by
  cases condition <;> rfl

/-- Behind its precondition, the query asks for one body and gives a verdict on it. -/
theorem eval_printMembers (analysis : Analysis) (bodies : Method → Option Body)
    (method : Method) :
    (printMembers analysis method).eval bodies =
      (analysis.expect (method.name == printMembersName)
        ("expected " ++ printMembersName ++ ", got " ++ method.name)
        (pure (acceptsPrintMembers analysis method (Query.bodyOf? bodies method)))).eval
        bodies := by
  apply Analysis.eval_expect_congr
  rw [Query.eval_pure, acceptsPrintMembers]
  -- a test that fails decides the verdict, whatever the later tests are
  split
  next signature =>
    rw [signature, Bool.true_and]
    cases analysis.memberOrder with
    | none => rfl
    | some order =>
      simp only [Query.eval_fetch_bind]
      cases Query.bodyOf? bodies method with
      | none => rfl
      | some body =>
        cases parameter : body.parameter? 0 with
        | none => simp [parameter]
        | some builder =>
          cases type : builder.type.isKnown .stringBuilder with
          | false => simp [parameter, type]
          | true =>
            cases behind : behindBase? analysis.isInherited builder body.instructions with
            | none => simp [parameter, type, behind]
            | some rest => simp [parameter, type, behind]
  next other => simp [other]

/-- Recognition always gives a verdict, and accepts exactly the synthesized form. -/
theorem printMembers_iff (analysis : Analysis) (unchecked : analysis.checked = false)
    (bodies : Method → Option Body) (method : Method) :
    ∃ verdict, (printMembers analysis method).eval bodies = .ok verdict ∧
      (verdict = true ↔ SynthesizedPrintMembers analysis bodies method) := by
  refine ⟨acceptsPrintMembers analysis method (Query.bodyOf? bodies method), ?_,
    synthesizedPrintMembers_iff.symm⟩
  rw [eval_printMembers, Analysis.expect_unchecked unchecked, Query.eval_pure]

/-- What is recognised has the synthesized form, whether preconditions are checked or not. -/
theorem synthesizedPrintMembers_of_printMembers {analysis : Analysis}
    {bodies : Method → Option Body} {method : Method}
    (recognised : (printMembers analysis method).eval bodies = .ok true) :
    SynthesizedPrintMembers analysis bodies method := by
  rw [eval_printMembers] at recognised
  have judged := Analysis.eval_of_expect recognised
  rw [Query.eval_pure, Except.ok.injEq] at judged
  exact synthesizedPrintMembers_iff.mpr judged

/-! ### Printing a record with one property -/

def pointPrintMembers : Method :=
  pointMethod "PrintMembers" 4 [⟨"builder", stringBuilder⟩] (.named "System" "Boolean" [] false)

/-- The label is cut in two, and the value is printed as a text. -/
def pointPrintBody : Body :=
  let builder : Variable := ⟨1, .parameter, 0, "builder", stringBuilder⟩
  let append (value : Instr) : Instr :=
    .call .virtual ⟨"Append", stringBuilder, false, false, none⟩ [.load builder, value]
  let value : Instr := .call .direct pointGetter.toRef [.load pointThis]
  { instructions :=
      [append (.text "X"), append (.text " = "),
        append (.call .virtual ⟨"ToString", intType, false, false, none⟩
          [.addressOf value intType]),
        .leave .body (.int 1)]
    vars := [pointThis, builder] }

/-- The printing of `Point` is recognised, and so it has the synthesized form. -/
theorem synthesizedPrintMembers_point :
    pointAnalysis.checked = false ∧
      (printMembers pointAnalysis pointPrintMembers).eval (fun _ => some pointPrintBody)
        = .ok true ∧
      SynthesizedPrintMembers pointAnalysis (fun _ => some pointPrintBody) pointPrintMembers := by
  obtain ⟨verdict, evaluated, accepts⟩ :=
    printMembers_iff pointAnalysis rfl (fun _ => some pointPrintBody)
      pointPrintMembers
  have recognised : (printMembers pointAnalysis pointPrintMembers).eval
      (fun _ => some pointPrintBody) = .ok true := by
    rfl
  rw [recognised] at evaluated
  cases evaluated
  exact ⟨rfl, recognised, accepts.mp rfl⟩

end MemberOrigin.Generated
