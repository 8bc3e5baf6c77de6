import MemberOrigin.Generated.ToString
import MemberOrigin.Proofs.Generated.PrintMembers

/-!
# Recognition of generated texts

## Main result

`toString_iff`: a `ToString` is recognised exactly if its signature is the synthesized one and its
body appends the name of the record, an opening brace, the members if that step is there, and a
closing brace to a new string builder, and returns the text of this builder.
-/
namespace MemberOrigin.Generated

open Instr

/-! ### The synthesized shape -/

/-- A new string builder. -/
inductive MakesBuilder : Instr → Prop
  | construct {method : MethodRef} (type : method.declaringType.isKnown .stringBuilder = true) :
      MakesBuilder (.call .construct method [])

/-- The text of the string builder in the variable. -/
inductive ReadsText (builder : Variable) : Instr → Prop
  | call {method : MethodRef} {receiver : Instr} (name : method.name = "ToString")
      (loaded : LoadsVar builder receiver) : ReadsText builder (.call .virtual method [receiver])

/-- Printing the members, with a blank behind them if there are any. -/
inductive PrintsMembers (builder : Variable) : Instr → Prop
  | branch {method : MethodRef} {self argument onTrue blank : Instr}
      (name : method.name = printMembersName) (receiver : LoadsThis self)
      (passed : LoadsVar builder argument) (separates : Appends builder (.text " ") blank)
      (whole : onTrue = blank ∨ onTrue = .block [blank]) :
      PrintsMembers builder (.branch (.call .virtual method [self, argument]) onTrue .nop)

/-- What stands between the braces: the printing of the members, or nothing. -/
inductive MembersPart (builder : Variable) : List Instr → Prop
  | absent : MembersPart builder []
  | step {instr : Instr} (prints : PrintsMembers builder instr) : MembersPart builder [instr]

/-- A body that writes the text of a record of this name. What stands behind the return does not
matter. -/
inductive WritesRecord (name : String) : List Instr → Prop
  | steps {builder : Variable} {value head opening close returned : Instr}
      {members rest : List Instr} (makes : MakesBuilder value)
      (ofName : Appends builder (.text name) head)
      (opens : Appends builder (.text " \x7b ") opening) (part : MembersPart builder members)
      (closes : Appends builder (.text "\x7d") close) (reads : ReadsText builder returned) :
      WritesRecord name (.store builder value :: head :: opening
        :: (members ++ close :: .leave .body returned :: rest))

/-- The `ToString` that the compiler synthesizes for an analysed record. -/
structure SynthesizedToString (analysis : Analysis) (bodies : Method → Option Body)
    (method : Method) : Prop where
  overrides : method.isOverride = true
  unsealed : method.isSealed = false
  attributes : method.attributes = []
  returnAttributes : method.returnAttributes = []
  shape : ∃ body, (method.token ≠ 0 ∧ method.hasBody = true ∧ bodies method = some body) ∧
    WritesRecord analysis.record.name body.instructions

/-! ### Steps -/

theorem isNewBuilder_iff {instr : Instr} : isNewBuilder instr = true ↔ MakesBuilder instr := by
  constructor
  · intro accepted
    unfold isNewBuilder at accepted
    split at accepted
    · exact .construct accepted
    · cases accepted
  · rintro ⟨type⟩
    exact type

theorem isBuilderText_iff {builder : Variable} {instr : Instr} :
    isBuilderText builder instr = true ↔ ReadsText builder instr := by
  constructor
  · intro accepted
    unfold isBuilderText at accepted
    split at accepted
    next method receiver =>
      simp only [Bool.and_eq_true, beq_iff_eq, loads_iff] at accepted
      exact .call accepted.1 accepted.2
    · cases accepted
  · rintro ⟨name, loaded⟩
    simp [isBuilderText, name, loads_iff.mpr loaded]

theorem appendsLiteral_iff {builder : Variable} {literal : String} {instr : Instr} :
    appendsLiteral builder literal instr = true ↔ Appends builder (.text literal) instr := by
  rw [appendsLiteral, beq_iff_eq, appendedText_eq_some_iff]

theorem branch?_eq_some_iff {instr condition onTrue : Instr} :
    instr.branch? = some (condition, onTrue) ↔ instr = .branch condition onTrue .nop := by
  constructor
  · intro found
    unfold branch? at found
    split at found
    · cases found
      rfl
    · cases found
  · rintro rfl
    rfl

theorem isMembersStep_iff {builder : Variable} {condition onTrue : Instr} :
    isMembersStep builder (condition, onTrue) = true ↔
      PrintsMembers builder (.branch condition onTrue .nop) := by
  constructor
  · intro accepted
    unfold isMembersStep at accepted
    split at accepted
    -- the call of the printer is the condition, and the blank stands in the branch
    next method args onTrue same =>
      cases same
      simp only [Bool.and_eq_true, isPrintCall_iff, appendsLiteral, beq_iff_eq,
        unwrap_appendedText_iff] at accepted
      obtain ⟨⟨self, argument, rfl, name, receiver, passed⟩, blank, separates, whole⟩ := accepted
      exact .branch name receiver passed separates whole
    · cases accepted
  · rintro ⟨name, receiver, passed, separates, whole⟩
    simp only [isMembersStep, Bool.and_eq_true, isPrintCall_iff, appendsLiteral, beq_iff_eq,
      unwrap_appendedText_iff]
    exact ⟨⟨_, _, rfl, name, receiver, passed⟩, _, separates, whole⟩

theorem endsText_iff {builder : Variable} {instructions : List Instr} :
    endsText builder instructions = true ↔
      ∃ close returned rest, instructions = close :: .leave .body returned :: rest ∧
        Appends builder (.text "\x7d") close ∧ ReadsText builder returned := by
  constructor
  · intro accepted
    unfold endsText at accepted
    split at accepted
    -- the closing brace is appended, and the next instruction returns the text
    next close last rest =>
      simp only [Bool.and_eq_true, Option.any_eq_true, appendsLiteral_iff, returned?_eq_some_iff,
        isBuilderText_iff] at accepted
      obtain ⟨closes, returned, rfl, reads⟩ := accepted
      exact ⟨close, returned, rest, rfl, closes, reads⟩
    · cases accepted
  · rintro ⟨close, returned, rest, rfl, closes, reads⟩
    simp [endsText, appendsLiteral_iff.mpr closes, returned?, isBuilderText_iff.mpr reads]

/-- An append is no branch, so the members step is taken exactly where it is there. -/
theorem printsRest_iff {builder : Variable} {instructions : List Instr} :
    printsRest builder instructions = true ↔
      ∃ members ending, instructions = members ++ ending ∧ MembersPart builder members ∧
        endsText builder ending = true := by
  constructor
  · intro accepted
    unfold printsRest at accepted
    split at accepted
    · cases accepted
    next instr rest =>
      split at accepted
      next step found =>
        obtain ⟨condition, onTrue⟩ := step
        obtain rfl := branch?_eq_some_iff.mp found
        rw [Bool.and_eq_true, isMembersStep_iff] at accepted
        exact ⟨[_], rest, rfl, .step accepted.1, accepted.2⟩
      · exact ⟨[], _, rfl, .absent, accepted⟩
  · rintro ⟨members, ending, rfl, part, ends⟩
    cases part with
    | absent =>
      -- without the step, the first instruction is the append of the closing brace
      obtain ⟨close, returned, rest, rfl, closes, -⟩ := endsText_iff.mp ends
      cases closes
      exact ends
    | step prints =>
      cases prints with
      | branch name receiver passed separates whole =>
        have step := isMembersStep_iff.mpr (.branch name receiver passed separates whole)
        simp [printsRest, branch?, step, ends]

theorem printsRecord_iff {name : String} {instructions : List Instr} :
    printsRecord name instructions = true ↔ WritesRecord name instructions := by
  constructor
  · intro accepted
    unfold printsRecord at accepted
    split at accepted
    -- three instructions have fixed forms; the members step and the end follow
    next builder value head opening rest =>
      simp only [Bool.and_eq_true, isNewBuilder_iff, appendsLiteral_iff, printsRest_iff] at accepted
      obtain ⟨⟨⟨makes, ofName⟩, opens⟩, members, ending, rfl, part, ends⟩ := accepted
      obtain ⟨close, returned, rest, rfl, closes, reads⟩ := endsText_iff.mp ends
      exact .steps makes ofName opens part closes reads
    · cases accepted
  · rintro ⟨makes, ofName, opens, part, closes, reads⟩
    simp only [printsRecord, Bool.and_eq_true, isNewBuilder_iff, appendsLiteral_iff, printsRest_iff]
    exact ⟨⟨⟨makes, ofName⟩, opens⟩, _, _, rfl, part,
      endsText_iff.mpr ⟨_, _, _, rfl, closes, reads⟩⟩

/-! ### The method -/

/-- Whether a method has the synthesized form, given its body if that is available. -/
def acceptsToString (analysis : Analysis) (method : Method) (body? : Option Body) : Bool :=
  (method.isOverride && !method.isSealed && method.hasNoAttributes) &&
    body?.any fun body => printsRecord analysis.record.name body.instructions

/-- It is accepted exactly if it has this form. -/
theorem synthesizedToString_iff {analysis : Analysis} {bodies : Method → Option Body}
    {method : Method} :
    SynthesizedToString analysis bodies method ↔
      acceptsToString analysis method (Query.bodyOf? bodies method) = true := by
  simp only [acceptsToString, Method.hasNoAttributes, Bool.and_eq_true, Bool.not_eq_true',
    List.isEmpty_iff, Option.any_eq_true, Query.bodyOf?_eq_some_iff, printsRecord_iff]
  constructor
  · rintro ⟨overrides, unsealed, attributes, returnAttributes, shape⟩
    exact ⟨⟨⟨overrides, unsealed⟩, attributes, returnAttributes⟩, shape⟩
  · rintro ⟨⟨⟨overrides, unsealed⟩, attributes, returnAttributes⟩, shape⟩
    exact ⟨overrides, unsealed, attributes, returnAttributes, shape⟩

/-- Behind its precondition, the query asks for one body and gives a verdict on it. -/
theorem eval_toString (analysis : Analysis) (bodies : Method → Option Body) (method : Method) :
    (toString analysis method).eval bodies =
      (analysis.expect (method.name == "ToString" && method.parameters.isEmpty)
        ("expected ToString(), got " ++ method.name ++ "/"
          ++ ToString.toString method.parameters.length)
        (pure (acceptsToString analysis method (Query.bodyOf? bodies method)))).eval bodies := by
  apply Analysis.eval_expect_congr
  rw [Query.eval_pure, acceptsToString]
  split
  next signature => rw [signature, Bool.true_and, Query.eval_fetch_bind, Query.eval_pure]
  next other => simp [other]

/-- Recognition always gives a verdict, and accepts exactly the synthesized form. -/
theorem toString_iff (analysis : Analysis) (unchecked : analysis.checked = false)
    (bodies : Method → Option Body) (method : Method) :
    ∃ verdict, (toString analysis method).eval bodies = .ok verdict ∧
      (verdict = true ↔ SynthesizedToString analysis bodies method) := by
  refine ⟨acceptsToString analysis method (Query.bodyOf? bodies method), ?_,
    synthesizedToString_iff.symm⟩
  rw [eval_toString, Analysis.expect_unchecked unchecked, Query.eval_pure]

/-- What is recognised has the synthesized form, whether preconditions are checked or not. -/
theorem synthesizedToString_of_toString {analysis : Analysis} {bodies : Method → Option Body}
    {method : Method} (recognised : (toString analysis method).eval bodies = .ok true) :
    SynthesizedToString analysis bodies method := by
  rw [eval_toString] at recognised
  have judged := Analysis.eval_of_expect recognised
  rw [Query.eval_pure, Except.ok.injEq] at judged
  exact synthesizedToString_iff.mpr judged

end MemberOrigin.Generated
