import MemberOrigin.Proofs.Generated.ToString

/-!
# The members step of a generated text

## Main result

`toString_membersStep`: the step that prints the members is optional in every `ToString`. Of the
analysis only the name of the record matters, so that a body keeps its verdict when the step is left
out or put in, whatever members the record has.
-/
namespace MemberOrigin.Generated

open Instr

/-- A synthesized form is recognised where the precondition on the name does not stand in the way. -/
theorem toString_of_synthesized {analysis other : Analysis} {method : Method}
    {bodies others : Method → Option Body} {verdict : Bool}
    (answered : (toString analysis method).eval bodies = .ok verdict)
    (checked : other.checked = analysis.checked)
    (synthesized : SynthesizedToString other others method) :
    (toString other method).eval others = .ok true := by
  rw [eval_toString] at answered ⊢
  rw [Analysis.eval_expect_of_answered answered checked, Query.eval_pure,
    synthesizedToString_iff.mp synthesized]

/-- Between its header and its closing brace a recognised body has the step that prints the members,
or nothing. It stays recognised with the one in place of the other, and for every other record of the
same name, whatever the order of its members is. -/
theorem toString_membersStep {analysis : Analysis} {method : Method}
    {bodies : Method → Option Body}
    (recognised : (toString analysis method).eval bodies = .ok true) :
    ∃ body builder header members ending, bodies method = some body ∧
      body.instructions = header ++ members ++ ending ∧
      (header.length = 3 ∧ ∃ value, header.head? = some (.store builder value)) ∧
      MembersPart builder members ∧
      (∃ close, ending.head? = some close ∧ Appends builder (.text "\x7d") close) ∧
      ∀ (other : Analysis) (others : Method → Option Body) (step : List Instr) (replaced : Body),
        other.record.name = analysis.record.name → other.checked = analysis.checked →
        MembersPart builder step → others method = some replaced →
        replaced.instructions = header ++ step ++ ending →
        (toString other method).eval others = .ok true := by
  obtain ⟨overrides, unsealed, attributes, returnAttributes, body, ⟨token, hasBody, available⟩,
    writes⟩ := synthesizedToString_of_toString recognised
  generalize written : body.instructions = instructions at writes
  cases writes with
  | @steps builder value head opening close returned members rest makes ofName opens part closes
      reads =>
    refine ⟨body, builder, [.store builder value, head, opening], members,
      close :: .leave .body returned :: rest, available, by simpa using written,
      ⟨rfl, value, rfl⟩, part, ⟨close, rfl, closes⟩, ?_⟩
    intro other others step replaced name checked stepPart found split
    apply toString_of_synthesized recognised checked
    refine ⟨overrides, unsealed, attributes, returnAttributes, replaced,
      ⟨token, hasBody, found⟩, ?_⟩
    -- the other record has the same name, and the order of its members is not looked at
    rw [split, name]
    simpa using WritesRecord.steps makes ofName opens stepPart closes reads

/-! ### The text of a record with one property -/

def pointToString : Method :=
  { pointMethod "ToString" 5 [] (.named "System" "String" [] false) with isOverride := true }

def pointBuilder : Variable := ⟨2, .localSlot, 0, "builder", stringBuilder⟩

/-- The text of `Point` without its members. -/
def bareTextBody : Body :=
  let append (text : String) : Instr :=
    .call .virtual ⟨"Append", stringBuilder, false, false, none⟩ [.load pointBuilder, .text text]
  { instructions :=
      [.store pointBuilder (.call .construct ⟨".ctor", stringBuilder, false, false, none⟩ []),
        append "Point", append " \x7b ", append "\x7d",
        .leave .body (.call .virtual ⟨"ToString", stringBuilder, false, false, none⟩
          [.load pointBuilder])]
    vars := [pointThis, pointBuilder] }

/-- The body of `Point` may have its members step as well. -/
theorem toString_membersStep_point :
    (toString pointAnalysis pointToString).eval (fun _ => some bareTextBody) = .ok true ∧
      ∃ body builder header members ending, some bareTextBody = some body ∧
        body.instructions = header ++ members ++ ending ∧
        (header.length = 3 ∧ ∃ value, header.head? = some (.store builder value)) ∧
        MembersPart builder members ∧
        (∃ close, ending.head? = some close ∧ Appends builder (.text "\x7d") close) ∧
        ∀ (other : Analysis) (others : Method → Option Body) (step : List Instr) (replaced : Body),
          other.record.name = pointAnalysis.record.name → other.checked = pointAnalysis.checked →
          MembersPart builder step → others pointToString = some replaced →
          replaced.instructions = header ++ step ++ ending →
          (toString other pointToString).eval others = .ok true := by
  have recognised : (toString pointAnalysis pointToString).eval (fun _ => some bareTextBody) =
      .ok true := by
    rfl
  exact ⟨recognised, toString_membersStep recognised⟩

/-- `Point` has a property to print, and its text is recognised without the step that prints it. -/
theorem recognised_bareTextBody :
    pointAnalysis.memberOrder = some [pointProperty] ∧ isPrintable pointProperty = true ∧
      (toString pointAnalysis pointToString).eval (fun _ => some bareTextBody) = .ok true ∧
      bareTextBody.instructions.all (fun instr => instr.branch?.isNone) = true :=
  ⟨rfl, rfl, rfl, rfl⟩

end MemberOrigin.Generated
