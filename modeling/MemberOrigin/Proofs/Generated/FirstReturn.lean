import MemberOrigin.Proofs.Generated.Equals
import MemberOrigin.Proofs.Generated.ToString

/-!
# What stands behind the return

## Main result

`Matched.eval_upToReturn`: the verdict on a `PrintMembers`, an `Equals` or a `ToString` depends on the
instructions of its body up to the first return only. A recognised body may go on behind it, other
than the body of an accessor, whose instructions are counted.

## Proof strategy

Each of the three tests goes through the instructions in order and ends at a return: what it accepts
has a first return, and what stands behind it may be replaced (`ReadsToReturn`). Such a test has the
same verdict on the instructions up to the first return, and a query is such a test behind its
preconditions.
-/
namespace MemberOrigin

namespace Instr

/-- The instructions up to the first return, with the return. -/
def upToReturn : List Instr → List Instr
  | [] => []
  | instr :: rest => if instr.returned?.isSome then [instr] else instr :: upToReturn rest

/-- Instructions that do not return. -/
def Open (instructions : List Instr) : Prop :=
  ∀ instr ∈ instructions, instr.returned? = none

theorem Open.nil : Open [] := by
  simp [Open]

theorem Open.cons {instr : Instr} {rest : List Instr} (here : instr.returned? = none)
    (behind : Open rest) : Open (instr :: rest) :=
  List.forall_mem_cons.mpr ⟨here, behind⟩

theorem Open.append {front back : List Instr} (first : Open front) (second : Open back) :
    Open (front ++ back) :=
  List.forall_mem_append.mpr ⟨first, second⟩

theorem upToReturn_append {front : List Instr} (unreturned : Open front) (value : Instr)
    (rest : List Instr) :
    upToReturn (front ++ .leave .body value :: rest) = front ++ [.leave .body value] := by
  induction front with
  | nil => rfl
  | cons instr front ih =>
    obtain ⟨here, behind⟩ := List.forall_mem_cons.mp unreturned
    simp [upToReturn, here, ih behind]

theorem exists_upToReturn_append (instructions : List Instr) :
    ∃ rest, instructions = upToReturn instructions ++ rest := by
  induction instructions with
  | nil => exact ⟨[], rfl⟩
  | cons instr rest ih =>
    rw [upToReturn]
    split
    · exact ⟨rest, rfl⟩
    · obtain ⟨behind, split⟩ := ih
      exact ⟨behind, by rw [List.cons_append, ← split]⟩

theorem head?_upToReturn (instructions : List Instr) :
    (upToReturn instructions).head? = instructions.head? := by
  cases instructions with
  | nil => rfl
  | cons instr rest =>
    rw [upToReturn]
    split <;> rfl

/-- What the test accepts has a first return, behind which it does not look. -/
def ReadsToReturn (test : List Instr → Bool) : Prop :=
  ∀ instructions, test instructions = true → ∃ front value rest,
    instructions = front ++ .leave .body value :: rest ∧ Open front ∧
      ∀ others, test (front ++ .leave .body value :: others) = true

theorem ReadsToReturn.upToReturn {test : List Instr → Bool} (reads : ReadsToReturn test)
    (instructions : List Instr) : test (upToReturn instructions) = test instructions := by
  rw [Bool.eq_iff_iff]
  constructor
  · -- what is missing behind the return is put back
    intro accepted
    obtain ⟨front, value, rest, split, _, goesOn⟩ := reads _ accepted
    obtain ⟨behind, whole⟩ := exists_upToReturn_append instructions
    have longer := goesOn (rest ++ behind)
    rwa [← List.cons_append, ← List.append_assoc, ← split, ← whole] at longer
  · -- the front does not return, so the cut is behind this very return
    intro accepted
    obtain ⟨front, value, rest, rfl, unreturned, goesOn⟩ := reads _ accepted
    rw [upToReturn_append unreturned]
    exact goesOn []

theorem Appends.returned?_eq_none {builder : Variable} {value instr : Instr}
    (appends : Appends builder value instr) : instr.returned? = none := by
  cases appends
  rfl

end Instr

/-- The body without the instructions behind its first return. -/
def Body.upToReturn (body : Body) : Body :=
  { body with instructions := Instr.upToReturn body.instructions }

namespace Generated

open Instr

/-! ### The tests of bodies -/

theorem unreturned_of_texts {builder : Variable} {texts : List String} {literals : List Instr}
    (cut : AppendsTexts builder texts literals) : Open literals := by
  induction cut with
  | nil => exact .nil
  | cons appends _ ih => exact .cons appends.returned?_eq_none ih

theorem PrintsMember.unreturned {builder : Variable} {member : Property × Nat}
    {segment : List Instr} (prints : PrintsMember builder member segment) : Open segment := by
  cases prints with
  | segment _ cut _ appends _ =>
    exact (unreturned_of_texts cut).append (.cons appends.returned?_eq_none .nil)

theorem unreturned_of_members {builder : Variable} {members : List (Property × Nat)}
    {segments : List (List Instr)} (prints : List.Forall₂ (PrintsMember builder) members segments) :
    Open segments.flatten := by
  induction prints with
  | nil => exact .nil
  | cons first _ ih => exact first.unreturned.append ih

theorem BasePart.unreturned {builder : Variable} {isInherited : Bool} {base : List Instr}
    (part : BasePart builder isInherited base) : Open base := by
  cases part with
  | root => exact .nil
  | derived prints =>
    cases prints
    exact .cons rfl .nil

theorem readsToReturn_printsMembers (builder : Variable) (isInherited : Bool)
    (printed : List Property) :
    ReadsToReturn fun instructions => (behindBase? isInherited builder instructions).any
      (printsMembers builder true printed) := by
  have accepts (instructions : List Instr) :
      (behindBase? isInherited builder instructions).any (printsMembers builder true printed) =
        true ↔ PrintsRecord builder isInherited printed instructions := by
    rw [Option.any_eq_true, ← prints_iff]
  intro instructions accepted
  obtain ⟨base, segments, rest, rfl, part, prints⟩ := (accepts _).mp accepted
  have unreturned := part.unreturned.append (unreturned_of_members prints)
  refine ⟨base ++ segments.flatten, .int (if printed.isEmpty then 0 else 1), rest, by simp,
    unreturned, fun others => ?_⟩
  exact (accepts _).mpr ⟨base, segments, others, by simp, part, prints⟩

theorem MembersPart.unreturned {builder : Variable} {members : List Instr}
    (part : MembersPart builder members) : Open members := by
  cases part with
  | absent => exact .nil
  | step prints =>
    cases prints
    exact .cons rfl .nil

theorem readsToReturn_printsRecord (name : String) : ReadsToReturn (printsRecord name) := by
  intro instructions accepted
  cases printsRecord_iff.mp accepted with
  | @steps builder value head opening close returned members rest makes ofName opens part closes
      reads =>
    refine ⟨.store builder value :: head :: opening :: (members ++ [close]), returned, rest,
      by simp, ?_, fun others => ?_⟩
    · have behind := part.unreturned.append (.cons closes.returned?_eq_none .nil)
      exact .cons rfl (.cons ofName.returned?_eq_none (.cons opens.returned?_eq_none behind))
    · have longer : WritesRecord name (.store builder value :: head :: opening
          :: (members ++ close :: .leave .body returned :: others)) :=
        .steps makes ofName opens part closes reads
      simpa using printsRecord_iff.mpr longer

/-! ### The verdicts -/

theorem bodyOf?_upToReturn (bodies : Method → Option Body) (method : Method) :
    Query.bodyOf? (fun method => (bodies method).map Body.upToReturn) method =
      (Query.bodyOf? bodies method).map Body.upToReturn := by
  unfold Query.bodyOf?
  split <;> rfl

/-- Cutting a body changes nothing in front of its members, and nothing in the verdict on them. -/
theorem acceptsPrintMembers_upToReturn (analysis : Analysis) (method : Method)
    (body? : Option Body) :
    acceptsPrintMembers analysis method (body?.map Body.upToReturn) =
      acceptsPrintMembers analysis method body? := by
  cases body? with
  | none => rfl
  | some body =>
    have parameter : body.upToReturn.parameter? 0 = body.parameter? 0 := rfl
    have members (order : List Property) (builder : Variable) :
        (behindBase? analysis.isInherited builder body.upToReturn.instructions).any
            (printsMembers builder true (order.filter isPrintable)) =
          (behindBase? analysis.isInherited builder body.instructions).any
            (printsMembers builder true (order.filter isPrintable)) :=
      (readsToReturn_printsMembers builder _ _).upToReturn body.instructions
    simp only [acceptsPrintMembers, Option.map_some, Option.any_some, parameter, members]

theorem eval_printMembers_upToReturn (analysis : Analysis) (method : Method)
    (bodies : Method → Option Body) :
    (printMembers analysis method).eval (fun method => (bodies method).map Body.upToReturn) =
      (printMembers analysis method).eval bodies := by
  rw [eval_printMembers, eval_printMembers, bodyOf?_upToReturn, acceptsPrintMembers_upToReturn]
  exact Analysis.eval_expect_congr rfl

/-- Only the first instruction of a body is looked at, and its variables. -/
theorem acceptsEquals_upToReturn (analysis : Analysis) (method : Method) (body? : Option Body) :
    acceptsEquals analysis method (body?.map Body.upToReturn) =
        acceptsEquals analysis method body? ∧
      comparesRecord analysis method (body?.map Body.upToReturn) =
        comparesRecord analysis method body? := by
  cases body? with
  | none => exact ⟨rfl, rfl⟩
  | some body =>
    have parameter : body.upToReturn.parameter? 0 = body.parameter? 0 := rfl
    have head : body.upToReturn.instructions.head? = body.instructions.head? :=
      head?_upToReturn body.instructions
    simp only [acceptsEquals, comparesRecord, Option.map_some, Option.any_some, Option.all_some,
      parameter, head, and_self]

theorem eval_equals_upToReturn (analysis : Analysis) (method : Method)
    (bodies : Method → Option Body) :
    (equals analysis method).eval (fun method => (bodies method).map Body.upToReturn) =
      (equals analysis method).eval bodies := by
  obtain ⟨accepts, compares⟩ :=
    acceptsEquals_upToReturn analysis method (Query.bodyOf? bodies method)
  rw [eval_equals, eval_equals, bodyOf?_upToReturn, accepts, compares]
  exact Analysis.eval_expect_congr (Analysis.eval_expect_congr rfl)

theorem acceptsToString_upToReturn (analysis : Analysis) (method : Method) (body? : Option Body) :
    acceptsToString analysis method (body?.map Body.upToReturn) =
      acceptsToString analysis method body? := by
  cases body? with
  | none => rfl
  | some body =>
    exact congrArg (_ && ·) ((readsToReturn_printsRecord _).upToReturn body.instructions)

theorem eval_toString_upToReturn (analysis : Analysis) (method : Method)
    (bodies : Method → Option Body) :
    (toString analysis method).eval (fun method => (bodies method).map Body.upToReturn) =
      (toString analysis method).eval bodies := by
  rw [eval_toString, eval_toString, bodyOf?_upToReturn, acceptsToString_upToReturn]
  exact Analysis.eval_expect_congr rfl

/-- The methods whose bodies are matched instruction by instruction. -/
inductive Matched
  | printMembers
  | equals
  | toString

namespace Matched

/-- Whether the compiler synthesized the method. -/
def query (matched : Matched) (analysis : Analysis) (method : Method) : Query Bool :=
  match matched with
  | printMembers => Generated.printMembers analysis method
  | equals => Generated.equals analysis method
  | toString => Generated.toString analysis method

/-- A recognised body returns, and an `Equals` does so at once. -/
theorem exists_return {matched : Matched} {analysis : Analysis} {method : Method}
    {bodies : Method → Option Body}
    (recognised : (matched.query analysis method).eval bodies = .ok true) :
    ∃ body front value rest, bodies method = some body ∧
      body.instructions = front ++ .leave .body value :: rest ∧ Instr.Open front ∧
      (matched = .equals → front = []) := by
  -- each synthesized form shows where its body returns
  cases matched with
  | printMembers =>
    obtain ⟨_, order, body, builder, _, ⟨_, _, available⟩, _, _, prints⟩ :=
      synthesizedPrintMembers_of_printMembers recognised
    obtain ⟨base, segments, rest, split, part, members⟩ := prints
    have unreturned := part.unreturned.append (unreturned_of_members members)
    have ends := split.trans (List.append_assoc _ _ _)
    exact ⟨body, base ++ segments.flatten, _, rest, available, ends, unreturned, nofun⟩
  | equals =>
    obtain ⟨_, _, _, _, body, returned, rest, _, _, _, _, ⟨_, _, available⟩, split, _⟩ :=
      synthesizedEquals_of_equals recognised
    exact ⟨body, [], returned, rest, available, split, .nil, fun _ => rfl⟩
  | toString =>
    obtain ⟨_, _, _, _, body, ⟨_, _, available⟩, writes⟩ :=
      synthesizedToString_of_toString recognised
    obtain ⟨front, value, rest, split, unreturned, _⟩ :=
      readsToReturn_printsRecord _ _ (printsRecord_iff.mpr writes)
    exact ⟨body, front, value, rest, available, split, unreturned, nofun⟩

/-- The verdict on a matched method depends on its body up to the first return only. A recognised
body has such a return, and an `Equals` starts with it; what stands behind it does not matter. -/
theorem eval_upToReturn (matched : Matched) (analysis : Analysis) (method : Method)
    (bodies : Method → Option Body) :
    (matched.query analysis method).eval (fun method => (bodies method).map Body.upToReturn) =
        (matched.query analysis method).eval bodies ∧
      ((matched.query analysis method).eval bodies = .ok true →
        ∃ body front value rest, bodies method = some body ∧
          body.instructions = front ++ .leave .body value :: rest ∧
          body.upToReturn.instructions = front ++ [.leave .body value] ∧
          (matched = .equals → front = [])) := by
  refine ⟨?_, fun recognised => ?_⟩
  · cases matched with
    | printMembers => exact eval_printMembers_upToReturn analysis method bodies
    | equals => exact eval_equals_upToReturn analysis method bodies
    | toString => exact eval_toString_upToReturn analysis method bodies
  · obtain ⟨body, front, value, rest, available, split, unreturned, first⟩ :=
      exists_return recognised
    refine ⟨body, front, value, rest, available, split, ?_, first⟩
    -- nothing returns in front of it, so the cut is behind this return
    rw [Body.upToReturn, split, Instr.upToReturn_append unreturned]

/-- The printing of `Point`, with an instruction behind the return. -/
def longPrintBody : Body :=
  { pointPrintBody with instructions := pointPrintBody.instructions ++ [.nop] }

theorem eval_upToReturn_point :
    (query .printMembers pointAnalysis pointPrintMembers).eval (fun _ => some longPrintBody) =
        .ok true ∧
      ∃ body front value rest, some longPrintBody = some body ∧
        body.instructions = front ++ .leave .body value :: rest ∧
        body.upToReturn.instructions = front ++ [.leave .body value] ∧
        (Matched.printMembers = .equals → front = []) := by
  have recognised : (query .printMembers pointAnalysis pointPrintMembers).eval
      (fun _ => some longPrintBody) = .ok true := by
    rfl
  exact ⟨recognised, (eval_upToReturn .printMembers pointAnalysis pointPrintMembers
    fun _ => some longPrintBody).2 recognised⟩

/-- A body that is recognised and does not end with its return. -/
theorem recognised_longPrintBody :
    (query .printMembers pointAnalysis pointPrintMembers).eval (fun _ => some longPrintBody) =
        .ok true ∧
      ∀ front value, longPrintBody.instructions ≠ front ++ [.leave .body value] := by
  refine ⟨rfl, fun front value same => ?_⟩
  have last := congrArg List.getLast? same
  rw [List.getLast?_concat] at last
  cases last

end Matched

end Generated

end MemberOrigin
