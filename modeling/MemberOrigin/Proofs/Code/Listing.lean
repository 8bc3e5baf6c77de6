import Mathlib.Data.List.ReduceOption
import MemberOrigin.Cli.Run
import MemberOrigin.Proofs.Code.Depth
import MemberOrigin.Proofs.Dump.Loaded
import MemberOrigin.Proofs.Text.Lines
import MemberOrigin.Proofs.Text.Words

/-!
# Shifted listings

## Main result

`print_eq_shift`: where names stand on one line, the text of an instruction behind a margin is the
text without one, shifted by the margin. The listing of a loaded body is therefore the same whether
the finished text is indented or every instruction is printed behind the margin.

## Proof strategy

`Shifted` says of a text with a margin that the margin stands behind its newlines and nowhere else.
It holds of a text on one line, goes through concatenation, and a block keeps it because its own two
blanks have no newline. Numbers, types and quoted texts stand on one line.
-/
namespace MemberOrigin

open Text

/-! ### Parts on one line -/

theorem Text.hexDigit_ne_newline {n : Nat} (digit : n < 16) : hexDigit n ≠ '\n' := by
  revert n
  decide

theorem Text.ne_newline_of_mem_quotedChar {c original : Char} (member : c ∈ quotedChar original) :
    c ≠ '\n' := by
  rintro rfl
  unfold quotedChar at member
  split_ifs at member with _ _ newline _ _ _ _ control <;>
    simp only [List.mem_cons, List.not_mem_nil, Char.reduceEq, or_false, false_or] at member
  · rcases member with high | low
    · exact hexDigit_ne_newline (by omega) high.symm
    · exact hexDigit_ne_newline (by omega) low.symm
  · exact newline (beq_iff_eq.mpr member.symm)

/-- Whatever the text is, it is quoted on one line. -/
theorem Text.oneLine_quote (text : String) : OneLine (quote text) := by
  have inside : OneLine (String.ofList (text.toList.flatMap quotedChar)) := by
    refine oneLine_ofList fun c member => ?_
    obtain ⟨original, _, written⟩ := List.mem_flatMap.mp member
    exact ne_newline_of_mem_quotedChar written
  exact ((by decide : OneLine "\"").append inside).append (by decide)

namespace Number

theorem ne_newline_of_mem_toString {n : Nat} {c : Char} (member : c ∈ (toString n).toList) :
    c ≠ '\n' := by
  rintro rfl
  exact absurd (isDigit_of_mem_toDigits (by simpa using member)) (by decide)

theorem oneLine_toString (n : Nat) : OneLine (toString n) :=
  fun member => ne_newline_of_mem_toString member rfl

theorem ne_newline_of_mem_positional {digits : List Char} {point : Int}
    (each : ∀ c ∈ digits, c ≠ '\n') : ∀ c ∈ positional digits point, c ≠ '\n' := by
  unfold positional
  intro c member
  split at member
  · grind
  · grind

theorem ne_newline_of_mem_scientific {digits : List Char} {point : Int}
    (each : ∀ c ∈ digits, c ≠ '\n') : ∀ c ∈ scientific digits point, c ≠ '\n' := by
  have exponent := fun c => ne_newline_of_mem_toString (n := (point - 1).natAbs) (c := c)
  unfold scientific
  intro c member
  grind

theorem oneLine_positiveText (x : Binary64) : OneLine (positiveText x) := by
  obtain ⟨value, power, shortest⟩ : ∃ value power, x.shortest = (value, power) := ⟨_, _, rfl⟩
  have digits := fun c => ne_newline_of_mem_toString (n := value) (c := c)
  simp only [positiveText, shortest]
  refine oneLine_ofList ?_
  split
  · exact ne_newline_of_mem_positional digits
  · exact ne_newline_of_mem_scientific digits

theorem oneLine_natText (n : Nat) : OneLine (natText n) := by
  unfold natText
  split
  · exact oneLine_toString n
  · split
    · exact oneLine_positiveText _
    · decide

theorem oneLine_intText (n : Int) : OneLine (intText n) := by
  unfold intText
  split
  · exact (by decide : OneLine "-").append (oneLine_natText _)
  · exact oneLine_natText _

end Number

namespace Ty

mutual

/-- The names in a type: those of its types with their namespaces, and of tuple elements. -/
def names : Ty → List String
  | .named ns name args _ => ns :: name :: namesAll args
  | .parameter _ _ name _ => [name]
  | .array element _ _ => names element
  | .reference element => names element
  | .tuple elements elementNames => namesAll elements ++ elementNames.reduceOption
  | .nativeInteger _ | .dynamic _ => []

/-- The names in the types of a list. -/
def namesAll : List Ty → List String
  | [] => []
  | type :: rest => names type ++ namesAll rest

end

theorem namesAll_eq_flatMap (types : List Ty) : namesAll types = types.flatMap names := by
  induction types with
  | nil => rfl
  | cons type rest ih => simp [namesAll, ih]

theorem oneLine_nullableMark (nullable : Bool) : OneLine (nullableMark nullable) := by
  cases nullable <;> decide

theorem oneLine_qualify {ns name : String} (onNs : OneLine ns) (onName : OneLine name) :
    OneLine (qualify ns name) := by
  unfold qualify
  split
  · exact onName
  · exact (onNs.append (by decide)).append onName

theorem oneLine_argumentList {arguments : List String}
    (each : ∀ argument ∈ arguments, OneLine argument) : OneLine (argumentList arguments) := by
  unfold argumentList
  split
  · decide
  · have count := Number.oneLine_toString arguments.length
    have list : OneLine (",".intercalate arguments) := .intercalate (by decide) each
    exact ((((by decide : OneLine "\x60").append count).append (by decide)).append list).append
      (by decide)

theorem oneLine_rankText (rank : Int) : OneLine (rankText rank) := by
  have commas : OneLine (String.ofList (List.replicate (rank - 1).toNat ',')) :=
    oneLine_ofList fun c member => by simp [List.eq_of_mem_replicate member]
  exact ((by decide : OneLine "[").append commas).append (by decide)

/-- Elements stand on one line with their names. -/
theorem oneLine_of_mem_nameElements {texts : List String} {elementNames : List (Option String)}
    (onTexts : ∀ text ∈ texts, OneLine text)
    (onNames : ∀ name, some name ∈ elementNames → OneLine name) :
    ∀ text ∈ nameElements texts elementNames, OneLine text := by
  induction texts generalizing elementNames with
  | nil => simp [nameElements]
  | cons text texts ih =>
    cases elementNames with
    | nil => exact onTexts
    | cons name names =>
      simp only [nameElements, List.forall_mem_cons] at onTexts ⊢
      refine ⟨?_, ih onTexts.2 fun name member => onNames name (List.mem_cons_of_mem _ member)⟩
      -- an element without a name, or with an empty one, is its type alone
      unfold elementText
      split
      next name =>
        split
        · exact onTexts.1
        · exact (onTexts.1.append (by decide)).append (onNames name List.mem_cons_self)
      · exact onTexts.1

theorem oneLine_format {type : Ty} (named : ∀ name ∈ type.names, OneLine name) :
    OneLine type.format := by
  induction type using Ty.induction with
  | named ns name args nullable ih =>
    simp only [names, namesAll_eq_flatMap, List.forall_mem_cons, List.forall_mem_flatMap] at named
    obtain ⟨onNs, onName, onArgs⟩ := named
    rw [format, formatAll_eq_map]
    refine ((oneLine_qualify onNs onName).append (oneLine_argumentList ?_)).append
      (oneLine_nullableMark nullable)
    exact List.forall_mem_map.mpr fun arg member => ih arg member (onArgs arg member)
  | parameter owner index name nullable =>
    exact (named name List.mem_cons_self).append (oneLine_nullableMark nullable)
  | array element rank nullable ih =>
    exact ((ih named).append (oneLine_rankText rank)).append (oneLine_nullableMark nullable)
  | reference element ih => exact (ih named).append (by decide)
  -- a tuple writes the names of its elements, which are no types of their own
  | tuple elements elementNames ih =>
    simp only [names, namesAll_eq_flatMap, List.forall_mem_append, List.forall_mem_flatMap,
      List.reduceOption_mem_iff] at named
    rw [format, formatAll_eq_map]
    have onElements := List.forall_mem_map.mpr fun element member =>
      ih element member (named.1 element member)
    have inside := OneLine.intercalate (by decide : OneLine ", ")
      (oneLine_of_mem_nameElements onElements named.2)
    exact ((by decide : OneLine "(").append inside).append (by decide)
  | nativeInteger unsigned => cases unsigned <;> decide
  | dynamic nullable => exact (by decide : OneLine "dynamic").append (oneLine_nullableMark nullable)

theorem oneLine_shortName {type : Ty} (named : ∀ name ∈ type.names, OneLine name) :
    OneLine type.shortName := by
  unfold shortName
  split
  · exact named _ (by simp [names])
  · exact oneLine_format named

end Ty

/-! ### Texts behind a margin -/

/-- A text with a margin, which stands behind the newlines of the text and nowhere else. -/
def Shifted (text : String → String) : Prop :=
  ∀ margin, text margin = shift margin (text "")

namespace Shifted

theorem line {text : String} (oneLine : OneLine text) : Shifted fun _ => text :=
  fun _ => oneLine.shift_eq.symm

theorem append {left right : String → String} (onLeft : Shifted left) (onRight : Shifted right) :
    Shifted fun margin => left margin ++ right margin := by
  intro margin
  rw [shift_append, ← onLeft, ← onRight]

/-- A text between two parts that stand on one line. -/
theorem between {text : String → String} {front back : String} (inside : Shifted text)
    (onFront : OneLine front) (onBack : OneLine back) :
    Shifted fun margin => front ++ text margin ++ back :=
  ((line onFront).append inside).append (line onBack)

/-- An operation with a name and one operand in parentheses. -/
theorem applied {text : String → String} {operation name : String} (inside : Shifted text)
    (onOperation : OneLine operation) (onName : OneLine name) :
    Shifted fun margin => operation ++ name ++ "(" ++ text margin ++ ")" :=
  inside.between ((onOperation.append onName).append (by decide)) (by decide)

/-- Two texts with parts around them that stand on one line. -/
theorem pair {left right : String → String} {front middle back : String}
    (onLeft : Shifted left) (onRight : Shifted right) (onFront : OneLine front)
    (onMiddle : OneLine middle) (onBack : OneLine back) :
    Shifted fun margin => front ++ left margin ++ middle ++ right margin ++ back :=
  ((onLeft.between onFront onMiddle).append onRight).append (line onBack)

theorem intercalate {α : Type} {separator : String} {text : String → α → String} {items : List α}
    (between : OneLine separator) (each : ∀ item ∈ items, Shifted (text · item)) :
    Shifted fun margin => separator.intercalate (items.map (text margin)) := by
  induction items with
  | nil => exact line (by decide)
  | cons first rest ih =>
    have onFirst := each first List.mem_cons_self
    have onRest := ih fun item member => each item (List.mem_cons_of_mem _ member)
    cases rest with
    | nil => simpa using onFirst
    | cons second rest =>
      simpa only [List.map_cons, String.intercalate_cons_cons] using
        (onFirst.append (line between)).append onRest

end Shifted

namespace Instr

/-- The names in the text of the instruction itself: of a member, a variable or the types that it
mentions. -/
def names : Instr → List String
  | call .construct method _ => method.name :: method.declaringType.names
  | call _ method _ => [method.name]
  | loadField _ field | loadFieldAddress _ field | loadStatic field | storeField _ field _
  | storeStatic field _ => [field.name]
  | load v | store v _ => [v.name]
  | addressOf _ type | typeToken type => type.names
  | nop | leave _ _ | block _ | branch _ _ _ | both _ _ | compare _ _ _ | null | text _ | int _ => []

/-- No name in the instruction has a newline, at any depth. -/
def NamesOnOneLine (instr : Instr) : Prop :=
  instr.Everywhere fun part => ∀ name ∈ part.names, OneLine name

theorem NamesOnOneLine.of_operands {instr : Instr} (here : ∀ name ∈ instr.names, OneLine name)
    (below : ∀ part ∈ instr.operands, part.NamesOnOneLine) : instr.NamesOnOneLine :=
  everywhere_iff.mpr ⟨here, below⟩

theorem NamesOnOneLine.of_single {instr : Instr} (alone : instr.operands = [])
    (here : ∀ name ∈ instr.names, OneLine name) : instr.NamesOnOneLine :=
  .of_operands here (by simp [alone])

theorem printAll_eq_map (margin : String) (instructions : List Instr) :
    printAll margin instructions = instructions.map (print margin) := by
  induction instructions with
  | nil => rfl
  | cons instr rest ih => simp [printAll, ih]

theorem printLines_eq_map (margin : String) (instructions : List Instr) :
    printLines margin instructions = instructions.map fun instr => margin ++ print margin instr := by
  induction instructions with
  | nil => rfl
  | cons instr rest ih => simp [printLines, ih]

theorem print_block (margin : String) (instructions : List Instr) :
    print margin (block instructions) =
      unlines ("Block \x7b" :: (instructions.map fun instr =>
        margin ++ "  " ++ print (margin ++ "  ") instr) ++ [margin ++ "\x7d"]) := by
  rw [print, printLines_eq_map]
  rfl

theorem print_branch (margin : String) (condition onTrue onFalse : Instr) :
    print margin (branch condition onTrue onFalse) =
      "if (" ++ print margin condition ++ ") " ++ print margin onTrue ++
        if onFalse.isNop then "" else " else " ++ print margin onFalse := by
  cases onFalse <;> simp [print, isNop]

/-- The two blanks of a block stand behind the margin of the block. -/
theorem shifted_block {instructions : List Instr}
    (each : ∀ instr ∈ instructions, Shifted (print · instr)) :
    Shifted (print · (block instructions)) := by
  intro margin
  have oneLine : OneLine "Block \x7b" := by decide
  have closing : OneLine "\x7d" := by decide
  have lines : ∀ instr ∈ instructions, margin ++ "  " ++ print (margin ++ "  ") instr =
      margin ++ shift margin ("  " ++ print "  " instr) := by
    intro instr member
    have shifted : ∀ inner, print inner instr = shift inner (print "" instr) := each instr member
    have blanks : OneLine "  " := by decide
    calc margin ++ "  " ++ print (margin ++ "  ") instr
        = margin ++ "  " ++ shift margin (shift "  " (print "" instr)) := by
          rw [shifted, blanks.shift_shift]
      _ = margin ++ shift margin ("  " ++ print "  " instr) := by
          rw [← shifted, shift_append, blanks.shift_eq, String.append_assoc]
  -- with the lines known, only the brackets of the block are left
  change print margin (block instructions) = shift margin (print "" (block instructions))
  rw [print_block, print_block, List.cons_append, List.cons_append, shift_unlines,
    List.map_append, List.map_map, List.map_congr_left lines, oneLine.shift_eq]
  simp [Function.comp_def, closing.shift_eq]

theorem oneLine_head {kind : CallKind} {method : MethodRef} {args : List Instr}
    (named : ∀ name ∈ (call kind method args).names, OneLine name) :
    OneLine (kind.head method) := by
  cases kind with
  | construct =>
    simp only [names, List.forall_mem_cons] at named
    exact (((by decide : OneLine "newobj ").append (Ty.oneLine_shortName named.2)).append
      (by decide)).append named.1
  | _ => exact ((by decide : OneLine _).append (by decide)).append (named _ List.mem_cons_self)

theorem shifted_print {instr : Instr} (named : instr.NamesOnOneLine) :
    Shifted (print · instr) := by
  -- induction over the operands, of which only those of a block get another margin
  induction instr using Instr.induction with
  | step instr ih =>
    obtain ⟨here, below⟩ := everywhere_iff.mp named
    have operand (part : Instr) (direct : part ∈ instr.operands) : Shifted (print · part) :=
      ih part direct (below part direct)
    cases instr with
    | nop | null => simpa only [print] using Shifted.line (by decide)
    | leave container value =>
      have front : OneLine ("leave " ++ container.word ++ " (") := by cases container <;> decide
      simpa only [print] using (operand _ List.mem_cons_self).between front (by decide)
    | block instructions => exact shifted_block operand
    | branch condition onTrue onFalse =>
      have ofCondition := operand condition (by simp [operands])
      have ofTrue := operand onTrue (by simp [operands])
      have ofFalse := operand onFalse (by simp [operands])
      simp only [print_branch]
      refine ((ofCondition.between (by decide) (by decide)).append ofTrue).append ?_
      split
      · exact .line (by decide)
      · exact (Shifted.line (by decide)).append ofFalse
    | call kind method args =>
      have inside : Shifted fun margin => ", ".intercalate (args.map (print margin)) :=
        .intercalate (by decide) operand
      simpa only [print, printAll_eq_map] using
        inside.between ((oneLine_head here).append (by decide)) (by decide)
    | loadField target field | loadFieldAddress target field | storeStatic field target
      | store v target =>
      simpa only [print] using
        (operand _ List.mem_cons_self).applied (by decide) (here _ List.mem_cons_self)
    | loadStatic field | load v =>
      simpa only [print] using
        Shifted.line ((by decide : OneLine _).append (here _ List.mem_cons_self))
    | storeField target field value =>
      have front := ((by decide : OneLine "stfld ").append (here _ List.mem_cons_self)).append
        (by decide : OneLine "(")
      simpa only [print] using (operand target (by simp [operands])).pair
        (operand value (by simp [operands])) front (by decide) (by decide)
    | both left right =>
      simpa only [print] using (operand left (by simp [operands])).pair
        (operand right (by simp [operands])) (by decide) (by decide) (by decide)
    | compare comparison left right =>
      have middle : OneLine (" " ++ comparison.symbol ++ " ") := by cases comparison <;> decide
      simpa only [print, String.append_assoc] using
        (operand left (by simp [operands])).pair
          (operand right (by simp [operands])) (by decide : OneLine "comp(") middle
          (by decide : OneLine ")")
    | text value =>
      simpa only [print] using
        Shifted.line ((by decide : OneLine "ldstr ").append (Text.oneLine_quote value))
    | int value =>
      simpa only [print] using
        Shifted.line ((by decide : OneLine "ldc.i4 ").append (Number.oneLine_intText value))
    | addressOf value type =>
      simpa only [print] using
        (operand _ List.mem_cons_self).applied (by decide) (Ty.oneLine_format here)
    | typeToken type =>
      simpa only [print] using
        Shifted.line ((by decide : OneLine "ldtypetoken ").append (Ty.oneLine_format here))

end Instr

/-- Indenting the text of a body is printing its instructions behind the margin. -/
theorem Body.indent_print {body : Body} (filled : body.instructions ≠ [])
    (named : ∀ instr ∈ body.instructions, instr.NamesOnOneLine) (margin : String) :
    indent margin body.print =
      unlines (body.instructions.map fun instr => margin ++ instr.print margin) := by
  have shifted : ∀ instr ∈ body.instructions,
      margin ++ shift margin (instr.print "") = margin ++ instr.print margin := by
    intro instr member
    rw [← Instr.shifted_print (named instr member) margin]
  obtain ⟨first, rest, split⟩ := List.exists_cons_of_ne_nil filled
  rw [← List.map_congr_left shifted, indent_eq_append_shift, Body.print, Instr.printAll_eq_map,
    split, List.map_cons, List.map_cons, shift_unlines, List.map_map, unlines, unlines,
    String.intercalate_cons_append]
  rfl

namespace Instr

/-- Printing behind a margin is printing without one and shifting the text, and a loaded body is
listed as its instructions are printed behind two blanks. -/
theorem print_eq_shift :
    (∀ instr : Instr, instr.NamesOnOneLine → ∀ margin,
      instr.print margin = shift margin (instr.print "")) ∧
    ∀ fileName document dump, Dump.load fileName document = .ok dump →
      ∀ method ∈ dump.record.methods, ∀ body, dump.bodies.find? method.token = some body →
        (∀ instr ∈ body.instructions, instr.NamesOnOneLine) →
          (Cli.inspectMethod dump method).2 = some (method.signature ++ "\n" ++
            unlines (body.instructions.map fun instr => "  " ++ instr.print "  ")) := by
  refine ⟨fun instr named => shifted_print named, ?_⟩
  intro fileName document dump loaded method known body found named
  have filled := (Dump.body_of_load loaded known found).1.filled
  simp only [Cli.inspectMethod, found, Body.indent_print filled named]

/-- A condition and a branch with blocks in them, and a text of two lines. -/
def nestedBlocks : Instr :=
  .branch
    (.call .direct ⟨"Check", .system "Object", true, false, none⟩
      [.block [.text "one\ntwo", .int (-1)]])
    (.block [.block [.typeToken (.system "String")]]) .nop

theorem print_eq_shift_nestedBlocks :
    nestedBlocks.NamesOnOneLine ∧
      nestedBlocks.print "> " = shift "> " (nestedBlocks.print "") ∧
      Dump.load "point.yaml" Dump.pointDocument = .ok Dump.pointDump ∧
      Dump.pointDump.record.methods.map (fun method => (Cli.inspectMethod Dump.pointDump method).2) =
        [some "System.Int32 get_X()\n  leave body (ldfld <X>k__BackingField(ldloc this))"] := by
  have named : nestedBlocks.NamesOnOneLine := by
    have text : NamesOnOneLine (.block [.text "one\ntwo", .int (-1)]) :=
      .of_operands (by decide) (List.forall_mem_cons.mpr
        ⟨.of_single rfl (by decide), List.forall_mem_singleton.mpr (.of_single rfl (by decide))⟩)
    have type : NamesOnOneLine (.block [.typeToken (.system "String")]) :=
      .of_operands (by decide) (List.forall_mem_singleton.mpr (.of_single rfl (by decide)))
    refine .of_operands (by decide) ?_
    simp only [nestedBlocks, operands, List.forall_mem_cons]
    exact ⟨.of_operands (by decide) (List.forall_mem_singleton.mpr text),
      .of_operands (by decide) (List.forall_mem_singleton.mpr type),
      .of_single rfl (by decide), by simp⟩
  refine ⟨named, print_eq_shift.1 _ named "> ", Dump.load_pointDocument, ?_⟩
  simp only [Dump.pointDump, List.map_cons, List.map_nil, List.cons.injEq, and_true]
  refine (print_eq_shift.2 _ _ _ Dump.load_pointDocument _ List.mem_cons_self _ rfl ?_).trans
    (by decide)
  refine List.forall_mem_singleton.mpr (.of_operands (by decide) ?_)
  refine List.forall_mem_singleton.mpr (.of_operands (by decide) ?_)
  exact List.forall_mem_singleton.mpr (.of_single rfl (by decide))

end Instr

end MemberOrigin
