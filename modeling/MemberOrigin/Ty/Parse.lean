import MemberOrigin.Ty.Shape
import MemberOrigin.Ty.Known
import MemberOrigin.Number.Basic

/-!
# Reading types

`Ty.parse? scope text` reads a type string in a scope of type parameters, or gives `none` for a
malformed one. Keywords such as `int` stand for named types; a question mark behind a keyword of a
value type makes it nullable, behind anything else it is an annotation.
-/
namespace MemberOrigin.Ty

/-- The types that a keyword stands for, and whether they are value types. -/
def keywords : List (String × String × Bool) :=
  [("object", "Object", false), ("string", "String", false), ("bool", "Boolean", true),
    ("char", "Char", true), ("sbyte", "SByte", true), ("byte", "Byte", true),
    ("short", "Int16", true), ("ushort", "UInt16", true), ("int", "Int32", true),
    ("uint", "UInt32", true), ("long", "Int64", true), ("ulong", "UInt64", true),
    ("float", "Single", true), ("double", "Double", true), ("decimal", "Decimal", true),
    ("void", "Void", false)]

/-- Words that no type string may consist of. -/
def reservedWords : List String :=
  ["constructor", "toString", "valueOf", "hasOwnProperty", "isPrototypeOf", "propertyIsEnumerable",
    "toLocaleString", "__proto__", "__defineGetter__", "__defineSetter__", "__lookupGetter__",
    "__lookupSetter__"]

/-- The type that a keyword stands for. -/
def keyword? (word : String) : Option Ty :=
  (keywords.lookup word).map fun (name, _) => system name

/-- The type that a keyword of a value type stands for. -/
def valueKeyword? (word : String) : Option Ty :=
  match keywords.lookup word with
  | some (name, true) => some (system name)
  | _ => none

/-- The nullable form of a value type. -/
def nullableOf (type : Ty) : Ty :=
  .named "System" "Nullable" [type] false

/-- The index that a run of digits writes: a double, where `Binary64.overflow` stands for all
that are too large. -/
def positionOf (digits : Nat) : Nat :=
  (Number.roundNat digits).getD Binary64.overflow

/-- A type parameter by position, which takes its name from the scope if the scope has it. -/
def positional? (scope : TypeScope) (text : List Char) : Option Ty :=
  match text with
  | '!' :: '!' :: digits =>
    (Text.natural? digits).map fun n =>
      .parameter .method (positionOf n)
        (scope.methodTypeParameters[positionOf n]?.getD (String.ofList text)) false
  | '!' :: digits =>
    (Text.natural? digits).map fun n =>
      .parameter .type (positionOf n)
        (scope.typeParameters[positionOf n]?.getD (String.ofList text)) false
  | _ => none

/-- A type parameter by name; those of the method hide those of the type. -/
def inScope? (scope : TypeScope) (word : String) : Option Ty :=
  match scope.methodTypeParameters.idxOf? word with
  | some index => some (.parameter .method index word false)
  | none =>
    match scope.typeParameters.idxOf? word with
    | some index => some (.parameter .type index word false)
    | none => none

/-- The words with a meaning of their own. -/
def builtin? (word : String) : Option Ty :=
  match keyword? word with
  | some type => some type
  | none =>
    if word == "dynamic" then some (.dynamic false)
    else if word == "nint" then some (.nativeInteger false)
    else if word == "nuint" then some (.nativeInteger true)
    else none

/-- The namespace, up to the last dot, and the name of a qualified name. -/
def splitQualified (word : List Char) : List Char × List Char :=
  let name := (word.reverse.takeWhile (· != '.')).reverse
  (word.take (word.length - name.length - 1), name)

/-- The named type with a qualified name. -/
def ofQualified (word : List Char) (args : List Ty) : Ty :=
  let (ns, name) := splitQualified word
  .named (String.ofList ns) (String.ofList name) args false

/-- The type of an atom that is no instantiation. -/
def word? (scope : TypeScope) (text : List Char) : Option Ty :=
  let word := String.ofList text
  match positional? scope text with
  | some type => some type
  | none =>
    match inScope? scope word with
    | some type => some type
    | none =>
      match builtin? word with
      | some type => some type
      | none =>
        if reservedWords.contains word then none
        else if Text.isQualifiedWord text then some (ofQualified text [])
        else none

/-- The named type of an instantiation whose arguments are read; their number is checked. -/
def instantiate? (parts : Instantiation) (args : Option (List Ty)) : Option Ty :=
  if parts.arguments.length == parts.arity then args.map (ofQualified parts.name) else none

/-- A tuple of at least two elements; the names are left out if no element has one. -/
def tuple? (parts : List (List Char × Option (List Char))) (types : Option (List Ty)) : Option Ty :=
  if parts.length < 2 then none
  else
    let names := parts.map fun part => part.2.map String.ofList
    types.map fun types => .tuple types (if names.any Option.isSome then names else [])

/-- The values, if every one is there. -/
def allSome {α : Type} : List (Option α) → Option (List α)
  | [] => some []
  | none :: _ => none
  | some a :: rest => (allSome rest).map (a :: ·)

/-- Reads a type string. -/
def parseChars (scope : TypeScope) (text : List Char) : Option Ty :=
  if (Text.trim text).isEmpty then none else
  match _found : shape (Text.trim text) with
  | .reference element => (parseChars scope element).map .reference
  | .optional inner =>
    match valueKeyword? (String.ofList inner) with
    | some type => some (nullableOf type)
    | none => (parseChars scope inner).bind annotate?
  | .array element rank => (parseChars scope element).map (.array · rank false)
  | .tuple elements =>
    tuple? (elements.map elementParts)
      (allSome (elements.attach.map fun element => parseChars scope (elementParts element.1).1))
  | .atom =>
    match word? scope (Text.trim text) with
    | some type => some type
    | none =>
      match _parsed : instantiation? (Text.trim text) with
      | some parts =>
        instantiate? parts
          (allSome (parts.arguments.attach.map fun argument => parseChars scope argument.1))
      | none => none
termination_by text.length
decreasing_by
  all_goals have bound := Text.length_trim_le text
  · have := @length_parts_lt (Text.trim text) element (by simp [_found, Shape.parts])
    omega
  · have := @length_parts_lt (Text.trim text) inner (by simp [_found, Shape.parts])
    omega
  · have := @length_parts_lt (Text.trim text) element (by simp [_found, Shape.parts])
    omega
  · have := @length_parts_lt (Text.trim text) element.1
      (by simpa only [_found, Shape.parts] using element.2)
    have := length_elementParts_le element.1
    omega
  · have := length_instantiation? _parsed argument.1 argument.2
    omega

/-- One step of reading: the shape of the trimmed text decides what is read inside it. -/
theorem parseChars_eq (scope : TypeScope) (text : List Char) :
    parseChars scope text =
      if (Text.trim text).isEmpty then none else
      match shape (Text.trim text) with
      | .reference element => (parseChars scope element).map .reference
      | .optional inner =>
        match valueKeyword? (String.ofList inner) with
        | some type => some (nullableOf type)
        | none => (parseChars scope inner).bind annotate?
      | .array element rank => (parseChars scope element).map (.array · rank false)
      | .tuple elements =>
        tuple? (elements.map elementParts)
          (allSome (elements.map fun element => parseChars scope (elementParts element).1))
      | .atom =>
        match word? scope (Text.trim text) with
        | some type => some type
        | none =>
          match instantiation? (Text.trim text) with
          | some parts => instantiate? parts (allSome (parts.arguments.map (parseChars scope)))
          | none => none := by
  rw [parseChars]
  split
  · rfl
  · split <;> rename_i found <;> simp only [found]
    · rw [List.attach_map_val (f := fun element => parseChars scope (elementParts element).1)]
    · congr 1
      split <;> rename_i parsed <;> simp only [parsed]
      rw [List.attach_map_val (f := parseChars scope)]

/-- Reads a type string in a scope of type parameters. -/
def parse? (scope : TypeScope) (text : String) : Option Ty :=
  parseChars scope text.toList

end MemberOrigin.Ty
