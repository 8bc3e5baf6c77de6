import MemberOrigin.Ty.Basic

/-!
# Writing types

The notation of types: the number of arguments of a named type follows a grave accent and the
arguments stand in double brackets; a tuple writes each element with its name, if it has one.
-/
namespace MemberOrigin.Ty

/-- The name with its namespace in front, if it has one. -/
def qualify (ns name : String) : String :=
  if ns.isEmpty then name else ns ++ "." ++ name

def nullableMark (nullable : Bool) : String :=
  if nullable then "?" else ""

/-- The arguments of a named type, written one after the other. -/
def argumentList (arguments : List String) : String :=
  if arguments.isEmpty then ""
  else "\x60" ++ toString arguments.length ++ "[[" ++ ",".intercalate arguments ++ "]]"

/-- The brackets of an array of the given rank. -/
def rankText (rank : Int) : String :=
  "[" ++ String.ofList (List.replicate (rank - 1).toNat ',') ++ "]"

/-- A tuple element and its name; an empty name is not written. -/
def elementText (text : String) : Option String → String
  | some name => if name.isEmpty then text else text ++ " " ++ name
  | none => text

/-- Puts the names behind the written elements. -/
def nameElements : List String → List (Option String) → List String
  | [], _ => []
  | text :: texts, [] => text :: texts
  | text :: texts, name :: names => elementText text name :: nameElements texts names

mutual

/-- The text of a type. -/
def format : Ty → String
  | .named ns name args nullable =>
    qualify ns name ++ argumentList (formatAll args) ++ nullableMark nullable
  | .parameter _ _ name nullable => name ++ nullableMark nullable
  | .array element rank nullable => format element ++ rankText rank ++ nullableMark nullable
  | .reference element => format element ++ "&"
  | .tuple elements names =>
    "(" ++ ", ".intercalate (nameElements (formatAll elements) names) ++ ")"
  | .nativeInteger unsigned => if unsigned then "nuint" else "nint"
  | .dynamic nullable => "dynamic" ++ nullableMark nullable

/-- The texts of the types of a list. -/
def formatAll : List Ty → List String
  | [] => []
  | type :: rest => format type :: formatAll rest

end

theorem formatAll_eq_map (types : List Ty) : formatAll types = types.map format := by
  induction types with
  | nil => rfl
  | cons type rest ih => simp [formatAll, ih]

end MemberOrigin.Ty
