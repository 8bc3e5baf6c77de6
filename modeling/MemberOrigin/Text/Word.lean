/-!
# Words and identifiers

Words are ASCII: letters, digits and `_`. An identifier is a word that does not start with a digit.
A qualified word may also hold the separators `.` and `+`.
-/
namespace MemberOrigin.Text

/-- A letter, a digit or `_`. -/
def isWordChar (c : Char) : Bool :=
  c.isAlphanum || c == '_'

/-- What an identifier starts with: a letter or `_`. -/
def isWordStart (c : Char) : Bool :=
  c.isAlpha || c == '_'

/-- What a qualified word is made of: a word character, `.` or `+`. -/
def isQualifiedChar (c : Char) : Bool :=
  isWordChar c || c == '.' || c == '+'

def isIdentifier : List Char → Bool
  | [] => false
  | first :: rest => isWordStart first && rest.all isWordChar

def isQualifiedWord : List Char → Bool
  | [] => false
  | first :: rest => isWordStart first && rest.all isQualifiedChar

/-- The value of a run of decimal digits, read from the left. -/
def decimalValue (digits : List Char) : Nat :=
  digits.foldl (fun value digit => value * 10 + (digit.toNat - '0'.toNat)) 0

/-- A non-empty run of decimal digits that fills the whole text. -/
def natural? (text : List Char) : Option Nat :=
  if !text.isEmpty && text.all Char.isDigit then some (decimalValue text) else none

end MemberOrigin.Text
