import MemberOrigin.Document.Yaml.Node
import MemberOrigin.Document.Yaml.Scalar

/-!
# Keys of a YAML mapping

Keys are nodes of any kind but aliases, while the keys of an object are texts. Two keys of one mapping
may not be the same scalar; keys that differ but have the same text set the same entry, and the last
one counts.
-/
namespace MemberOrigin.Document.Yaml

/-- Whether a plain scalar can hold the text. -/
def isPlainText (text : String) : Bool :=
  match plain? true 0 ⟨text.toList, 0, 0, 0, false⟩ with
  | some (string value, after) => value == text && after.rest.isEmpty
  | _ => false

/-- The parts of a flow collection between its brackets. -/
def flowBrackets (opening closing : String) (parts : List String) : String :=
  if parts.isEmpty then opening ++ closing
  else opening ++ " " ++ ", ".intercalate parts ++ " " ++ closing

mutual

/-- A node in the flow style. -/
def flowText : Document → String
  | null => "null"
  | bool value => if value then "true" else "false"
  | number value => value.text
  | string value => if isPlainText value then value else Text.quote value
  | list items => flowBrackets "[" "]" (itemTexts items)
  | object entries => flowBrackets "\x7b" "\x7d" (entryTexts entries)

def itemTexts : List Document → List String
  | [] => []
  | item :: rest => flowText item :: itemTexts rest

def entryTexts : List (String × Document) → List String
  | [] => []
  | (key, value) :: rest => (key ++ ": " ++ flowText value) :: entryTexts rest

end

/-- The text that a node is as the key of an object. -/
def keyText : Document → String
  | null => ""
  | string value => value
  | key => flowText key

/-- The same scalar. -/
def sameScalar : Document → Document → Bool
  | null, null => true
  | bool a, bool b => a == b
  | number a, number b => a.sameValue b
  | string a, string b => a == b
  | _, _ => false

/-- Entries read so far: the keys as written, and the object. -/
structure Entries where
  keys : List Document := []
  values : List (String × Node) := []

/-- Sets a key: in place if the key is there, at the end if it is not. -/
def Entries.put (entries : Entries) (key : String) (value : Node) : List (String × Node) :=
  if entries.values.any fun entry => entry.1 == key then
    entries.values.map fun entry => if entry.1 == key then (key, value) else entry
  else entries.values ++ [(key, value)]

/-- Adds an entry; a key that is already there is refused. -/
def Entries.add? (entries : Entries) (key value : Node) : Option Entries := do
  let key ← key.document?
  if entries.keys.any (sameScalar key) then none
  else some ⟨key :: entries.keys, entries.put (keyText key) value⟩

end MemberOrigin.Document.Yaml
