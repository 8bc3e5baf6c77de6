/-!
# Lines of a text

Lines are separated by the newline character alone. `indent` shifts every line of a text to the
right.
-/
namespace MemberOrigin.Text

/-- The lines of a text; the empty text is one empty line. -/
def lines (text : String) : List String :=
  (text.toList.splitOn '\n').map String.ofList

def unlines (ls : List String) : String :=
  "\n".intercalate ls

/-- Puts `margin` in front of every line. -/
def indent (margin text : String) : String :=
  unlines ((lines text).map (margin ++ ·))

end MemberOrigin.Text
