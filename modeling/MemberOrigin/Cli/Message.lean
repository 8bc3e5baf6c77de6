import MemberOrigin.Cli.Config

/-!
# Messages

What a run tells the user. Results go to the output; progress and errors go to the error output,
progress only if it is asked for.
-/
namespace MemberOrigin.Cli

inductive Level
  | result
  | verbose
  | error
deriving Repr, DecidableEq, Inhabited

/-- A message of a run: one of its log, or a page that is shown as it is. -/
inductive Message
  | log (level : Level) (text : String)
  | page (text : String)
deriving Repr, DecidableEq, Inhabited

inductive Channel
  | output
  | error
deriving Repr, DecidableEq, Inhabited

/-- Where a message is shown and as which text; hidden progress is shown nowhere. -/
def Message.line? (settings : Settings) : Message → Option (Channel × String)
  | .page text => some (.output, text)
  | .log .result text => some (.output, text)
  | .log .verbose text => if settings.verbose && !settings.quiet then some (.error, text) else none
  | .log .error text => some (.error, "Error: " ++ text)

end MemberOrigin.Cli
