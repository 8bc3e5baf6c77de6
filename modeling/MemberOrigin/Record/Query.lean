import MemberOrigin.Code.Basic

/-!
# Queries on bodies

A query is a computation that may ask for the bodies of methods and may stop at checkpoints. What
answers it is a `Host`: the bodies at hand, and a cancellation that may strike while a body is
fetched. `Query.run` answers a query from a host, `Query.eval` from bodies alone.
-/
namespace MemberOrigin

/-- A defect of the analysis itself, not of what it reads. -/
inductive Defect
  | violation (message : String)
  | notOneToOne (property field : String)
deriving Repr, DecidableEq, Inhabited

def Defect.message : Defect → String
  | violation message => message
  | notOneToOne property field => "ICE: " ++ property ++ " ↔ " ++ field ++ " is not one-to-one"

/-- A computation on method bodies. -/
inductive Query (α : Type) : Type
  | answer (value : α)
  | fail (defect : Defect)
  /-- Goes on unless the run is cancelled. -/
  | checkpoint (next : Query α)
  | body (method : Method) (next : Option Body → Query α)

namespace Query

/-- Goes on with the answer. -/
def bind {α β : Type} : Query α → (α → Query β) → Query β
  | answer value, next => next value
  | fail defect, _ => fail defect
  | checkpoint query, next => checkpoint (bind query next)
  | body method query, next => body method fun found => bind (query found) next

instance : Monad Query where
  pure := answer
  bind := bind

/-- The answer from the given bodies, when nothing cancels the run. -/
def eval {α : Type} (bodies : Method → Option Body) : Query α → Except Defect α
  | answer value => .ok value
  | fail defect => .error defect
  | checkpoint query => eval bodies query
  | body method query => eval bodies (query (bodies method))

/-- Asks for the body of a method. A method without a token or without a body is not asked for. -/
def fetch (method : Method) : Query (Option Body) :=
  if method.token == 0 || !method.hasBody then answer none else body method answer

/-- Goes on if the condition holds, and fails if it does not. -/
def require {α : Type} (condition : Bool) (defect : Defect) (next : Query α) : Query α :=
  if condition then next else fail defect

end Query

/-- The bodies of methods by token; the tokens are distinct. -/
abbrev Bodies := List (Int × Body)

namespace Bodies

def find? (bodies : Bodies) (token : Int) : Option Body :=
  bodies.lookup token

/-- Sets the body of a token. -/
def set (token : Int) (body : Body) : Bodies → Bodies
  | [] => [(token, body)]
  | (other, old) :: rest =>
    if other == token then (token, body) :: rest else (other, old) :: set token body rest

def erase (token : Int) (bodies : Bodies) : Bodies :=
  bodies.filter fun entry => entry.1 != token

end Bodies

/-- Why a run is cancelled. -/
inductive Cancellation
  | unspecified
  | because (message : String)
deriving Repr, DecidableEq, Inhabited

def Cancellation.message : Cancellation → String
  | unspecified => "This operation was aborted"
  | because message => message

/-- How a query can end without an answer. -/
inductive Failure
  | cancelled (reason : Cancellation)
  | defect (cause : Defect)
deriving Repr, DecidableEq, Inhabited

def Failure.message : Failure → String
  | .cancelled reason => reason.message
  | .defect cause => cause.message

/-- A cancellation during the request with this number. The request itself is still answered,
unless it `stops`. -/
structure Interruption where
  request : Nat
  reason : Cancellation
  stops : Bool := false
deriving Repr, DecidableEq, Inhabited

/-- What answers requests for bodies. -/
structure Host where
  bodies : Bodies
  cancelled : Option Cancellation := none
  /-- How many bodies were asked for. -/
  requests : Nat := 0
  interruption : Option Interruption := none
deriving Inhabited

namespace Host

/-- Cancels the run; the first reason stays. -/
def cancel (host : Host) (reason : Cancellation) : Host :=
  { host with cancelled := some (host.cancelled.getD reason) }

/-- Answers one request for a body. -/
def answer (host : Host) (method : Method) : Except Failure (Option Body) × Host :=
  -- a request counts even if it is refused
  let counted := { host with requests := host.requests + 1 }
  match counted.cancelled with
  | some reason => (.error (.cancelled reason), counted)
  | none =>
    match counted.interruption with
    | some interruption =>
      if interruption.request == counted.requests then
        if interruption.stops then
          (.error (.cancelled interruption.reason), counted.cancel interruption.reason)
        else (.ok (counted.bodies.find? method.token), counted.cancel interruption.reason)
      else (.ok (counted.bodies.find? method.token), counted)
    | none => (.ok (counted.bodies.find? method.token), counted)

end Host

/-- Answers a query from a host. -/
def Query.run {α : Type} : Query α → Host → Except Failure α × Host
  | .answer value, host => (.ok value, host)
  | .fail defect, host => (.error (.defect defect), host)
  | .checkpoint query, host =>
    match host.cancelled with
    | some reason => (.error (.cancelled reason), host)
    | none => query.run host
  | .body method query, host =>
    match host.answer method with
    | (.error failure, after) => (.error failure, after)
    | (.ok found, after) => (query found).run after

end MemberOrigin
