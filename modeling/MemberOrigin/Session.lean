import MemberOrigin.Dump.Loader
import MemberOrigin.Record.Classifier

/-!
# Sessions

An interactive run over one dump: the record stays as it is, its bodies can be edited, and queries
are answered from the bodies at hand. One cancellation is shared by all queries of a session.
-/
namespace MemberOrigin

structure Session where
  record : RecordType
  scope : DumpScope
  host : Host
  /-- Whether preconditions are checked. -/
  checked : Bool
  analysis : Option Analysis := none
  /-- A number that no variable of a body has, nor any greater one. -/
  freshId : Nat := 0
deriving Inhabited

/-- A variable of an edited body: one that is there by this name, or a new one. -/
inductive VariableChoice
  | existing (name : String)
  | new (kind : VariableKind) (index : Int) (name : String) (type : Ty)
deriving Repr, Inhabited

namespace Session

/-- A session over a dump, before anything is analysed. -/
def start (dump : RecordDump) (checked : Bool) (cancelled : Option Cancellation)
    (interruption : Option Interruption) : Session :=
  { record := dump.record
    scope := dump.scope
    host := { bodies := dump.bodies, cancelled, interruption }
    checked
    -- the variables of a body that is read are numbered from zero on
    freshId := dump.bodies.foldl (fun bound entry => max bound entry.2.vars.length) 0 }

/-- Answers a query. -/
def ask {α : Type} (session : Session) (query : Query α) : Except Failure α × Session :=
  let (result, host) := query.run session.host
  (result, { session with host })

/-- Analyses the record anew over the present bodies. A failed analysis leaves none behind. -/
def analyse (session : Session) : Except Failure Analysis × Session :=
  let (result, after) := session.ask (Analysis.build session.record session.checked)
  (result, { after with analysis := result.toOption })

def cancel (session : Session) (reason : Cancellation) : Session :=
  { session with host := session.host.cancel reason }

def interruptAt (session : Session) (interruption : Interruption) : Session :=
  { session with host := { session.host with interruption := some interruption } }

def body? (session : Session) (method : Method) : Option Body :=
  session.host.bodies.find? method.token

/-- Puts a body in place of the one of a method. -/
def putBody (session : Session) (method : Method) (body : Body) : Session :=
  { session with
    host := { session.host with bodies := session.host.bodies.set method.token body }
    freshId := body.vars.foldl (fun bound v => max bound (v.id + 1)) session.freshId }

/-- Reads a body for the method at a position and puts it in place. -/
def readBody (session : Session) (position : Nat) (method : Method) (node : Document) :
    Reading (Body × Session) := do
  let path := ((DocPath.root.key "methods").index position).key "body"
  let body ← Dump.readBody session.scope method node path
  return (body, session.putBody method body)

/-- The chosen variables; new ones are numbered from `freshId` on. -/
def chooseVariables (body : Body) : Nat → List VariableChoice → List Variable
  | _, [] => []
  | fresh, .existing name :: rest =>
    (body.vars.find? fun v => v.name == name).toList ++ chooseVariables body fresh rest
  | fresh, .new kind index name type :: rest =>
    { id := fresh, kind, index, name, type } :: chooseVariables body (fresh + 1) rest

/-- Replaces the variables of a body and keeps its instructions. -/
def setVariables (session : Session) (method : Method) (body : Body)
    (choices : List VariableChoice) : Body × Session :=
  let body := { body with vars := chooseVariables body session.freshId choices }
  (body, session.putBody method body)

/-- Removes the instructions of a body and keeps its variables. -/
def emptyBody (session : Session) (method : Method) : Session :=
  match session.body? method with
  | some body => session.putBody method { body with instructions := [] }
  | none => session

def removeBody (session : Session) (method : Method) : Session :=
  { session with
    host := { session.host with bodies := session.host.bodies.erase method.token } }

end Session

end MemberOrigin
