import MemberOrigin.Record.Classifier
import MemberOrigin.Member.Signature
import MemberOrigin.Text.Lines
import MemberOrigin.Document.Json

/-!
# Reports

The verdicts on all properties and methods of a record, and the two forms in which they are shown:
plain text and a document.
-/
namespace MemberOrigin

inductive MemberKind
  | property
  | method
deriving Repr, DecidableEq, Inhabited

def MemberKind.word : MemberKind → String
  | property => "property"
  | method => "method"

structure Verdict where
  kind : MemberKind
  name : String
  signature : String
  generated : Bool
deriving Repr, DecidableEq, Inhabited

/-- The line of a verdict in a plain report. -/
def Verdict.line (verdict : Verdict) : String :=
  (if verdict.generated then "  [generated] " else "  [user]      ") ++ verdict.signature

def Verdict.toDocument (verdict : Verdict) : Document :=
  .object [("kind", .string verdict.kind.word), ("name", .string verdict.name),
    ("signature", .string verdict.signature), ("generated", .bool verdict.generated)]

/-- What is reported of a record. -/
structure Report where
  record : String
  isInherited : Bool
  /-- The names of automatic properties and of the fields behind them. -/
  autoProperties : List (String × String)
  /-- The names of the members in order, if the order is known. -/
  memberOrder : Option (List String)
  verdicts : List Verdict
deriving Repr, DecidableEq, Inhabited

namespace Analysis

def judgeProperties (analysis : Analysis) : List Property → Query (List Verdict)
  | [] => return []
  | property :: rest => do
    let generated ← analysis.propertyIsGenerated property
    let others ← judgeProperties analysis rest
    return ⟨.property, property.name, property.signature, generated⟩ :: others

def judgeMethods (analysis : Analysis) : List Method → Query (List Verdict)
  | [] => return []
  | method :: rest => do
    let generated ← analysis.methodIsGenerated method
    let others ← judgeMethods analysis rest
    return ⟨.method, method.name, method.signature, generated⟩ :: others

/-- The report of an analysed record: its properties, then its methods. -/
def report (analysis : Analysis) : Query Report := do
  let properties ← analysis.judgeProperties analysis.record.properties
  let methods ← analysis.judgeMethods analysis.record.methods
  return {
    record := analysis.record.qualifiedName
    isInherited := analysis.isInherited
    autoProperties := analysis.backingFields.pairs.map fun pair => (pair.1.name, pair.2.name)
    memberOrder := analysis.memberOrder.map fun order => order.map fun property => property.name
    verdicts := properties ++ methods }

end Analysis

/-- Classifies all members of a record. -/
def RecordType.classify (record : RecordType) (checked : Bool) : Query Report := do
  (← Analysis.build record checked).report

namespace Report

/-- The report on the generated members only. -/
def onlyGenerated (report : Report) : Report :=
  { report with verdicts := report.verdicts.filter (·.generated) }

def generatedCount (report : Report) : Nat :=
  (report.verdicts.filter (·.generated)).length

/-- A text, or a stand-in for the empty one. -/
def orElse (text standIn : String) : String :=
  if text.isEmpty then standIn else text

/-- The report as plain text. -/
def text (report : Report) : String :=
  let autos := ", ".intercalate (report.autoProperties.map fun pair => pair.1 ++ " <- " ++ pair.2)
  let order := match report.memberOrder with
    | some names => orElse (", ".intercalate names) "(empty)"
    | none => "(unknown)"
  Text.unlines <|
    ["record " ++ report.record]
      ++ (if report.isInherited then ["  inherited: yes"] else [])
      ++ ["  auto-properties: " ++ orElse autos "(none)", "  member order: " ++ order]
      ++ report.verdicts.map Verdict.line

/-- The report as a document. -/
def toDocument (report : Report) : Document :=
  .object [
    ("record", .string report.record),
    ("isInheritedRecord", .bool report.isInherited),
    ("autoProperties", .list (report.autoProperties.map fun pair =>
      .object [("property", .string pair.1), ("backingField", .string pair.2)])),
    ("memberOrder", match report.memberOrder with
      | some names => .list (names.map .string)
      | none => .null),
    ("members", .list (report.verdicts.map Verdict.toDocument))]

end Report

end MemberOrigin
