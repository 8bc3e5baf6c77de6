import MemberOrigin.Record.AutoProperty

/-!
# Analysis of a record

What the recognition of generated members needs to know of the record as a whole: its automatic
properties, whether it extends another record, and the order in which generated methods walk its
members. That order is known only if every field is behind an automatic property; it is then the
order of the properties.
-/
namespace MemberOrigin

/-- Names of members that the compiler reserves or synthesizes. -/
def equalityContractName : String := "EqualityContract"

def printMembersName : String := "PrintMembers"

def cloneName : String := "<Clone>$"

def equalityOperatorName : String := "op_Equality"

def inequalityOperatorName : String := "op_Inequality"

/-- A record with a base class that is not the class of all objects. -/
def RecordHeader.isInherited (header : RecordHeader) : Bool :=
  header.baseType.any fun base => !base.isKnown .object

/-- What is known of a record. -/
structure Analysis where
  record : RecordType
  isInherited : Bool
  backingFields : BackingFields
  /-- The properties in the order of generated methods, if that order is known. -/
  memberOrder : Option (List Property)
  /-- Whether internal preconditions are checked. -/
  checked : Bool
deriving Inhabited

/-- The order of the members, once the backing fields are known. -/
def RecordType.memberOrder? (record : RecordType) (backing : BackingFields) :
    Option (List Property) :=
  if record.fields.all backing.hasField then some record.properties else none

namespace Analysis

/-- Analyses a record. -/
def build (record : RecordType) (checked : Bool) : Query Analysis :=
  .checkpoint do
    let backing ← AutoProperty.detect record
    return {
      record
      isInherited := record.isInherited
      backingFields := backing
      memberOrder := record.memberOrder? backing
      checked }

/-- Goes on if a precondition holds; a violation is a defect where preconditions are checked. -/
def expect {α : Type} (analysis : Analysis) (condition : Bool) (message : String)
    (next : Query α) : Query α :=
  Query.require (condition || !analysis.checked) (.violation message) next

end Analysis

end MemberOrigin
