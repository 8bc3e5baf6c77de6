import MemberOrigin.Member.Basic

/-!
# Backing fields

The one-to-one relation between automatic properties and the fields behind them. One table holds
every pair under the keys of its two members, so that the two directions cannot disagree. A key says
what a member is and gives its token and its name. A pair is refused if one of its members is in a
pair already.
-/
namespace MemberOrigin

/-- The key of a property in a table of members. -/
def Property.key (property : Property) : String :=
  "property:" ++ toString property.token ++ ":" ++ property.name

/-- The key of a field in a table of members. -/
def Field.key (field : Field) : String :=
  "field:" ++ toString field.token ++ ":" ++ field.name

/-- Properties with the fields behind them, one to one. -/
structure BackingFields where
  /-- The pairs in the order of the properties. -/
  pairs : List (Property × Field) := []
  /-- Every pair, under the key of its property and under the key of its field. -/
  table : List (String × Property × Field) := []
deriving Inhabited

namespace BackingFields

/-- The pair of the member with a key. -/
def pairOf? (backing : BackingFields) (key : String) : Option (Property × Field) :=
  backing.table.lookup key

/-- Whether the property or the field of a pair is in a pair already. -/
def repeats (backing : BackingFields) (pair : Property × Field) : Bool :=
  (backing.pairOf? pair.1.key).isSome || (backing.pairOf? pair.2.key).isSome

def add (backing : BackingFields) (pair : Property × Field) : BackingFields :=
  { pairs := backing.pairs ++ [pair]
    table := (pair.1.key, pair) :: (pair.2.key, pair) :: backing.table }

/-- Adds pairs in order; the first one that repeats a member is refused. -/
def addAll (backing : BackingFields) :
    List (Property × Field) → Except (Property × Field) BackingFields
  | [] => .ok backing
  | pair :: rest => if backing.repeats pair then .error pair else (backing.add pair).addAll rest

/-- The relation of these pairs, or the first pair that repeats a member. -/
def ofPairs (pairs : List (Property × Field)) : Except (Property × Field) BackingFields :=
  addAll {} pairs

/-- The field behind a property. -/
def fieldOf? (backing : BackingFields) (property : Property) : Option Field :=
  (backing.pairOf? property.key).map Prod.snd

/-- The property in front of a field. -/
def propertyOf? (backing : BackingFields) (field : Field) : Option Property :=
  (backing.pairOf? field.key).map Prod.fst

def hasField (backing : BackingFields) (field : Field) : Bool :=
  (backing.pairOf? field.key).isSome

end BackingFields

end MemberOrigin
