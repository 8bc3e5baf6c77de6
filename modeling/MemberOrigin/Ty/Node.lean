import MemberOrigin.Ty.Identity

/-!
# Type nodes

A type as it comes from outside: a tree of nodes, of which some may have a kind that is no type.
Such a node is an error only where it is looked at, so that a comparison that ends before it still
has an answer. Annotations may be left out, and so may the names of a tuple.
-/
namespace MemberOrigin.Ty

/-- A node of a type tree. -/
inductive Node
  | named (ns name : String) (args : List Node) (nullable : Option Bool)
  | parameter (owner : Owner) (index : Int) (name : String) (nullable : Option Bool)
  | array (element : Node) (rank : Int) (nullable : Option Bool)
  | reference (element : Node)
  | tuple (elements : List Node) (names : Option (List (Option String)))
  | nativeInteger (unsigned : Bool)
  | dynamic (nullable : Option Bool)
  /-- A node of another kind, by its text. -/
  | unhandled (text : String)
deriving Repr, Inhabited

namespace Node

/-- What is looked at and is no type. -/
structure Unhandled where
  text : String
deriving Repr, DecidableEq, Inhabited

def Unhandled.message (unhandled : Unhandled) : String :=
  "ICE: Unhandled type kind: " ++ unhandled.text

/-- Whether a type carries the annotation; it does not if nothing is said about it. -/
def isNullable (nullable : Option Bool) : Bool :=
  nullable.getD false

/-- The names of the elements of a tuple; without a list of names no element has one. -/
def givenNames (names : Option (List (Option String))) : List (Option String) :=
  names.getD []

mutual

/-- The type of a tree, or the first of its nodes that is none. -/
def toTy : Node → Except Unhandled Ty
  | named ns name args nullable => (toTys args).map (.named ns name · (isNullable nullable))
  | parameter owner index name nullable => .ok (.parameter owner index name (isNullable nullable))
  | array element rank nullable => (toTy element).map (.array · rank (isNullable nullable))
  | reference element => (toTy element).map .reference
  | tuple elements names => (toTys elements).map (.tuple · (givenNames names))
  | nativeInteger unsigned => .ok (.nativeInteger unsigned)
  | dynamic nullable => .ok (.dynamic (isNullable nullable))
  | unhandled text => .error ⟨text⟩

def toTys : List Node → Except Unhandled (List Ty)
  | [] => .ok []
  | node :: rest => do
    let type ← toTy node
    return type :: (← toTys rest)

end

mutual

/-- The type of a tree in which every other node counts as the dynamic type. -/
def outline : Node → Ty
  | named ns name args nullable => .named ns name (outlines args) (isNullable nullable)
  | parameter owner index name nullable => .parameter owner index name (isNullable nullable)
  | array element rank nullable => .array (outline element) rank (isNullable nullable)
  | reference element => .reference (outline element)
  | tuple elements names => .tuple (outlines elements) (givenNames names)
  | nativeInteger unsigned => .nativeInteger unsigned
  | dynamic nullable => .dynamic (isNullable nullable)
  | unhandled _ => .dynamic false

def outlines : List Node → List Ty
  | [] => []
  | node :: rest => outline node :: outlines rest

end

mutual

/-- Type identity; the nodes of the first tree are looked at in order up to the first difference. -/
def same : Node → Node → Except Unhandled Bool
  | named ns name args nullable, other =>
    match other with
    | named ns' name' args' nullable' =>
      if ns == ns' && name == name' && isNullable nullable == isNullable nullable'
        && args.length == args'.length
      then sameAll args args' else .ok false
    | _ => .ok false
  | parameter owner index _ nullable, other =>
    match other with
    | parameter owner' index' _ nullable' =>
      .ok (owner == owner' && index == index' && isNullable nullable == isNullable nullable')
    | _ => .ok false
  | array element rank nullable, other =>
    match other with
    | array element' rank' nullable' =>
      if rank == rank' && isNullable nullable == isNullable nullable' then same element element'
      else .ok false
    | _ => .ok false
  | reference element, other =>
    match other with
    | reference element' => same element element'
    | _ => .ok false
  | tuple elements names, other =>
    match other with
    | tuple elements' names' =>
      if elements.length == elements'.length then do
        return (← sameAll elements elements')
          && sameNames elements.length (givenNames names) (givenNames names')
      else .ok false
    | _ => .ok false
  | nativeInteger unsigned, other =>
    match other with
    | nativeInteger unsigned' => .ok (unsigned == unsigned')
    | _ => .ok false
  | dynamic nullable, other =>
    match other with
    | dynamic nullable' => .ok (isNullable nullable == isNullable nullable')
    | _ => .ok false
  | unhandled text, _ => .error ⟨text⟩

def sameAll : List Node → List Node → Except Unhandled Bool
  | node :: rest, node' :: rest' => do
    if ← same node node' then sameAll rest rest' else return false
  | _, _ => .ok true

end

end Node

end MemberOrigin.Ty
