import MemberOrigin.Dump.Reader

/-!
# Sections of a dump

The lists of declarations of a dump. Every entry is read on its own, so that one problem hides no
other; an entry that repeats an earlier one is a problem too. Sections keep the positions of what
was read.
-/
namespace MemberOrigin.Dump

/-- What was read of a list of entries, and the problems, both in the order of the entries. -/
structure Collected (α : Type) where
  kept : List (Nat × α)
  problems : List Problem
deriving Inhabited

namespace Collected

def values {α : Type} (collected : Collected α) : List α :=
  collected.kept.map Prod.snd

end Collected

/-- How the entries of a section are read, and when one repeats another. -/
structure Section (α : Type) where
  read : Nat → Document → Reading α
  clashes : α → α → Bool
  /-- The problem of an entry that clashes with an earlier one. -/
  clash : Nat → α → Problem

namespace Section

/-- Reads the entries from a position on, after some that are kept already. -/
def collectFrom {α : Type} (sec : Section α) (earlier : List α) :
    Nat → List Document → Collected α
  | _, [] => ⟨[], []⟩
  | position, item :: rest =>
    match sec.read position item with
    | .error problem =>
      let others := sec.collectFrom earlier (position + 1) rest
      ⟨others.kept, problem :: others.problems⟩
    | .ok value =>
      if earlier.any (sec.clashes value) then
        let others := sec.collectFrom earlier (position + 1) rest
        ⟨others.kept, sec.clash position value :: others.problems⟩
      else
        let others := sec.collectFrom (earlier ++ [value]) (position + 1) rest
        ⟨(position, value) :: others.kept, others.problems⟩

/-- Reads all entries of a section. -/
def collect {α : Type} (sec : Section α) (items : List Document) : Collected α :=
  sec.collectFrom [] 0 items

end Section

/-- The entries of a section, and the problem of a section that is no list. -/
def sectionItems (root : Document) (key : String) : List Document × List Problem :=
  match Reading.list root key .markedRoot .invalidDocument with
  | .ok items => (items, [])
  | .error problem => ([], [problem])

end MemberOrigin.Dump
