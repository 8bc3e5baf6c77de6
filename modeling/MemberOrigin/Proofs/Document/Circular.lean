import Mathlib.Data.Finset.Card
import Mathlib.Data.Finset.Range
import Mathlib.Logic.Relation
import MemberOrigin.Document.Graph

/-!
# Values that are a part of themselves

## Main result

`exists_document_iff`: a value is a document exactly if no part of it is a part of itself.

## Proof strategy

The reader of a document keeps the way from the root. Each cell on the way has the present cell below
it, so a cell that comes back is below itself. The fuel is never the reason to stop: the cells on the
way are distinct, and there are not more of them than cells. The other way round, whatever lies below
the root has been read without coming back to a cell, and a cell below itself would have come back.
-/
namespace MemberOrigin.DocGraph

variable {graph : DocGraph}

/-- The list or the object has the other cell as a part. -/
def Has (graph : DocGraph) (whole part : Nat) : Prop :=
  ∃ step, (step, part) ∈ (graph.cell whole).parts

/-- The value, or one below it, is a part of itself. -/
def Circular (graph : DocGraph) : Prop :=
  ∃ node, Relation.ReflTransGen graph.Has graph.root node ∧ Relation.TransGen graph.Has node node

theorem Has.lt_size {whole part : Nat} (has : graph.Has whole part) : whole < graph.cells.size := by
  obtain ⟨step, member⟩ := has
  by_contra outside
  have absent : graph.cells[whole]? = none := Array.getElem?_eq_none (Nat.le_of_not_lt outside)
  simp [cell, absent, DocCell.parts] at member

theorem lt_size_of_below {above node : Nat} (below : Relation.TransGen graph.Has above node) :
    above < graph.cells.size := by
  obtain ⟨part, has, _⟩ := Relation.TransGen.head'_iff.mp below
  exact has.lt_size

theorem exists_of_mapM_eq_error {α β ε : Type} {f : α → Except ε β} {items : List α} {error : ε}
    (failed : items.mapM f = .error error) : ∃ item ∈ items, f item = .error error := by
  induction items with
  | nil => cases failed
  | cons first rest ih =>
    rw [List.mapM_cons] at failed
    cases read : f first with
    | error found =>
      rw [read] at failed
      cases failed
      exact ⟨first, List.mem_cons_self, read⟩
    | ok value =>
      rw [read] at failed
      cases others : rest.mapM f with
      | error found =>
        have same : found = error := by
          rw [others] at failed
          exact Except.error.inj failed
        obtain ⟨item, member, read⟩ := ih (others.trans (congrArg _ same))
        exact ⟨item, List.mem_cons_of_mem _ member, read⟩
      | ok values =>
        rw [others] at failed
        cases failed

theorem exists_of_mapM_eq_ok {α β ε : Type} {f : α → Except ε β} {items : List α} {values : List β}
    (read : items.mapM f = .ok values) : ∀ item ∈ items, ∃ value, f item = .ok value := by
  induction items generalizing values with
  | nil => simp
  | cons first rest ih =>
    rw [List.mapM_cons] at read
    cases readFirst : f first with
    | error found =>
      rw [readFirst] at read
      cases read
    | ok value =>
      rw [readFirst] at read
      cases others : rest.mapM f with
      | error found =>
        rw [others] at read
        cases read
      | ok values => exact List.forall_mem_cons.mpr ⟨⟨value, readFirst⟩, ih others⟩

/-- A reader that gives up has come back to a cell: the way leads down from the root, without
repetition, and with the fuel it is longer than there are cells. -/
theorem circular_of_tree {fuel : Nat} {way : List (Step × Nat)} {step : Step} {node : Nat}
    {circle : Circle} (failed : graph.tree fuel way step node = .error circle)
    (reached : Relation.ReflTransGen graph.Has graph.root node)
    (below : ∀ above ∈ way.map Prod.snd, Relation.TransGen graph.Has above node)
    (distinct : (way.map Prod.snd).Nodup) (enough : graph.cells.size < way.length + fuel) :
    graph.Circular := by
  induction fuel generalizing way step node circle with
  | zero =>
    -- there are not more cells on the way than cells, so the fuel does not run out
    have inside : (way.map Prod.snd).toFinset ⊆ Finset.range graph.cells.size := by
      intro above member
      exact Finset.mem_range.mpr (lt_size_of_below (below above (List.mem_toFinset.mp member)))
    have bound := Finset.card_le_card inside
    rw [List.toFinset_card_of_nodup distinct, Finset.card_range, List.length_map] at bound
    omega
  | succ fuel ih =>
    rw [tree] at failed
    split at failed
    next closed =>
      exact ⟨node, reached, below node (List.contains_iff_mem.mp closed)⟩
    next fresh =>
      simp only [bind, Except.bind] at failed
      split at failed
      next found partFailed =>
        -- the part at which reading fails is one step further down
        obtain ⟨⟨next, part⟩, member, gaveUp⟩ := exists_of_mapM_eq_error partFailed
        have gaveUpBelow : graph.tree fuel (way ++ [(step, node)]) next part = .error found := gaveUp
        have has : graph.Has node part := ⟨next, member⟩
        have longer : graph.cells.size < (way ++ [(step, node)]).length + fuel := by
          rw [List.length_append, List.length_singleton]
          omega
        refine ih gaveUpBelow (reached.tail has) ?_ ?_ longer
        · simp only [List.map_append, List.map_cons, List.map_nil, List.forall_mem_append,
            List.forall_mem_singleton]
          exact ⟨fun above member => (below above member).tail has, .single has⟩
        · have absent : node ∉ way.map Prod.snd := fun member =>
            fresh (List.contains_iff_mem.mpr member)
          rw [List.map_append]
          exact distinct.append (List.nodup_singleton node) (List.disjoint_singleton.mpr absent)
      next => cases failed

theorem circular_of_document {circle : Circle} (failed : graph.document = .error circle) :
    graph.Circular :=
  circular_of_tree failed .refl (by simp) (by simp) (by simp)

/-- A cell that is read is none of those above it, and its parts are read below it. -/
theorem of_tree_eq_ok {fuel : Nat} {way : List (Step × Nat)} {step : Step} {node : Nat}
    {document : Document} (read : graph.tree fuel way step node = .ok document) :
    node ∉ way.map Prod.snd ∧ ∀ part, graph.Has node part → ∃ less next value,
      graph.tree less (way ++ [(step, node)]) next part = .ok value := by
  cases fuel with
  | zero => cases read
  | succ fuel =>
    rw [tree] at read
    split at read
    next => cases read
    next fresh =>
      simp only [bind, Except.bind] at read
      split at read
      next => cases read
      next values ofParts =>
        refine ⟨fun member => fresh (List.contains_iff_mem.mpr member), fun part has => ?_⟩
        obtain ⟨next, member⟩ := has
        obtain ⟨value, ofPart⟩ := exists_of_mapM_eq_ok ofParts _ member
        exact ⟨fuel, next, value, ofPart⟩

/-- What lies below a cell that is read is read below it. -/
theorem exists_tree_of_reached {fuel : Nat} {way : List (Step × Nat)} {step : Step}
    {node last : Nat} {document : Document} (read : graph.tree fuel way step node = .ok document)
    (reached : Relation.ReflTransGen graph.Has node last) :
    ∃ less between next value, graph.tree less (way ++ between) next last = .ok value := by
  induction reached with
  | refl => exact ⟨fuel, [], step, document, by rwa [List.append_nil]⟩
  | tail _ has ih =>
    obtain ⟨less, between, next, value, ofWhole⟩ := ih
    obtain ⟨lesser, step, value, ofPart⟩ := (of_tree_eq_ok ofWhole).2 _ has
    rw [List.append_assoc] at ofPart
    exact ⟨lesser, _, step, value, ofPart⟩

theorem not_circular_of_document {document : Document} (read : graph.document = .ok document) :
    ¬ graph.Circular := by
  rintro ⟨node, reached, below⟩
  obtain ⟨fuel, way, step, value, ofNode⟩ := exists_tree_of_reached read reached
  obtain ⟨part, has, back⟩ := Relation.TransGen.head'_iff.mp below
  obtain ⟨fuel', next, value, ofPart⟩ := (of_tree_eq_ok ofNode).2 part has
  -- on the way back to the cell, the cell itself is above
  obtain ⟨less, between, last, value, again⟩ := exists_tree_of_reached ofPart back
  exact (of_tree_eq_ok again).1 (by simp)

/-- A value is a document exactly if no part of it is a part of itself. -/
theorem exists_document_iff : (∃ document, graph.document = .ok document) ↔ ¬ graph.Circular := by
  constructor
  · rintro ⟨document, read⟩
    exact not_circular_of_document read
  · intro notCircular
    cases read : graph.document with
    | ok document => exact ⟨document, rfl⟩
    | error circle => exact absurd (circular_of_document read) notCircular

end MemberOrigin.DocGraph
