import MemberOrigin.Ty.Node

/-!
# Type identity is equality of canonical forms

## Main result

`same_identifies`: type identity is an equivalence, two types are the same exactly if their
canonical forms are equal, and a comparison of trees with parts left out gives what the comparison
of the types gives that they stand for.

## Proof strategy

The comparison follows the left type, and the right one has to keep up with it. That comparison and
canonical form agree is one induction on the left type for all right ones; the laws of an
equivalence are then those of equality.
-/
namespace MemberOrigin.Ty

mutual

/-- The canonical form of a type: a parameter has no name, and a tuple has one entry for the name of
each of its elements. -/
def canonical : Ty → Ty
  | .named ns name args nullable => .named ns name (canonicalAll args) nullable
  | .parameter owner index _ nullable => .parameter owner index "" nullable
  | .array element rank nullable => .array (canonical element) rank nullable
  | .reference element => .reference (canonical element)
  | .tuple elements names => .tuple (canonicalAll elements) (namesOf elements.length names)
  | .nativeInteger unsigned => .nativeInteger unsigned
  | .dynamic nullable => .dynamic nullable

def canonicalAll : List Ty → List Ty
  | [] => []
  | type :: rest => canonical type :: canonicalAll rest

end

theorem canonicalAll_eq_map (types : List Ty) : canonicalAll types = types.map canonical := by
  induction types with
  | nil => rfl
  | cons type rest ih => simp [canonicalAll, ih]

/-! ### Comparison and canonical form -/

/-- Lists are compared through the canonical forms of their types, if the types on the left are. -/
theorem sameAll_iff {left : List Ty}
    (each : ∀ type ∈ left, ∀ other, same type other = true ↔ canonical type = canonical other)
    (right : List Ty) :
    sameAll left right = true ↔ left.map canonical = right.map canonical := by
  induction left generalizing right with
  | nil => cases right <;> simp [sameAll]
  | cons type rest ih =>
    obtain ⟨here, others⟩ := List.forall_mem_cons.mp each
    cases right with
    | nil => simp [sameAll]
    | cons other more =>
      simp only [sameAll, Bool.and_eq_true, here other, ih others more, List.map_cons,
        List.cons.injEq]

/-- Two types are the same exactly if their canonical forms are equal. -/
theorem same_iff (left right : Ty) : same left right = true ↔ canonical left = canonical right := by
  -- by induction on the left type, which decides what is asked of the right one
  induction left using Ty.induction generalizing right with
  | named ns name args nullable ih =>
    cases right with
    | named ns' name' args' nullable' =>
      simp only [same, Bool.and_eq_true, beq_iff_eq, sameAll_iff ih, canonical,
        canonicalAll_eq_map, named.injEq]
      constructor
      · rintro ⟨⟨⟨sameNs, sameName⟩, annotated⟩, equal⟩
        exact ⟨sameNs, sameName, equal, annotated⟩
      · rintro ⟨sameNs, sameName, equal, annotated⟩
        exact ⟨⟨⟨sameNs, sameName⟩, annotated⟩, equal⟩
    | _ => simp [same, canonical]
  | parameter owner index name nullable =>
    cases right with
    | parameter => simp [same, canonical, and_assoc]
    | _ => simp [same, canonical]
  | array element rank nullable ih =>
    cases right with
    | array element' rank' nullable' =>
      simp only [same, Bool.and_eq_true, beq_iff_eq, ih, canonical, array.injEq]
      constructor
      · rintro ⟨⟨sameRank, annotated⟩, equal⟩
        exact ⟨equal, sameRank, annotated⟩
      · rintro ⟨equal, sameRank, annotated⟩
        exact ⟨⟨sameRank, annotated⟩, equal⟩
    | _ => simp [same, canonical]
  | reference element ih =>
    cases right with
    | reference => simp [same, canonical, ih]
    | _ => simp [same, canonical]
  | tuple elements names ih =>
    cases right with
    | tuple elements' names' =>
      simp only [same, Bool.and_eq_true, sameAll_iff ih, sameNames_iff, canonical,
        canonicalAll_eq_map, tuple.injEq]
      -- the names are compared on as many elements as the left tuple has
      apply and_congr_right
      intro equal
      have length : elements.length = elements'.length := by simpa using congrArg List.length equal
      rw [length]
    | _ => simp [same, canonical]
  | nativeInteger unsigned => cases right <;> simp [same, canonical]
  | dynamic nullable => cases right <;> simp [same, canonical]

/-! ### The laws of an equivalence -/

theorem same_refl (type : Ty) : same type type = true :=
  (same_iff type type).mpr rfl

theorem same_symm {left right : Ty} (identical : same left right = true) :
    same right left = true :=
  (same_iff right left).mpr ((same_iff left right).mp identical).symm

theorem same_trans {first second third : Ty} (identical : same first second = true)
    (next : same second third = true) : same first third = true :=
  (same_iff first third).mpr
    (((same_iff first second).mp identical).trans ((same_iff second third).mp next))

/-! ### Trees with parts left out -/

namespace Node

theorem exists_of_map {α β : Type} {f : α → β} {read : Except Unhandled α} {result : β}
    (mapped : read.map f = .ok result) : ∃ value, read = .ok value ∧ f value = result := by
  cases read with
  | error unhandled => cases mapped
  | ok value => exact ⟨value, rfl, Except.ok.inj mapped⟩

theorem toTys_cons_eq_ok {node : Node} {rest : List Node} {types : List Ty}
    (read : toTys (node :: rest) = .ok types) :
    ∃ type others, toTy node = .ok type ∧ toTys rest = .ok others ∧ types = type :: others := by
  rw [toTys] at read
  cases first : toTy node with
  | error unhandled =>
    rw [first] at read
    cases read
  | ok type =>
    rw [first] at read
    obtain ⟨others, more, rfl⟩ := exists_of_map read
    exact ⟨type, others, rfl, more, rfl⟩

mutual

/-- A tree without other nodes is the type that it stands for. -/
theorem outline_of_toTy {type : Ty} : (node : Node) → node.toTy = .ok type → node.outline = type
  -- the recursion is on the node; what is inside was turned into a type as well
  | named ns name args nullable, read => by
    obtain ⟨types, all, rfl⟩ := exists_of_map read
    rw [outline, outlines_of_toTys args all]
  | parameter _ _ _ _, read => Except.ok.inj read
  | array element rank nullable, read => by
    obtain ⟨type, inner, rfl⟩ := exists_of_map read
    rw [outline, outline_of_toTy element inner]
  | reference element, read => by
    obtain ⟨type, inner, rfl⟩ := exists_of_map read
    rw [outline, outline_of_toTy element inner]
  | tuple elements names, read => by
    obtain ⟨types, all, rfl⟩ := exists_of_map read
    rw [outline, outlines_of_toTys elements all]
  | nativeInteger _, read => Except.ok.inj read
  | dynamic _, read => Except.ok.inj read
  | unhandled _, read => by cases read

theorem outlines_of_toTys {types : List Ty} :
    (nodes : List Node) → toTys nodes = .ok types → outlines nodes = types
  | [], read => Except.ok.inj read
  | node :: rest, read => by
    obtain ⟨type, others, first, more, rfl⟩ := toTys_cons_eq_ok read
    rw [outlines, outline_of_toTy node first, outlines_of_toTys rest more]

end

theorem length_outlines (nodes : List Node) : (outlines nodes).length = nodes.length := by
  induction nodes with
  | nil => rfl
  | cons node rest ih => simp [outlines, ih]

theorem sameAll_outlines_of_length {left right : List Node} (differ : left.length ≠ right.length) :
    Ty.sameAll (outlines left) (outlines right) = false := by
  rw [Bool.eq_false_iff]
  intro identical
  have equal := (sameAll_iff (fun type _ => same_iff type) _).mp identical
  have length := congrArg List.length equal
  simp only [List.length_map, length_outlines] at length
  exact differ length

mutual

/-- Trees without other nodes are compared as the types that they stand for. -/
theorem same_outline {type other : Ty} : (left right : Node) → left.toTy = .ok type →
    right.toTy = .ok other → left.same right = .ok (Ty.same left.outline right.outline)
  | named ns name args nullable, right, read, read' => by
    obtain ⟨types, all, -⟩ := exists_of_map read
    cases right with
    | named ns' name' args' nullable' =>
      obtain ⟨others, all', -⟩ := exists_of_map read'
      -- without as many arguments the trees differ before any argument is looked at
      by_cases length : args.length = args'.length
      · simp only [same, outline, Ty.same, sameAll_outlines args args' all all' length, length]
        split <;> simp_all
      · have differ := sameAll_outlines_of_length length
        simp [same, outline, Ty.same, length, differ]
    | _ => rfl
  | parameter _ _ _ _, right, _, _ => by cases right <;> rfl
  | array element rank nullable, right, read, read' => by
    obtain ⟨type, inner, -⟩ := exists_of_map read
    cases right with
    | array element' rank' nullable' =>
      obtain ⟨other, inner', -⟩ := exists_of_map read'
      simp only [same, outline, Ty.same, same_outline element element' inner inner']
      split <;> simp_all
    | _ => rfl
  | reference element, right, read, read' => by
    obtain ⟨type, inner, -⟩ := exists_of_map read
    cases right with
    | reference element' =>
      obtain ⟨other, inner', -⟩ := exists_of_map read'
      simp only [same, outline, Ty.same, same_outline element element' inner inner']
    | _ => rfl
  | tuple elements names, right, read, read' => by
    obtain ⟨types, all, -⟩ := exists_of_map read
    cases right with
    | tuple elements' names' =>
      obtain ⟨others, all', -⟩ := exists_of_map read'
      by_cases length : elements.length = elements'.length
      · simp only [same, outline, Ty.same, length, length_outlines,
          sameAll_outlines elements elements' all all' length]
        rw [if_pos (beq_self_eq_true _)]
        rfl
      · have differ := sameAll_outlines_of_length length
        simp [same, outline, Ty.same, length, differ]
    | _ => rfl
  | nativeInteger _, right, _, _ => by cases right <;> rfl
  | dynamic _, right, _, read' => by
    -- a node of another kind counts as the dynamic type in the outline, but it is no type
    cases right with
    | unhandled => cases read'
    | _ => rfl
  | unhandled _, _, read, _ => by cases read

theorem sameAll_outlines {types others : List Ty} : (left right : List Node) →
    toTys left = .ok types → toTys right = .ok others → left.length = right.length →
    sameAll left right = .ok (Ty.sameAll (outlines left) (outlines right))
  | [], [], _, _, _ => rfl
  | node :: rest, node' :: rest', read, read', length => by
    obtain ⟨type, types, first, more, -⟩ := toTys_cons_eq_ok read
    obtain ⟨other, others, first', more', -⟩ := toTys_cons_eq_ok read'
    simp only [sameAll, outlines, Ty.sameAll, same_outline node node' first first',
      sameAll_outlines rest rest' more more' (Nat.succ.inj length)]
    cases Ty.same node.outline node'.outline <;> rfl
  | [], _ :: _, _, _, length => by cases length
  | _ :: _, [], _, _, length => by cases length

end

theorem same_of_toTy {left right : Node} {type other : Ty} (read : left.toTy = .ok type)
    (read' : right.toTy = .ok other) : left.same right = .ok (Ty.same type other) := by
  rw [same_outline left right read read', outline_of_toTy left read, outline_of_toTy right read']

end Node

/-! ### Main theorem -/

/-- Type identity is an equivalence. It forgets the names of parameters and what stands in a list of
names past the last element, and no other difference. A tree without an annotation is one without a
question mark, and a tuple without names is one whose elements have none. -/
theorem same_identifies :
    Equivalence (fun left right : Ty => same left right = true) ∧
      (∀ left right : Ty, same left right = true ↔ canonical left = canonical right) ∧
      ∀ {left right : Node} {type other : Ty}, left.toTy = .ok type → right.toTy = .ok other →
        left.same right = .ok (same type other) :=
  ⟨⟨same_refl, same_symm, same_trans⟩, same_iff, Node.same_of_toTy⟩

/-- A pair without names. -/
def bareNode : Node :=
  .tuple [.dynamic none, .array (.parameter .type 0 "T" (some true)) 1 none] none

/-- The same pair with a name for a third element. -/
def paddedNode : Node :=
  .tuple [.dynamic (some false), .array (.parameter .type 0 "!0" (some true)) 1 (some false)]
    (some [none, none, some "third"])

theorem same_identifies_paddedNode :
    ∃ type other, bareNode.toTy = .ok type ∧ paddedNode.toTy = .ok other ∧
      bareNode.same paddedNode = .ok (same type other) ∧ bareNode.same paddedNode = .ok true := by
  have identified : bareNode.same paddedNode = .ok (same _ _) := same_identifies.2.2 rfl rfl
  exact ⟨_, _, rfl, rfl, identified, identified⟩

end MemberOrigin.Ty
