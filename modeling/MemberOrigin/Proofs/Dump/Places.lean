import MemberOrigin.Proofs.Dump.Agreement
import MemberOrigin.Proofs.Dump.WellScoped

/-!
# Places of problems

## Main result

`load_problems_located`: the path of a problem, read off its text, leads to a node of the document or
to a key that is missing in one. Only a parameter that repeats a name is looked for in another place
than where it stands.

## Proof strategy

A reader that is handed the path of a node hands on paths of nodes below. This is the agreement of a
single run with itself, over the places that the document has.
-/
namespace MemberOrigin

namespace Document

/-- A path that leads to a node, or to a key that is missing in a node. -/
def PointsInto (document : Document) (steps : List Step) : Prop :=
  (∃ node, document.node? steps = some node) ∨
    ∃ parent key node, steps = parent ++ [.key key] ∧ document.node? parent = some node

end Document

namespace Dump

open Reading Relocation

variable {document : Document}

/-- The problem of a parameter that repeats a name. It is reported inside the body, although the
parameter stands beside it. -/
inductive RepeatsParameter (document : Document) : Problem → Prop
  | repeated {position index : Nat} {name : String} {node : Document}
      (stands : document.node? [.key "methods", .index position, .key "parameters", .index index] =
        some node) :
      RepeatsParameter document
        ⟨.duplicateDeclaration,
          ⟨[.key "methods", .index position, .key "body", .key "parameters", .index index], false⟩,
          .duplicateVariable name⟩

/-- A problem whose path can be read, and leads to where the problem is. -/
structure Located (document : Document) (problem : Problem) : Prop where
  readable : DocPath.read? problem.path.text = some problem.path.steps
  points : document.PointsInto problem.path.steps ∨ RepeatsParameter document problem

/-- The places of a single document. -/
def places (document : Document) : Relocation where
  At path _ node := path.Plain ∧ document.node? path.steps = some node
  Pairs problem _ := Located document problem
  here placed _ _ := ⟨DocPath.read?_text placed.1, .inl (.inl ⟨_, placed.2⟩)⟩
  below placed _ plain _ _ :=
    ⟨DocPath.read?_text (placed.1.key plain), .inl (.inr ⟨_, _, _, rfl, placed.2⟩)⟩
  key placed _ plain found := ⟨placed.1.key plain, Document.node?_key placed.2 found⟩
  item placed _ _ found := ⟨placed.1.index _, Document.node?_item placed.2 found⟩

theorem located_of_refused {α : Type} {reading : Reading α}
    (agree : (places document).Agree reading reading) {problem : Problem}
    (refused : reading = .error problem) : Located document problem := by
  subst refused
  cases agree with
  | error pairs => exact pairs

theorem at_root : (places document).At .root .root document := ⟨DocPath.plain_root, rfl⟩

theorem at_markedRoot : (places document).At .markedRoot .markedRoot document := by
  refine ⟨?_, rfl⟩
  intro name member
  cases member

/-! ### Sections -/

section Sections

variable {key : String}

theorem located_of_mem_sectionItems (plain : PlainKey key) {problem : Problem}
    (reported : problem ∈ (sectionItems document key).2) : Located document problem := by
  unfold sectionItems at reported
  split at reported
  · cases reported
  next refused =>
    obtain rfl := List.mem_singleton.mp reported
    exact located_of_refused (list_agrees at_markedRoot plain) refused

theorem at_item (plain : PlainKey key) {position : Nat} {item : Document}
    (found : (sectionItems document key).1[position]? = some item) (other : DocPath) :
    (places document).At ((DocPath.root.key key).index position) other item := by
  unfold sectionItems at found
  split at found
  next items read =>
    rcases get?_of_list read with rfl | entry
    · cases found
    · exact (places document).item ((places document).key at_root plain entry) found
  · cases found

/-- The problems of a section are located if those of single entries are. -/
theorem located_of_mem_collect {α : Type} {sec : Section α} {problem : Problem}
    (read : ∀ position item, (sectionItems document key).1[position]? = some item →
      (places document).Agree (sec.read position item) (sec.read position item))
    (clash : ∀ position item value, (sectionItems document key).1[position]? = some item →
      sec.read position item = .ok value → Located document (sec.clash position value))
    (reported : problem ∈ (sec.collect (sectionItems document key).1).problems) :
    Located document problem := by
  obtain ⟨item, position, found, refused | ⟨value, isRead, rfl⟩⟩ :=
    sec.exists_of_mem_problems reported
  · exact located_of_refused (read position item (List.mem_zipIdx_iff_getElem?.mp found)) refused
  · exact clash position item value (List.mem_zipIdx_iff_getElem?.mp found) isRead

end Sections

theorem located_of_mem_fields {scope : DumpScope} {problem : Problem}
    (reported : problem ∈
      ((fieldSection scope).collect (sectionItems document "fields").1).problems) :
    Located document problem := by
  apply located_of_mem_collect _ _ reported
  · intro position item found
    exact readField_agrees (.refl scope) (.inl rfl) (at_item (by decide) found _)
  · intro position item field found _
    exact (places document).here (at_item (by decide) found .root) _ _

theorem located_of_mem_methods {scope : DumpScope} {problem : Problem}
    (reported : problem ∈
      ((methodSection scope).collect (sectionItems document "methods").1).problems) :
    Located document problem := by
  apply located_of_mem_collect _ _ reported
  · intro position item found
    exact readMethod_agrees (.refl scope) (.inl rfl) (at_item (by decide) found _)
  · -- a method that repeats a token is reported at its token
    intro position item method found _
    exact (places document).below (at_item (by decide) found .root) (by decide) _ _

theorem located_of_mem_properties {scope : DumpScope} {problem : Problem}
    (reported : problem ∈
      ((propertySection scope).collect (sectionItems document "properties").1).problems) :
    Located document problem := by
  apply located_of_mem_collect _ _ reported
  · intro position item found
    exact readProperty_agrees (.refl scope) (.inl rfl) (at_item (by decide) found _)
  · intro position item property found _
    exact (places document).here (at_item (by decide) found .root) _ _

/-- A body is read from the node below its method. -/
theorem at_body {scope bodyScope : DumpScope} {position : Nat} {method : Method}
    (kept : (position, method) ∈
      ((methodSection scope).collect (sectionItems document "methods").1).kept)
    {reading : Reading Body}
    (found : bodyAt bodyScope (sectionItems document "methods").1 position method = some reading) :
    ∃ value, (∀ other, (places document).At
        (((DocPath.root.key "methods").index position).key "body") other value) ∧
      readBody bodyScope method value (((DocPath.root.key "methods").index position).key "body") =
        reading := by
  obtain ⟨item, listed, read⟩ := Section.exists_of_mem_kept _ kept
  have inItems := List.mem_zipIdx_iff_getElem?.mp listed
  unfold bodyAt at found
  rw [inItems] at found
  dsimp only at found
  -- a method that is kept has a body only if there is a node for it
  split at found
  next hasBody =>
    rw [Bool.and_eq_true] at hasBody
    obtain ⟨onBody, _⟩ := readMethod_bodyAndParameters read
    rw [hasBody.1] at onBody
    obtain ⟨entries, isBody⟩ := readHasBody_eq_true onBody
    rw [isBody, Option.some.injEq, Option.getD_some] at found
    exact ⟨_, fun _ =>
      (places document).key (at_item (by decide) inItems .root) (by decide) isBody, found⟩
  next => cases found

/-- A body stands below its method, and so do the parameters that it declares. -/
theorem located_of_mem_bodies {scope bodyScope : DumpScope} {problem : Problem}
    (reported : problem ∈ (collectBodies bodyScope (sectionItems document "methods").1
      ((methodSection scope).collect (sectionItems document "methods").1).kept).2) :
    Located document problem := by
  obtain ⟨position, method, kept, refused⟩ := mem_problems_collectBodies_iff.mp reported
  obtain ⟨item, listed, read⟩ := Section.exists_of_mem_kept _ kept
  have found := List.mem_zipIdx_iff_getElem?.mp listed
  obtain ⟨_, onParameters⟩ := readMethod_bodyAndParameters read
  have placed := at_item (by decide) found ((DocPath.root.key "methods").index position)
  obtain ⟨value, inBody, refused⟩ := at_body kept refused
  apply located_of_refused (readBody_agrees (.refl bodyScope) (inBody _) _) refused
  intro index parameter declared
  -- the method has this parameter from an entry of its own list, not of the body
  obtain ⟨items, onItems, each⟩ := bind_eq_ok_iff.mp onParameters
  obtain ⟨entry, listed, _⟩ := getElem?_of_each each declared
  have stands := (at_of_list placed (by decide) onItems listed).2
  exact ⟨DocPath.read?_text (((inBody .root).1.key (by decide)).index index),
    .inr (.repeated stands)⟩

/-! ### Documents -/

theorem located_of_mem_readSections (header : RecordHeader) {problem : Problem}
    (reported : problem ∈ (readSections header document).problems) : Located document problem := by
  simp only [readSections, List.mem_append] at reported
  rcases reported with (((((ofFields | inFields) | ofMethods) | inMethods) | ofProperties) |
    inProperties) | inBodies
  · exact located_of_mem_sectionItems (by decide) ofFields
  · exact located_of_mem_fields inFields
  · exact located_of_mem_sectionItems (by decide) ofMethods
  · exact located_of_mem_methods inMethods
  · exact located_of_mem_sectionItems (by decide) ofProperties
  · exact located_of_mem_properties inProperties
  · exact located_of_mem_bodies inBodies

/-- Every problem of a document that does not load points into the document, as its path is read off
its text, or it is the problem of a parameter that repeats a name. -/
theorem load_problems_located {fileName : String} {problems : List Problem}
    (refused : load fileName document = .error problems) :
    ∀ problem ∈ problems, DocPath.read? problem.path.text = some problem.path.steps ∧
      (document.PointsInto problem.path.steps ∨ RepeatsParameter document problem) := by
  intro problem reported
  suffices located : Located document problem from ⟨located.readable, located.points⟩
  unfold load at refused
  -- a problem is one of the header, of a section, or of a root that is no object
  split at refused
  · split at refused
    next ofHeader =>
      cases refused
      obtain rfl := List.mem_singleton.mp reported
      exact located_of_refused (readHeader_agrees at_root) ofHeader
    · dsimp only at refused
      split at refused
      · cases refused
      · cases refused
        exact located_of_mem_readSections _ reported
  · cases refused
    obtain rfl := List.mem_singleton.mp reported
    exact (places document).here at_root _ _

/-- A dump with a method that declares the parameter `a` twice. -/
def repeatingDocument : Document :=
  let parameter : Document := .object [("name", .string "a"), ("type", .string "int")]
  .object [
    ("record", .object [("name", .string "R")]),
    ("methods", .list [.object [
      ("name", .string "M"), ("parameters", .list [parameter, parameter]),
      ("body", .object [("instructions", .list [.string "nop"])])]])]

def repeatedParameter : Problem :=
  ⟨.duplicateDeclaration,
    ⟨[.key "methods", .index 0, .key "body", .key "parameters", .index 1], false⟩,
    .duplicateVariable "a"⟩

theorem load_repeatingDocument :
    load "dump.yaml" repeatingDocument = .error [repeatedParameter] := by
  decide +kernel

theorem load_problems_located_repeatingDocument :
    load "dump.yaml" repeatingDocument = .error [repeatedParameter] ∧
      DocPath.read? repeatedParameter.path.text = some repeatedParameter.path.steps ∧
      (repeatingDocument.PointsInto repeatedParameter.path.steps ∨
        RepeatsParameter repeatingDocument repeatedParameter) :=
  ⟨load_repeatingDocument, load_problems_located load_repeatingDocument _ List.mem_cons_self⟩

/-- The path of a problem does not always point into the document: the body that is named here has no
parameters, and its parent is no node. -/
theorem not_pointsInto_repeatedParameter :
    ∃ problems, load "dump.yaml" repeatingDocument = .error problems ∧
      ∃ problem ∈ problems,
        problem.path.text = "methods[0].body.parameters[1]" ∧
        repeatingDocument.node? problem.path.steps.dropLast = none ∧
        ¬ repeatingDocument.PointsInto problem.path.steps := by
  refine ⟨_, load_repeatingDocument, repeatedParameter, List.mem_cons_self, by decide, rfl, ?_⟩
  rintro (⟨node, stands⟩ | ⟨parent, key, node, same, _⟩)
  · cases stands
  · -- the last step is a position and not a key
    have last := congrArg List.getLast? same
    simp [repeatedParameter] at last

end Dump

end MemberOrigin
