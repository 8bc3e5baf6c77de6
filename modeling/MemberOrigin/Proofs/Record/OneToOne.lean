import MemberOrigin.Proofs.Record.BackingFields
import MemberOrigin.Proofs.Record.Evaluation

/-!
# One-to-one relations

## Main result

`ofPairs_oneToOne`: pairs make a relation exactly if no two of them have a member in common. The
relation answers in both directions from these pairs alone, and keeps them in their order. Of other
pairs, the first that has a member in common with an earlier one is refused, and the analysis of a
record reports its names.

## Proof strategy

The key of a member tells its identity, so that two pairs without a common key have no common member.
The table is built pair by pair, and holds the pairs up to the one that is looked at.
-/
namespace MemberOrigin

/-! ### Identities -/

/-- The kinds of members that are paired. -/
inductive PairedKind
  | property
  | field
deriving DecidableEq

def PairedKind.word : PairedKind → String
  | property => "property"
  | field => "field"

/-- What tells a member from all others, whatever else is known of it. -/
structure MemberIdentity where
  kind : PairedKind
  token : Int
  name : String
deriving DecidableEq

def Property.identity (property : Property) : MemberIdentity :=
  ⟨.property, property.token, property.name⟩

def Field.identity (field : Field) : MemberIdentity :=
  ⟨.field, field.token, field.name⟩

/-- The kind, the token and the name of a member in one text. -/
def MemberIdentity.key (identity : MemberIdentity) : String :=
  identity.kind.word ++ ":" ++ toString identity.token ++ ":" ++ identity.name

theorem Property.key_identity (property : Property) : property.key = property.identity.key := rfl

theorem Field.key_identity (field : Field) : field.key = field.identity.key := rfl

theorem Property.key_eq_iff_identity {property other : Property} :
    property.key = other.key ↔ property.identity = other.identity := by
  simp [Property.key_eq_iff, Property.identity]

theorem Field.key_eq_iff_identity {field other : Field} :
    field.key = other.key ↔ field.identity = other.identity := by
  simp [Field.key_eq_iff, Field.identity]

/-- The kinds differ in their first letters, and behind the kind a key is cut in only one way. -/
theorem MemberIdentity.key_injective : Function.Injective MemberIdentity.key := by
  rintro ⟨kind, token, name⟩ ⟨kind', token', name'⟩ same
  cases kind <;> cases kind'
  · obtain ⟨rfl, rfl⟩ := tokenAndName_inj.mp same
    rfl
  · have chars := congrArg String.toList same
    simp [key, PairedKind.word] at chars
  · have chars := congrArg String.toList same
    simp [key, PairedKind.word] at chars
  · obtain ⟨rfl, rfl⟩ := tokenAndName_inj.mp same
    rfl

namespace BackingFields

variable {backing : BackingFields} {pairs : List (Property × Field)} {pair : Property × Field}

/-! ### Refused pairs -/

/-- Two pairs with a member in common. -/
def Shares (pair other : Property × Field) : Prop :=
  pair.1.identity = other.1.identity ∨ pair.2.identity = other.2.identity

/-- The first pair of a list that has a member in common with an earlier one. -/
def FirstSharing (pairs : List (Property × Field)) (pair : Property × Field) : Prop :=
  ∃ before after, pairs = before ++ pair :: after ∧
    (before.Pairwise fun pair other => ¬Shares pair other) ∧
    ∃ earlier ∈ before, Shares earlier pair

theorem apart_iff {pair other : Property × Field} : Apart pair other ↔ ¬Shares pair other := by
  simp only [Shares, Apart, not_or, ne_eq, Property.key_eq_iff_identity, Field.key_eq_iff_identity]

theorem pairwise_apart_iff :
    pairs.Pairwise Apart ↔ pairs.Pairwise fun pair other => ¬Shares pair other :=
  List.Pairwise.iff fun _ _ => apart_iff

/-- Behind pairs that are held, the first pair that is not apart from all in front of it is refused. -/
theorem Holds.addAll_eq_error_iff (holds : Holds backing pairs) (apart : pairs.Pairwise Apart)
    {rest : List (Property × Field)} :
    backing.addAll rest = .error pair ↔ ∃ before after, rest = before ++ pair :: after ∧
      (pairs ++ before).Pairwise Apart ∧ ∃ held ∈ pairs ++ before, ¬Apart held pair := by
  induction rest generalizing backing pairs with
  | nil => simp [BackingFields.addAll]
  | cons first rest ih =>
    by_cases new : ∀ held ∈ pairs, Apart held first
    · have apart' : (pairs ++ [first]).Pairwise Apart :=
        List.pairwise_append.mpr ⟨apart, List.pairwise_singleton _ _, by simpa using new⟩
      have goesOn : backing.addAll (first :: rest) = (backing.add first).addAll rest := by
        simp [BackingFields.addAll, holds.repeats_eq_false_iff.mpr new]
      rw [goesOn, ih (holds.add new) apart']
      constructor
      · rintro ⟨before, after, rfl, apart, repeated⟩
        exact ⟨first :: before, after, rfl, by simpa using apart, by simpa using repeated⟩
      · rintro ⟨before, after, cut, apart, held, member, common⟩
        cases before with
        | nil =>
          -- the first pair is apart from all that are held
          obtain ⟨rfl, _⟩ := List.cons.inj cut
          exact absurd (new held (by simpa using member)) common
        | cons second before =>
          obtain ⟨rfl, rfl⟩ := List.cons.inj cut
          exact ⟨before, after, rfl, by simpa using apart, held, by simpa using member, common⟩
    · have repeated : backing.repeats first = true := by
        rw [← holds.repeats_eq_false_iff] at new
        simpa using new
      rw [BackingFields.addAll, if_pos repeated, Except.error.injEq]
      constructor
      · rintro rfl
        exact ⟨[], rest, rfl, by simpa using apart, by simpa using new⟩
      · rintro ⟨before, after, cut, apart, _⟩
        cases before with
        | nil => exact (List.cons.inj cut).1
        | cons second before =>
          obtain ⟨rfl, rfl⟩ := List.cons.inj cut
          have fine := (List.pairwise_append.mp apart).2.2
          exact absurd (fun held member => fine held member first List.mem_cons_self) new

/-- Pairs that are added to others are apart from them and from each other. -/
theorem Holds.apart_of_addAll (holds : Holds backing pairs) (apart : pairs.Pairwise Apart)
    {rest : List (Property × Field)} {result : BackingFields}
    (added : backing.addAll rest = .ok result) : (pairs ++ rest).Pairwise Apart := by
  induction rest generalizing backing pairs with
  | nil => simpa using apart
  | cons first rest ih =>
    rw [BackingFields.addAll] at added
    split at added
    · cases added
    next new =>
      rw [Bool.not_eq_true, holds.repeats_eq_false_iff] at new
      have apart' : (pairs ++ [first]).Pairwise Apart :=
        List.pairwise_append.mpr ⟨apart, List.pairwise_singleton _ _, by simpa using new⟩
      simpa using ih (holds.add new) apart' added

theorem ofPairs_eq_error_iff : ofPairs pairs = .error pair ↔ FirstSharing pairs pair := by
  unfold ofPairs FirstSharing
  rw [Holds.empty.addAll_eq_error_iff .nil]
  simp only [List.nil_append, pairwise_apart_iff, apart_iff, not_not]

theorem exists_ofPairs_iff :
    (∃ backing, ofPairs pairs = .ok backing) ↔
      pairs.Pairwise fun pair other => ¬Shares pair other := by
  rw [← pairwise_apart_iff]
  constructor
  · rintro ⟨backing, built⟩
    exact Holds.empty.apart_of_addAll .nil built
  · intro apart
    obtain ⟨backing, built, _⟩ := exists_ofPairs apart
    exact ⟨backing, built⟩

/-! ### Both directions -/

/-- A relation that answers from these pairs alone. -/
structure OneToOne (backing : BackingFields) (pairs : List (Property × Field)) : Prop where
  /-- The pairs are kept in their order. -/
  entries : backing.pairs = pairs
  fieldOf : ∀ property field, backing.fieldOf? property = some field ↔
    ∃ other, (other, field) ∈ pairs ∧ other.identity = property.identity
  propertyOf : ∀ field property, backing.propertyOf? field = some property ↔
    ∃ other, (property, other) ∈ pairs ∧ other.identity = field.identity
  hasField : ∀ field, backing.hasField field = (backing.propertyOf? field).isSome

theorem Holds.oneToOne (holds : Holds backing pairs) : OneToOne backing pairs where
  entries := holds.listed
  fieldOf property field := by
    simp only [holds.fieldOf?_eq_some_iff, Property.key_eq_iff_identity]
  propertyOf field property := by
    simp only [holds.propertyOf?_eq_some_iff, Field.key_eq_iff_identity]
  hasField field := by
    rw [Bool.eq_iff_iff, hasField_eq_true_iff, Option.isSome_iff_exists]

theorem oneToOne_of_ofPairs (built : ofPairs pairs = .ok backing) : OneToOne backing pairs := by
  obtain ⟨held, built', holds⟩ :=
    exists_ofPairs (pairwise_apart_iff.mpr (exists_ofPairs_iff.mp ⟨backing, built⟩))
  obtain rfl : held = backing := Except.ok.inj (built'.symm.trans built)
  exact holds.oneToOne

end BackingFields

/-- The analysis of a record ends with the names of a pair that is refused. -/
theorem AutoProperty.eval_detect_of_refused {record : RecordType} {bodies : Method → Option Body}
    {found : List (Property × Field)} {pair : Property × Field}
    (pairs : (AutoProperty.pairs record record.properties).eval bodies = .ok found)
    (refused : BackingFields.ofPairs found = .error pair) :
    (detect record).eval bodies = .error (.notOneToOne pair.1.name pair.2.name) := by
  rw [detect, Query.eval_bind, pairs]
  simp only [bind, Except.bind, refused]
  rfl

namespace BackingFields

/-- Pairs make a relation exactly if no two of them have a member in common, and the relation answers
from these pairs alone. Otherwise the first pair that shares a member with an earlier one is refused,
and named where the pairs are those of a record. -/
theorem ofPairs_oneToOne (pairs : List (Property × Field)) :
    ((∃ backing, ofPairs pairs = .ok backing) ↔
      pairs.Pairwise fun pair other => ¬Shares pair other) ∧
    (∀ backing, ofPairs pairs = .ok backing → OneToOne backing pairs) ∧
    (∀ pair, ofPairs pairs = .error pair ↔ FirstSharing pairs pair) ∧
    (∀ record bodies pair, (AutoProperty.pairs record record.properties).eval bodies = .ok pairs →
      FirstSharing pairs pair → ∃ defect, (AutoProperty.detect record).eval bodies = .error defect ∧
        defect.message =
          "ICE: " ++ pair.1.name ++ " ↔ " ++ pair.2.name ++ " is not one-to-one") ∧
    Function.Injective MemberIdentity.key ∧
      (∀ property : Property, property.key = property.identity.key) ∧
      ∀ field : Field, field.key = field.identity.key := by
  refine ⟨exists_ofPairs_iff, fun backing => oneToOne_of_ofPairs, fun pair => ofPairs_eq_error_iff,
    ?_, MemberIdentity.key_injective, Property.key_identity, Field.key_identity⟩
  intro record bodies pair found first
  -- the detection fails for the very pair that is refused
  have refused := ofPairs_eq_error_iff.mpr first
  exact ⟨_, AutoProperty.eval_detect_of_refused found refused, rfl⟩

/-- A property without a record around it. -/
def namedProperty (token : Int) (name : String) : Property :=
  { (default : Property) with token, name }

def namedField (token : Int) (name : String) : Field :=
  { (default : Field) with token, name }

/-- The second of two properties with the same field is refused, although they have one token and a
name that starts with a colon. -/
theorem ofPairs_oneToOne_sharedField :
    let field := namedField 7 "<X>k__BackingField"
    let pairs := [(namedProperty (-1) "X", field), (namedProperty (-1) ":X", field)]
    FirstSharing pairs (namedProperty (-1) ":X", field) ∧
      ofPairs pairs = .error (namedProperty (-1) ":X", field) := by
  intro field pairs
  have first : FirstSharing pairs (namedProperty (-1) ":X", field) :=
    ⟨[(namedProperty (-1) "X", field)], [], rfl, List.pairwise_singleton _ _, _,
      List.mem_singleton_self _, .inr rfl⟩
  exact ⟨first, ((ofPairs_oneToOne pairs).2.2.1 _).mpr first⟩

end BackingFields

end MemberOrigin
