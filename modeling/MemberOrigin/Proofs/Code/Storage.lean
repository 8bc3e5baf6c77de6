import MemberOrigin.Proofs.Code.Forms
import MemberOrigin.Record.AutoProperty

/-!
# Fields as storage

What bodies do that only read and write fields: accessors that consist of such accesses. A field that
is accessed on an object has a value in each object, and one that is accessed without an object has a
value of the type. The form of an access alone decides between the two.

`run_readsField` and `run_writesField` say what the accessors of automatic properties do.
-/
namespace MemberOrigin

/-- The values of fields by name, of the type (`none`) and of every object. -/
abbrev Storage (Object Value : Type) := Option Object → String → Value

namespace Storage

variable {Object Value : Type}

def read (storage : Storage Object Value) (place : Option Object) (field : Field) : Value :=
  storage place field.name

def write [DecidableEq Object] (storage : Storage Object Value) (place : Option Object)
    (field : Field) (value : Value) : Storage Object Value :=
  fun other name => if other = place ∧ name = field.name then value else storage other name

variable [DecidableEq Object] (storage : Storage Object Value) (field : Field) (value : Value)

@[simp] theorem read_write (place : Option Object) :
    (storage.write place field value).read place field = value := by
  simp [read, write]

theorem read_write_of_ne {place other : Option Object} (differ : other ≠ place) :
    (storage.write place field value).read other field = storage.read other field := by
  simp [read, write, differ]

end Storage

/-- What an accessor is called with, and the fields that its references are resolved among. -/
structure Frame (Object Value : Type) where
  fields : List Field
  receiver : Option Object
  arguments : List Value

namespace Frame

variable {Object Value : Type}

/-- The declared field that a reference means. -/
def field? (frame : Frame Object Value) (reference : FieldRef) : Option Field :=
  frame.fields.find? fun declared => declared.toRef.same reference

/-- The object that an instruction loads. -/
def object? (frame : Frame Object Value) : Instr → Option Object
  | .load v => if v.isThis then frame.receiver else none
  | _ => none

/-- The value that an instruction yields. -/
def value? (frame : Frame Object Value) (storage : Storage Object Value) : Instr → Option Value
  | .load v =>
    if v.kind == .parameter && 0 ≤ v.index then frame.arguments[v.index.toNat]? else none
  | .loadField target field => do
    return storage.read (some (← frame.object? target)) (← frame.field? field)
  | .loadStatic field => do return storage.read none (← frame.field? field)
  | _ => none

/-- Runs instructions up to the return: what is returned, if it is a value, and the storage behind. -/
def run [DecidableEq Object] (frame : Frame Object Value) :
    List Instr → Storage Object Value → Option (Option Value × Storage Object Value)
  | .leave .body .nop :: _, storage => some (none, storage)
  | .leave .body value :: _, storage => do return (some (← frame.value? storage value), storage)
  | .storeField target field value :: rest, storage => do
    let object ← frame.object? target
    let declared ← frame.field? field
    frame.run rest (storage.write (some object) declared (← frame.value? storage value))
  | .storeStatic field value :: rest, storage => do
    let declared ← frame.field? field
    frame.run rest (storage.write none declared (← frame.value? storage value))
  | _, _ => none

end Frame

/-- Where an accessor that is called on an object has its receiver; a static one has none. -/
def Method.place {Object : Type} (method : Method) (object : Object) : Option Object :=
  if method.isStatic then none else some object

/-! ### Accessors of automatic properties -/

/-- An accessor that does nothing but return the field. -/
inductive ReadsField (field : FieldRef) : Bool → List Instr → Prop
  | ofType : ReadsField field true [.leave .body (.loadStatic field)]
  | ofReceiver {target : Instr} (receiver : target.LoadsThis) :
      ReadsField field false [.leave .body (.loadField target field)]

/-- A load of the argument that a setter is called with. -/
def Instr.LoadsValue (instr : Instr) : Prop :=
  ∃ v, instr = .load v ∧ v.kind = .parameter ∧ v.index = 0

/-- An accessor that does nothing but assign its argument to the field. -/
inductive WritesField (field : FieldRef) : Bool → List Instr → Prop
  | ofType {value : Instr} (given : value.LoadsValue) :
      WritesField field true [.storeStatic field value, .leave .body .nop]
  | ofReceiver {target value : Instr} (receiver : target.LoadsThis) (given : value.LoadsValue) :
      WritesField field false [.storeField target field value, .leave .body .nop]

namespace AutoProperty

theorem loadsValue_iff {instr : Instr} : loadsValue instr = true ↔ instr.LoadsValue := by
  cases instr <;> simp [loadsValue, Instr.LoadsValue]

theorem fieldRead?_eq_some_iff {isStatic : Bool} {instructions : List Instr} {field : FieldRef} :
    fieldRead? isStatic instructions = some field ↔ ReadsField field isStatic instructions := by
  constructor
  · intro found
    unfold fieldRead? at found
    split at found
    next value =>
      -- a static accessor loads from the type, another one from its receiver
      cases isStatic with
      | true =>
        cases value with
        | loadStatic accessed =>
          obtain rfl : accessed = field := Option.some.inj found
          exact .ofType
        | _ => cases found
      | false =>
        cases value with
        | loadField target accessed =>
          simp only [Bool.false_eq_true, if_false, Option.ite_none_right_eq_some,
            Option.some.injEq] at found
          obtain ⟨receiver, rfl⟩ := found
          exact .ofReceiver (Instr.loadsThis_iff.mp receiver)
        | _ => cases found
    · cases found
  · rintro (_ | receiver)
    · rfl
    · simp [fieldRead?, Instr.loadsThis_iff.mpr receiver]

theorem fieldWritten?_eq_some_iff {isStatic : Bool} {instructions : List Instr}
    {field : FieldRef} :
    fieldWritten? isStatic instructions = some field ↔ WritesField field isStatic instructions := by
  constructor
  · intro found
    unfold fieldWritten? at found
    split at found
    · simp only [Bool.and_eq_true, Bool.not_eq_true', Option.ite_none_right_eq_some,
        Option.some.injEq] at found
      obtain ⟨⟨⟨rfl, receiver⟩, given⟩, rfl⟩ := found
      exact .ofReceiver (Instr.loadsThis_iff.mp receiver) (loadsValue_iff.mp given)
    · simp only [Bool.and_eq_true, Option.ite_none_right_eq_some, Option.some.injEq] at found
      obtain ⟨⟨rfl, given⟩, rfl⟩ := found
      exact .ofType (loadsValue_iff.mp given)
    · cases found
  · -- both ways to write a field pass the checks of their form
    rintro (given | ⟨receiver, given⟩)
    · simp [fieldWritten?, loadsValue_iff.mpr given]
    · simp [fieldWritten?, Instr.loadsThis_iff.mpr receiver, loadsValue_iff.mpr given]

end AutoProperty

namespace Frame

variable {Object Value : Type} {frame : Frame Object Value} {storage : Storage Object Value}

theorem object?_of_loadsThis {instr : Instr} (receiver : instr.LoadsThis) :
    frame.object? instr = frame.receiver := by
  obtain ⟨v, rfl, kind, index⟩ := receiver
  simp [object?, Variable.isThis, kind, index]

theorem value?_of_loadsValue {instr : Instr} (given : instr.LoadsValue) :
    frame.value? storage instr = frame.arguments.head? := by
  obtain ⟨v, rfl, kind, index⟩ := given
  simp [value?, kind, index, List.head?_eq_getElem?]

variable [DecidableEq Object] {instructions : List Instr} {reference : FieldRef} {field : Field}
  (declared : frame.field? reference = some field) {method : Method} {object : Object}
  (called : frame.receiver = method.place object)

include declared called

/-- A getter returns the value of the field at the place of its receiver, and changes nothing. -/
theorem run_readsField (reads : ReadsField reference method.isStatic instructions) :
    frame.run instructions storage =
      some (some (storage.read (method.place object) field), storage) := by
  rw [← called]
  unfold Method.place at called
  generalize method.isStatic = isStatic at reads called
  cases reads with
  | ofType => simp [run, value?, declared, called]
  | ofReceiver receiver => simp [run, value?, object?_of_loadsThis receiver, declared, called]

/-- A setter assigns its argument to the field at the place of its receiver. -/
theorem run_writesField (writes : WritesField reference method.isStatic instructions) {value : Value}
    (arguments : frame.arguments = [value]) :
    frame.run instructions storage =
      some (none, storage.write (method.place object) field value) := by
  rw [← called]
  unfold Method.place at called
  generalize method.isStatic = isStatic at writes called
  cases writes with
  | ofType given => simp [run, value?_of_loadsValue given, declared, called, arguments]
  | ofReceiver receiver given =>
    simp [run, object?_of_loadsThis receiver, value?_of_loadsValue given, declared, called,
      arguments]

end Frame

end MemberOrigin
