import DepGraph.Json.Draft
import DepGraph.Json.Value
import DepGraph.Time.Rfc3339

/-!
# Codecs: values of a type as documents

A `DepGraph.Json.Codec` says how the values of a type are read and written. Reading asks
a draft, in the order of its text, and the first thing that is not as it should be is the
failure.

Records are read from objects, whose members may come in any order and may include others
that are skipped, or from arrays that hold the fields in their order. What becomes of a
field that is not there is part of its description, `DepGraph.Json.Field`, separately for
the two forms: in an array a field can only be missing at the end.

A record's description is a list of fields of different types
(`DepGraph.Json.Fields`), and while its members are being read there is a slot for each
of them (`DepGraph.Json.Fields.Slots`).
-/

namespace DepGraph.Json

/-- How values of a type are read and written. -/
structure Codec (α : Type) where
  read : Draft → Except Category α
  write : α → Value

/-- The failure of a draft that is not of the type asked for. The draft is still decoded:
a fault in it comes first. -/
def Draft.mismatch : Draft → Category
  | .text (.error c) => c
  | .number n => if n.real?.isSome then .mismatch else .malformed
  | .broken fault => fault.decoded
  | _ => .mismatch

/-- The failure that an ending is. -/
def Ending.check : Ending → Except Category Unit
  | .closed => .ok ()
  | .cut fault => .error fault.decoded

namespace Codec

/-- A codec for values that are in correspondence with others. -/
def map {α β : Type} (c : Codec α) (f : α → β) (g : β → α) : Codec β where
  read d := (c.read d).map f
  write b := c.write (g b)

/-- A text. -/
def text : Codec String where
  read
    | .text (.ok content) => .ok content
    | d => .error d.mismatch
  write := .text

/-- A number that has to be of some kind. -/
def numeral {α : Type} (value? : Numeral → Option α) : Draft → Except Category α
  | .number n =>
    match value? n with
    | some value => .ok value
    | none => .error (Draft.number n).mismatch
  | d => .error d.mismatch

/-- A count of at most sixty-four bits. -/
def count : Codec Nat := ⟨numeral Numeral.count?, .count⟩

/-- A signed whole number of sixty-four bits. -/
def integer : Codec Int := ⟨numeral Numeral.integer?, .integer⟩

/-- A double. -/
def real : Codec Float := ⟨numeral Numeral.real?, .real⟩

/-- An instant, as text. -/
def instant : Codec Instant where
  read d := do
    match Instant.ofText? (← text.read d) with
    | some t => return t
    | none => throw .mismatch
  write t := .text t.toText

/-- A value that may be missing, which is written as `null`. -/
def option {α : Type} (c : Codec α) : Codec (Option α) where
  read
    | .null => .ok none
    | d => (c.read d).map some
  write
    | none => .null
    | some a => c.write a

/-- Any number of values. -/
def list {α : Type} (c : Codec α) : Codec (List α) where
  read
    | .array items ending => do
      let values ← items.mapM c.read
      ending.check
      return values
    | d => .error d.mismatch
  write values := .array (values.map c.write)

end Codec

/-! ### Records -/

/-- A field of a record. -/
structure Field (α : Type) where
  name : String
  codec : Codec α
  /-- The value of the field if an object does not have it; `none` if it has to. -/
  whenAbsent : Option α := none
  /-- The value of the field if an array ends before it; `none` if it must not. -/
  whenShort : Option α := none

namespace Field

/-- A field that has to be there. -/
def required {α : Type} (name : String) (codec : Codec α) : Field α := { name, codec }

/-- A field that may be missing from an object, but not from an array. -/
def optional {α : Type} (name : String) (codec : Codec α) : Field (Option α) :=
  { name, codec := codec.option, whenAbsent := some none }

/-- A field that has a value also if it is missing. -/
def withDefault {α : Type} (name : String) (codec : Codec α) (value : α) : Field α :=
  { name, codec, whenAbsent := some value, whenShort := some value }

end Field

/-- The fields of a record in their order; the type is that of their values. -/
inductive Fields : Type → Type 1
  | nil : Fields Unit
  | cons {α τ : Type} (field : Field α) (rest : Fields τ) : Fields (α × τ)

namespace Fields

/-- What has been read of each field. -/
def Slots {τ : Type} : Fields τ → Type
  | nil => Unit
  | cons (α := α) _ rest => Option α × rest.Slots

/-- Nothing has been read yet. -/
def noSlots {τ : Type} : (fields : Fields τ) → fields.Slots
  | nil => ()
  | cons _ rest => (none, rest.noSlots)

/-- Read the value of a member into the slot of its field; `none` if no field has its
name. It fails if the slot is taken. -/
def put {τ : Type} (fields : Fields τ) (name : String) (value : Draft) (slots : fields.Slots) :
    Option (Except Category fields.Slots) :=
  match fields, slots with
  | nil, _ => none
  | cons (α := α) field rest, slots =>
    let (slot, others) : Option α × rest.Slots := slots
    if field.name = name then
      some <|
        match slot with
        | some _ => .error .mismatch
        | none => (field.codec.read value).map fun v => (some v, others)
    else (rest.put name value others).map (·.map ((slot, ·)))

/-- The values of all fields, once all members have been read. -/
def values {τ : Type} : (fields : Fields τ) → fields.Slots → Except Category τ
  | nil, _ => .ok ()
  | cons (α := α) field rest, slots =>
    let (slot, others) : Option α × rest.Slots := slots
    match slot.or field.whenAbsent with
    | none => .error .mismatch
    | some v => (rest.values others).map ((v, ·))

/-- Read one member of an object. -/
def readMember {τ : Type} (fields : Fields τ) (slots : fields.Slots) (member : Name × Draft) :
    Except Category fields.Slots := do
  match fields.put (← member.1) member.2 slots with
  | some read => read
  | none =>
    match member.2.skipped with
    | some failure => .error failure
    | none => .ok slots

/-- Read an object. -/
def readObject {τ : Type} (fields : Fields τ) (members : List (Name × Draft)) (ending : Ending) :
    Except Category τ := do
  let slots ← members.foldlM fields.readMember fields.noSlots
  ending.check
  fields.values slots

/-- Read an array that holds the fields in their order. More items than fields are
malformed. -/
def readArray {τ : Type} (ending : Ending) : Fields τ → List Draft → Except Category τ
  | nil, [] => ending.check
  | nil, _ :: _ => .error .malformed
  | cons field rest, [] => do
    let () ← ending.check
    let v ← field.whenShort.elim (.error .mismatch) .ok
    return (v, ← rest.readArray ending [])
  | cons field rest, item :: items => do
    let v ← field.codec.read item
    return (v, ← rest.readArray ending items)

/-- The members that a record is written as. -/
def members {τ : Type} : Fields τ → τ → List (String × Value)
  | nil, _ => []
  | cons field rest, (v, vs) => (field.name, field.codec.write v) :: rest.members vs

end Fields

/-- A record with given fields. -/
def Codec.record {τ : Type} (fields : Fields τ) : Codec τ where
  read
    | .object members ending => fields.readObject members ending
    | .array items ending => fields.readArray ending items
    | d => .error d.mismatch
  write values := .object (fields.members values)

/-- **Read a text as a value of a type.** Anything but blanks after the value is a failure,
too, but only if the value itself could be read. -/
def Codec.ofDocument {α : Type} (c : Codec α) (d : Document) : Except Category α := do
  let value ← c.read d.value
  if d.trailing then throw .malformed
  return value

/-- Read a text as a value of a type. -/
def Codec.ofText {α : Type} (c : Codec α) (text : String) : Except Category α :=
  c.ofDocument (Document.ofText text)

end DepGraph.Json
