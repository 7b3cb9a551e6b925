import NativeBridge.Toml.Value

/-!
Reading records out of TOML values. A record is a table whose entries are looked up by name, or an
array of its fields in order. What is not asked for is ignored.
-/

namespace NativeBridge.Toml

def string? : Toml → Option String
  | .string text => some text
  | _ => none

def bool? : Toml → Option Bool
  | .bool value => some value
  | _ => none

/-- A field of a record: its name, whether it may be left out, and how its value is taken in. -/
structure Field (α : Type) where
  name : String
  mandatory : Bool
  take : Toml → α → Option α

/-- A record that starts from a blank one. -/
structure Record (α : Type) where
  blank : α
  fields : List (Field α)

namespace Field

def required {α β : Type} (name : String) (read : Toml → Option β) (set : β → α → α) : Field α :=
  ⟨name, true, fun value record => (read value).map (set · record)⟩

def optional {α β : Type} (name : String) (read : Toml → Option β) (set : β → α → α) : Field α :=
  ⟨name, false, fun value record => (read value).map (set · record)⟩

/-- Takes in a value, or does without one. -/
def fill {α : Type} (f : Field α) (value : Option Toml) (record : α) : Option α :=
  match value with
  | some value => f.take value record
  | none => if f.mandatory then none else some record

end Field

namespace Record

variable {α : Type}

/-- The record with these entries. -/
def ofEntries (r : Record α) (entries : List (String × Toml)) : Option α :=
  r.fields.foldlM (fun record f => f.fill (entries.lookup f.name) record) r.blank

/-- The record with these values for its first fields. -/
def ofItems (fields : List (Field α)) (items : List Toml) (record : α) : Option α :=
  match fields with
  | [] => some record
  | f :: fields => do
    let record ← f.fill items.head? record
    ofItems fields items.tail record

/-- The record that a value holds. A time has an entry of its own, which no record asks for. -/
def read (r : Record α) : Toml → Option α
  | .table entries => r.ofEntries entries
  | .array items => ofItems r.fields items r.blank
  | .time => r.ofEntries []
  | _ => none

end Record

end NativeBridge.Toml
