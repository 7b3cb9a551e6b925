import NativeBridge.Json.Source
import NativeBridge.Text.Quoted

/-!
Decoding documents into values. A decoder walks a source from left to right and stops at the first
thing that is wrong, be it the syntax of the text or what the text says. A record is an object whose
members are looked up by name, or an array of its fields in order. Unknown members are skipped.
-/

namespace NativeBridge.Json

/-- What a document holds where something else was expected. -/
inductive Unexpected where
  | null
  | bool (value : Bool)
  | integer (value : Int)
  | floating (negative : Bool) (magnitude : Decimal.Binary64)
  | string (text : String)
  | sequence
  | map
  | unitVariant
deriving DecidableEq, Repr

/-- How a message names what was found. -/
def Unexpected.message : Unexpected → String
  | .null => "null"
  | .bool true => "boolean `true`"
  | .bool false => "boolean `false`"
  | .integer n => "integer `" ++ toString n ++ "`"
  | .floating negative magnitude =>
    "floating point `" ++ (if negative then "-" else "") ++ Decimal.shortestText magnitude ++ "`"
  | .string text => "string " ++ Text.quoted text
  | .sequence => "sequence"
  | .map => "map"
  | .unitVariant => "unit variant"

inductive DecodeError where
  /-- The text is not JSON, nests too deeply, or holds a number beyond double precision. -/
  | syntactic
  | missingField (name : String)
  | duplicateField (name : String)
  | invalidType (found : Unexpected) (expected : String)
  | invalidValue (found : Int) (expected : String)
  | invalidLength (found : Nat) (expected : String)
  | unknownVariant (name : String) (expected : List String)
  /-- A well-formed value that its type refuses. -/
  | refused (reason : String)
deriving DecidableEq, Repr

/-- A name between back quotes. -/
def ticked (name : String) : String := "`" ++ name ++ "`"

/-- How a message lists the variants that would have been right. -/
def oneOf : List String → String
  | [] => "there are no variants"
  | [name] => "expected " ++ ticked name
  | [first, second] => "expected " ++ ticked first ++ " or " ++ ticked second
  | names => "expected one of " ++ String.intercalate ", " (names.map ticked)

/-- The wording of a refusal; a text that is not JSON has none. -/
def DecodeError.message? : DecodeError → Option String
  | .syntactic => none
  | .missingField name => some ("missing field " ++ ticked name)
  | .duplicateField name => some ("duplicate field " ++ ticked name)
  | .invalidType found expected =>
    some ("invalid type: " ++ found.message ++ ", expected " ++ expected)
  | .invalidValue found expected =>
    some ("invalid value: integer " ++ ticked (toString found) ++ ", expected " ++ expected)
  | .invalidLength found expected =>
    some ("invalid length " ++ toString found ++ ", expected " ++ expected)
  | .unknownVariant name expected =>
    some ("unknown variant " ++ ticked name ++ ", " ++ oneOf expected)
  | .refused reason => some reason

/-- Reads a value of a source in which `levels` arrays and objects may still nest. -/
abbrev Decoder (α : Type) := (levels : Nat) → Source → Except DecodeError α

/-- What a source holds, if it is sound enough to tell. -/
def Source.found : Source → Except DecodeError Unexpected
  | .null => .ok .null
  | .bool value => .ok (.bool value)
  | .number numeral =>
    match numeral.value? with
    | some (.integer n) => .ok (.integer n)
    | some (.floating negative magnitude) => .ok (.floating negative magnitude)
    | none => .error .syntactic
  | .string (some text) => .ok (.string text)
  | .string none => .error .syntactic
  | .array _ => .ok .sequence
  | .object _ => .ok .map
  | .broken => .error .syntactic

/-- Refuses a source that is not what was expected. -/
def mismatch {α : Type} (source : Source) (expected : String) : Except DecodeError α := do
  let found ← source.found
  throw (.invalidType found expected)

namespace Decoder

/-- Decodes a whole document. -/
def run {α : Type} (decoder : Decoder α) (document : Document) : Except DecodeError α := do
  let value ← decoder nestingLimit document.root
  if document.ended then pure value else throw .syntactic

def string : Decoder String
  | _, .string (some text) => .ok text
  | _, source => mismatch source "a string"

def bool : Decoder Bool
  | _, .bool value => .ok value
  | _, source => mismatch source "a boolean"

/-- An integer of a range. -/
def integer (least greatest : Int) (expected : String) : Decoder Int
  | _, .number numeral =>
    match numeral.value? with
    | some (.integer n) =>
      if least ≤ n ∧ n ≤ greatest then .ok n else .error (.invalidValue n expected)
    | _ => mismatch (.number numeral) expected
  | _, source => mismatch source expected

def nat16 : Decoder Nat := fun levels source =>
  (integer 0 (Nat.pow 2 16 - 1) "u16" levels source).map Int.toNat

def nat32 : Decoder Nat := fun levels source =>
  (integer 0 (Nat.pow 2 32 - 1) "u32" levels source).map Int.toNat

def int32 : Decoder Int32 := fun levels source =>
  (integer (-(Nat.pow 2 31 : Int)) (Nat.pow 2 31 - 1) "i32" levels source).map Int32.ofInt

def int64 : Decoder Int64 := fun levels source =>
  (integer (-(Nat.pow 2 63 : Int)) (Nat.pow 2 63 - 1) "i64" levels source).map Int64.ofInt

/-- A string that a type accepts or refuses with a reason. -/
def parsed {α : Type} (parse : String → Except String α) : Decoder α := fun levels source => do
  let text ← string levels source
  (parse text).mapError .refused

/-- `null`, or a value. -/
def option {α : Type} (decoder : Decoder α) : Decoder (Option α)
  | _, .null => .ok none
  | levels, source => (decoder levels source).map some

/-- A decoder for what stands one level deeper. -/
def deeper {α : Type} (levels : Nat) (inner : Nat → Except DecodeError α) :
    Except DecodeError α :=
  match levels with
  | 0 => .error .syntactic
  | levels + 1 => inner levels

def list {α : Type} (decoder : Decoder α) : Decoder (List α)
  | levels, .array items => deeper levels fun levels => items.mapM (decoder levels)
  | _, source => mismatch source "a sequence"

/-- An object as pairs of a name and a value, in the order of the text. -/
def pairs {α β : Type} (name : String → Except String α) (decoder : Decoder β) :
    Decoder (List (α × β))
  | levels, .object members => deeper levels fun levels =>
    members.mapM fun (key, value) =>
      match key with
      | none => .error .syntactic
      | some key => do
        let key ← (name key).mapError .refused
        let value ← decoder levels value
        pure (key, value)
  | _, source => mismatch source "a map"

end Decoder

/-- One variant of a sum: its name and how to read it, from nothing when only the name is given. -/
structure Variant (α : Type) where
  name : String
  read : (levels : Nat) → Option Source → Except DecodeError α

namespace Variant

/-- A variant that is only a name. In the long form its value is `null`. -/
def unit {α : Type} (name : String) (value : α) : Variant α where
  name := name
  read
    | _, none => .ok value
    | _, some .null => .ok value
    | _, some source => mismatch source "unit"

/-- A variant that carries a value. -/
def carrying {α β : Type} (name : String) (decoder : Decoder β) (make : β → α) : Variant α where
  name := name
  read
    | _, none => .error (.invalidType .unitVariant "newtype variant")
    | levels, some source => (decoder levels source).map make

end Variant

namespace Decoder

/-- A sum: the name of a variant, or an object with that name as its only member. -/
def sum {α : Type} (variants : List (Variant α)) : Decoder α :=
  let choose (name : String) : Except DecodeError (Variant α) :=
    match variants.find? (·.name == name) with
    | some variant => .ok variant
    | none => .error (.unknownVariant name (variants.map (·.name)))
  fun
  | levels, .string (some name) => do
    let variant ← choose name
    variant.read levels none
  | levels, .object members => deeper levels fun levels =>
    match members with
    | (some name, source) :: rest => do
      let variant ← choose name
      let value ← variant.read levels (some source)
      if rest.isEmpty then pure value else throw .syntactic
    | _ => .error .syntactic
  | _, _ => .error .syntactic

end Decoder

/-- One field of a record: its name, whether it must be present, and how its value changes a record
under construction. -/
structure Field (α : Type) where
  name : String
  mandatory : Bool
  read : (levels : Nat) → Source → α → Except DecodeError α

namespace Field

def required {α β : Type} (name : String) (decoder : Decoder β) (set : β → α → α) : Field α where
  name := name
  mandatory := true
  read levels source record := (decoder levels source).map (set · record)

def optional {α β : Type} (name : String) (decoder : Decoder β) (set : β → α → α) : Field α where
  name := name
  mandatory := false
  read levels source record := (decoder levels source).map (set · record)

end Field

/-- A record: what messages call it, its fields in order, and the value it starts from, which holds
the defaults. -/
structure Record (α : Type) where
  name : String
  blank : α
  fields : List (Field α)

namespace Record

/-- What was expected of a record given as an array. -/
def expectedLength {α : Type} (record : Record α) : String :=
  let count := record.fields.length
  "struct " ++ record.name ++ " with " ++ toString count ++
    (if count = 1 then " element" else " elements")

/-- Reads the fields of a record in order from the items of an array. -/
def ofItems {α : Type} (record : Record α) (levels : Nat) :
    (index : Nat) → List (Field α) → List Source → α → Except DecodeError α
  | _, [], [], value => .ok value
  | _, [], _ :: _, _ => .error .syntactic
  | index, field :: fields, [], value =>
    if field.mandatory then .error (.invalidLength index record.expectedLength)
    else ofItems record levels (index + 1) fields [] value
  | index, field :: fields, item :: items, value => do
    let value ← field.read levels item value
    ofItems record levels (index + 1) fields items value

/-- Reads the members of an object into a record; `seen` holds the fields met so far. -/
def ofMembers {α : Type} (record : Record α) (levels : Nat) (seen : List String) :
    List (Option String × Source) → α → Except DecodeError α
  | [], value =>
    match record.fields.find? fun field => field.mandatory && !seen.contains field.name with
    | some field => .error (.missingField field.name)
    | none => .ok value
  | (none, _) :: _, _ => .error .syntactic
  | (some name, source) :: members, value =>
    match record.fields.find? (·.name == name) with
    | none =>
      if source.isComplete then ofMembers record levels seen members value
      else .error .syntactic
    | some field =>
      if seen.contains name then .error (.duplicateField name)
      else do
        let value ← field.read levels source value
        ofMembers record levels (name :: seen) members value

def decoder {α : Type} (record : Record α) : Decoder α
  | levels, .array items =>
    Decoder.deeper levels fun levels => ofItems record levels 0 record.fields items record.blank
  | levels, .object members =>
    Decoder.deeper levels fun levels => ofMembers record levels [] members record.blank
  | _, source => mismatch source ("struct " ++ record.name)

end Record

end NativeBridge.Json
