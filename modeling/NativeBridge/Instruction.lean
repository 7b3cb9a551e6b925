import NativeBridge.Opcode
import NativeBridge.Signature

/-!
Instructions: an opcode and an operand. An operand need not be of the kind its opcode expects;
`Instruction.isMatched` tells.
-/

namespace NativeBridge

open Json (Decoder Field Record Variant)

/-- The identity of an instruction within its body. It outlives edits of the body. Indices are not
cut to 32 bits, so bodies that were given 2^32 instructions or more, whose identities would repeat,
are not covered. -/
structure InstrId where
  index : Nat
deriving DecidableEq, Inhabited, Repr

namespace InstrId

/-- An identity as listings show it, padded to four digits. -/
def label (id : InstrId) : String :=
  let digits := toString id.index
  "IL_" ++ String.ofList (List.replicate (4 - digits.length) '0') ++ digits

def decoder : Decoder InstrId := fun levels source =>
  (Decoder.nat32 levels source).map InstrId.mk

def toJson (id : InstrId) : Json := .int id.index

end InstrId

/-- What an instruction works on besides the stack. -/
inductive Operand where
  | none
  | index (slot : Nat)
  | int32 (value : Int32)
  | int64 (value : Int64)
  | string (text : String)
  | type (type : TypeName)
  | method (method : MethodRef)
  | field (field : FieldRef)
  | target (id : InstrId)
deriving DecidableEq, Inhabited, Repr

namespace Operand

def kind : Operand → OperandKind
  | .none => .none
  | .index _ => .index
  | .int32 _ => .int32
  | .int64 _ => .int64
  | .string _ => .string
  | .type _ => .type
  | .method _ => .method
  | .field _ => .field
  | .target _ => .target

def decoder : Decoder Operand :=
  .sum
    [.unit "none" .none,
      .carrying "index" .nat16 .index,
      .carrying "i32" .int32 .int32,
      .carrying "i64" .int64 .int64,
      .carrying "string" .string .string,
      .carrying "type" TypeName.decoder .type,
      .carrying "method" MethodRef.record.decoder .method,
      .carrying "field" FieldRef.record.decoder .field,
      .carrying "target" InstrId.decoder .target]

def toJson : Operand → Json
  | .none => .string "none"
  | .index slot => .object [("index", .int slot)]
  | .int32 n => .object [("i32", .int n.toInt)]
  | .int64 n => .object [("i64", .int n.toInt)]
  | .string s => .object [("string", .string s)]
  | .type t => .object [("type", t.toJson)]
  | .method m => .object [("method", m.toJson)]
  | .field f => .object [("field", f.toJson)]
  | .target id => .object [("target", id.toJson)]

def text? : Operand → Option String
  | .none => Option.none
  | .index slot => some (toString slot)
  | .int32 n => some (toString n.toInt)
  | .int64 n => some (toString n.toInt)
  | .string s => some (Text.quoted s)
  | .type t => some t.text
  | .method m => some m.text
  | .field f => some f.text
  | .target id => some id.label

/-- The operand with the branch target that `move` gives for its own. -/
def mapTarget (move : InstrId → InstrId) : Operand → Operand
  | .target id => .target (move id)
  | operand => operand

end Operand

structure Instruction where
  opcode : Opcode
  operand : Operand := .none
deriving DecidableEq, Repr

instance : Inhabited Instruction := ⟨⟨.nop, .none⟩⟩

namespace Instruction

/-- Whether the operand is of the kind the opcode expects. -/
def isMatched (i : Instruction) : Bool := i.opcode.operandKind == i.operand.kind

/-- The slot an instruction names, in its opcode or its operand. -/
def slot? (i : Instruction) : Option Nat :=
  match i.opcode.shortIndex? with
  | some slot => some slot
  | none =>
    match i.operand with
    | .index slot => some slot
    | _ => none

def method? (i : Instruction) : Option MethodRef :=
  match i.operand with
  | .method method => some method
  | _ => none

def field? (i : Instruction) : Option FieldRef :=
  match i.operand with
  | .field field => some field
  | _ => none

/-- The instruction that an instruction names as a branch target. -/
def target? (i : Instruction) : Option InstrId :=
  match i.operand with
  | .target id => some id
  | _ => none

/-- The instruction with the branch target that `move` gives for its own. -/
def mapTarget (move : InstrId → InstrId) (i : Instruction) : Instruction :=
  { i with operand := i.operand.mapTarget move }

def text (i : Instruction) : String :=
  match i.operand.text? with
  | none => i.opcode.mnemonic
  | some operand => i.opcode.mnemonic ++ " " ++ operand

def opcodeDecoder : Decoder Opcode :=
  .parsed fun name =>
    match Opcode.ofMnemonic? name with
    | some op => .ok op
    | none => .error ("unknown opcode '" ++ name ++ "'")

def record : Record Instruction where
  name := "Instruction"
  blank := default
  fields :=
    [.required "op" opcodeDecoder fun v i => { i with opcode := v },
      .optional "operand" Operand.decoder fun v i => { i with operand := v }]

def toJson (i : Instruction) : Json :=
  .object <|
    ("op", .string i.opcode.mnemonic) ::
    (match i.operand with
      | .none => []
      | operand => [("operand", operand.toJson)])

end Instruction

end NativeBridge
