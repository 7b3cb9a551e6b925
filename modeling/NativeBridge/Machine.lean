import NativeBridge.Module

/-!
The reference machine. It runs the static methods of a module over null, integers and strings;
objects, fields and virtual calls are not supported. A machine is the frame that runs and the frames
that wait for it. A run is bounded by the number of instructions it may execute, and calls by their
nesting.
-/

namespace NativeBridge

/-- The number of instructions a run may execute unless told otherwise. -/
def defaultStepLimit : Nat := 100000

/-- How many frames may be active at once. -/
def maxCallDepth : Nat := 256

inductive Value where
  | null
  | int32 (value : Int32)
  | int64 (value : Int64)
  | string (text : String)
deriving DecidableEq, Inhabited, Repr

namespace Value

/-- Whether a conditional branch takes a value for true. -/
def isTrue : Value → Bool
  | .null => false
  | .int32 n => n != 0
  | .int64 n => n != 0
  | .string _ => true

def text : Value → String
  | .null => "null"
  | .int32 n => toString n.toInt
  | .int64 n => toString n.toInt ++ "L"
  | .string s => Text.quoted s

/-- A truth value as an integer. -/
def ofBool (b : Bool) : Value := .int32 (if b then 1 else 0)

/-- The result of a binary operation, which wraps; `none` unless both operands are integers of the
same width. -/
def binary? (op : Opcode) : Value → Value → Option Value
  | .int32 a, .int32 b =>
    match op with
    | .add => some (.int32 (a + b))
    | .sub => some (.int32 (a - b))
    | .mul => some (.int32 (a * b))
    | .ceq => some (ofBool (a == b))
    | .clt => some (ofBool (a < b))
    | _ => none
  | .int64 a, .int64 b =>
    match op with
    | .add => some (.int64 (a + b))
    | .sub => some (.int64 (a - b))
    | .mul => some (.int64 (a * b))
    | .ceq => some (ofBool (a == b))
    | .clt => some (ofBool (a < b))
    | _ => none
  | _, _ => none

end Value

/-- Why a run ended without a value. -/
inductive Fault where
  | unresolved (method : MethodRef)
  | noBody (method : String)
  | unsupported (op : Opcode) (method : String)
  | underflow (method : String)
  | typeMismatch (op : Opcode) (method : String)
  | badIndex (slot : Nat) (method : String)
  | arity (method : String) (expected actual : Nat)
  | stepLimit (method : String)
  | callDepth (method : String)
deriving DecidableEq, Repr

def Fault.message : Fault → String
  | .unresolved method => "Unresolved method: " ++ method.text
  | .noBody method => "Method has no body: " ++ method
  | .unsupported op method => "Unsupported opcode '" ++ op.mnemonic ++ "' in " ++ method
  | .underflow method => "Stack underflow in " ++ method
  | .typeMismatch op method => "Type mismatch for '" ++ op.mnemonic ++ "' in " ++ method
  | .badIndex slot method => "Bad slot index " ++ toString slot ++ " in " ++ method
  | .arity method expected actual =>
    method ++ " expects " ++ toString expected ++ " arguments, got " ++ toString actual
  | .stepLimit method => "Step limit exceeded in " ++ method
  | .callDepth method => "Call depth limit exceeded calling " ++ method

/-- An active method. The top of the stack comes first. -/
structure Frame where
  method : String
  body : Body
  returnsValue : Bool
  /-- Whether the call site keeps the result. -/
  kept : Bool
  args : List Value
  locals : List Value
  stack : List Value
  /-- The place of the next instruction. -/
  next : Nat
deriving DecidableEq, Inhabited, Repr

/-- What executing an instruction asks of the machine. -/
inductive Effect where
  | proceed (frame : Frame)
  | call (callee : MethodRef) (args : List Value) (frame : Frame)
  | finish (result : Value)
deriving Repr

namespace Frame

def fetch? (f : Frame) : Option Instruction := f.body.order[f.next]?.bind f.body.get?

def push (f : Frame) (v : Value) : Frame := { f with stack := v :: f.stack }

def pop (f : Frame) : Except Fault (Value × Frame) :=
  match f.stack with
  | [] => .error (.underflow f.method)
  | v :: stack => .ok (v, { f with stack := stack })

/-- The slot an instruction names. -/
def slot (f : Frame) (i : Instruction) : Except Fault Nat :=
  match i.slot? with
  | none => .error (.typeMismatch i.opcode f.method)
  | some slot => .ok slot

def load (f : Frame) (i : Instruction) (slots : List Value) : Except Fault Effect := do
  let slot ← f.slot i
  match slots[slot]? with
  | none => throw (.badIndex slot f.method)
  | some v => pure (.proceed (f.push v))

/-- The slots with the top of the stack stored in one of them. -/
def store (f : Frame) (i : Instruction) (slots : List Value) :
    Except Fault (List Value × Frame) := do
  let slot ← f.slot i
  if slot < slots.length then
    let (v, f) ← f.pop
    pure (slots.set slot v, f)
  else throw (.badIndex slot f.method)

/-- Continues at a branch target if the branch is taken. -/
def jump (f : Frame) (op : Opcode) (target : InstrId) (taken : Bool) : Except Fault Effect :=
  if taken then
    match f.body.position? target with
    | none => .error (.typeMismatch op f.method)
    | some place => .ok (.proceed { f with next := place })
  else .ok (.proceed f)

/-- Executes an instruction in a frame that has already moved past it. -/
def execute (f : Frame) (i : Instruction) : Except Fault Effect := do
  let mismatched : Except Fault Effect := .error (.typeMismatch i.opcode f.method)
  match i.opcode with
  | .nop => pure (.proceed f)
  | .ldnull => pure (.proceed (f.push .null))
  | .ldcI4 | .ldcI4S =>
    match i.operand with
    | .int32 n => pure (.proceed (f.push (.int32 n)))
    | _ => mismatched
  | .ldcI8 =>
    match i.operand with
    | .int64 n => pure (.proceed (f.push (.int64 n)))
    | _ => mismatched
  | .ldstr =>
    match i.operand with
    | .string s => pure (.proceed (f.push (.string s)))
    | _ => mismatched
  | .ldarg0 | .ldarg1 | .ldarg2 | .ldarg3 | .ldargS | .ldarg => f.load i f.args
  | .stargS | .starg => do
    let (args, f) ← f.store i f.args
    pure (.proceed { f with args := args })
  | .ldloc0 | .ldloc1 | .ldloc2 | .ldloc3 | .ldlocS | .ldloc => f.load i f.locals
  | .stloc0 | .stloc1 | .stloc2 | .stloc3 | .stlocS | .stloc => do
    let (locals, f) ← f.store i f.locals
    pure (.proceed { f with locals := locals })
  | .pop => do
    let (_, f) ← f.pop
    pure (.proceed f)
  | .dup => do
    let (v, f) ← f.pop
    pure (.proceed ((f.push v).push v))
  | .add | .sub | .mul | .ceq | .clt => do
    let (b, f) ← f.pop
    let (a, f) ← f.pop
    match Value.binary? i.opcode a b with
    | some v => pure (.proceed (f.push v))
    | none => mismatched
  | .br =>
    match i.target? with
    | none => mismatched
    | some target => f.jump i.opcode target true
  | .brtrue =>
    match i.target? with
    | none => mismatched
    | some target => do
      let (v, f) ← f.pop
      f.jump i.opcode target v.isTrue
  | .brfalse =>
    match i.target? with
    | none => mismatched
    | some target => do
      let (v, f) ← f.pop
      f.jump i.opcode target (!v.isTrue)
  | .call =>
    match i.method? with
    | none => mismatched
    | some callee =>
      if callee.hasReceiver then throw (.unsupported i.opcode f.method)
      else
        let count := callee.params.length
        if f.stack.length < count then throw (.underflow f.method)
        else
          pure (.call callee (f.stack.take count).reverse
            { f with stack := f.stack.drop count })
  | .ret =>
    if f.returnsValue then do
      let (v, _) ← f.pop
      pure (.finish v)
    else pure (.finish .null)
  | _ => throw (.unsupported i.opcode f.method)

end Frame

/-- The frame that runs and those that wait, the innermost first. -/
structure Machine where
  current : Frame
  callers : List Frame
deriving DecidableEq, Inhabited, Repr

/-- A machine after one instruction. -/
inductive Progress where
  | running (machine : Machine)
  | finished (result : Value)
deriving Repr

namespace Machine

/-- The frame of a call, when `depth` frames are active already. -/
def enter (m : Module) (callee : MethodRef) (args : List Value) (depth : Nat) :
    Except Fault Frame := do
  let name := callee.qualified
  if maxCallDepth ≤ depth then throw (.callDepth name)
  match m.resolve? callee with
  | none => throw (.unresolved callee)
  | some method =>
    if !method.isStatic then throw (.unsupported .call name)
    match method.body with
    | none => throw (.noBody name)
    | some body =>
      if args.length ≠ method.params.length then
        throw (.arity name method.params.length args.length)
      pure
        { method := name
          body := body
          returnsValue := method.returnsValue
          kept := callee.outputs == 1
          args := args
          locals := List.replicate body.locals.length .null
          stack := []
          next := 0 }

/-- Executes one instruction of the running frame. -/
def step (m : Module) (s : Machine) (i : Instruction) : Except Fault Progress := do
  match ← { s.current with next := s.current.next + 1 }.execute i with
  | .proceed frame => pure (.running { s with current := frame })
  | .call callee args frame =>
    let callers := frame :: s.callers
    let callee ← enter m callee args callers.length
    pure (.running ⟨callee, callers⟩)
  | .finish result =>
    match s.callers with
    | [] => pure (.finished result)
    | caller :: callers =>
      let caller := if s.current.kept then caller.push result else caller
      pure (.running ⟨caller, callers⟩)

/-- Runs a machine for at most `limit` instructions. Running past the last instruction of a body is
a fault whatever the limit. The limit is any number, so a counter of 64 bits that has its greatest
value for a limit, and overflows after 2^64 instructions, is not covered. -/
def run (m : Module) : (limit : Nat) → Machine → Except Fault Value
  | limit, s =>
    match s.current.fetch? with
    | none => .error (.underflow s.current.method)
    | some i =>
      match limit with
      | 0 => .error (.stepLimit s.current.method)
      | limit + 1 => do
        match ← step m s i with
        | .running s => run m limit s
        | .finished result => pure result

end Machine

/-- Calls a static method of a module. -/
def Module.call (m : Module) (limit : Nat) (method : MethodRef) (args : List Value) :
    Except Fault Value := do
  let frame ← Machine.enter m method args 0
  Machine.run m limit ⟨frame, []⟩

end NativeBridge
