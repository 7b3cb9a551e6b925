/-!
The opcodes of the bytecode. Each belongs to one category, which decides how a pass looks at it, and
expects one kind of operand. The short forms fold a slot index into the opcode.
-/

namespace NativeBridge

/-- What an instruction does, as far as a pass is concerned. -/
inductive Category where
  | loadArgument
  | loadLocal
  | loadField
  | storeArgument
  | storeLocal
  | storeField
  | call
  | newObject
  | other
deriving DecidableEq, Repr

inductive OperandKind where
  | none
  | index
  | int32
  | int64
  | string
  | type
  | method
  | field
  | target
deriving DecidableEq, Repr

def OperandKind.label : OperandKind → String
  | .none => "none"
  | .index => "index"
  | .int32 => "int32"
  | .int64 => "int64"
  | .string => "string"
  | .type => "type"
  | .method => "method"
  | .field => "field"
  | .target => "branch target"

inductive Opcode where
  | nop | ldnull | ldcI4 | ldcI4S | ldcI8 | ldstr
  | ldarg0 | ldarg1 | ldarg2 | ldarg3 | ldargS | ldarg | stargS | starg
  | ldloc0 | ldloc1 | ldloc2 | ldloc3 | ldlocS | ldloc
  | stloc0 | stloc1 | stloc2 | stloc3 | stlocS | stloc
  | ldfld | ldsfld | stfld | stsfld
  | call | callvirt | newobj | ldftn | ldvirtftn | castclass
  | ret | pop | dup | add | sub | mul | ceq | clt | br | brtrue | brfalse | throw
deriving DecidableEq, Repr

namespace Opcode

/-- All opcodes in the order of the instruction set. -/
def all : List Opcode :=
  [nop, ldnull, ldcI4, ldcI4S, ldcI8, ldstr,
    ldarg0, ldarg1, ldarg2, ldarg3, ldargS, ldarg, stargS, starg,
    ldloc0, ldloc1, ldloc2, ldloc3, ldlocS, ldloc,
    stloc0, stloc1, stloc2, stloc3, stlocS, stloc,
    ldfld, ldsfld, stfld, stsfld,
    call, callvirt, newobj, ldftn, ldvirtftn, castclass,
    ret, pop, dup, add, sub, mul, ceq, clt, br, brtrue, brfalse, throw]

/-- The name an opcode has in listings and documents. -/
def mnemonic : Opcode → String
  | nop => "nop" | ldnull => "ldnull" | ldcI4 => "ldc.i4" | ldcI4S => "ldc.i4.s"
  | ldcI8 => "ldc.i8" | ldstr => "ldstr"
  | ldarg0 => "ldarg.0" | ldarg1 => "ldarg.1" | ldarg2 => "ldarg.2" | ldarg3 => "ldarg.3"
  | ldargS => "ldarg.s" | ldarg => "ldarg" | stargS => "starg.s" | starg => "starg"
  | ldloc0 => "ldloc.0" | ldloc1 => "ldloc.1" | ldloc2 => "ldloc.2" | ldloc3 => "ldloc.3"
  | ldlocS => "ldloc.s" | ldloc => "ldloc"
  | stloc0 => "stloc.0" | stloc1 => "stloc.1" | stloc2 => "stloc.2" | stloc3 => "stloc.3"
  | stlocS => "stloc.s" | stloc => "stloc"
  | ldfld => "ldfld" | ldsfld => "ldsfld" | stfld => "stfld" | stsfld => "stsfld"
  | call => "call" | callvirt => "callvirt" | newobj => "newobj" | ldftn => "ldftn"
  | ldvirtftn => "ldvirtftn" | castclass => "castclass"
  | ret => "ret" | pop => "pop" | dup => "dup" | add => "add" | sub => "sub" | mul => "mul"
  | ceq => "ceq" | clt => "clt" | br => "br" | brtrue => "brtrue" | brfalse => "brfalse"
  | throw => "throw"

def ofMnemonic? (name : String) : Option Opcode := all.find? (·.mnemonic == name)

def category : Opcode → Category
  | ldarg0 | ldarg1 | ldarg2 | ldarg3 | ldargS | ldarg => .loadArgument
  | stargS | starg => .storeArgument
  | ldloc0 | ldloc1 | ldloc2 | ldloc3 | ldlocS | ldloc => .loadLocal
  | stloc0 | stloc1 | stloc2 | stloc3 | stlocS | stloc => .storeLocal
  | ldfld | ldsfld => .loadField
  | stfld | stsfld => .storeField
  | call | callvirt => .call
  | newobj => .newObject
  | _ => .other

def operandKind : Opcode → OperandKind
  | ldcI4 | ldcI4S => .int32
  | ldcI8 => .int64
  | ldstr => .string
  | ldargS | ldarg | stargS | starg | ldlocS | ldloc | stlocS | stloc => .index
  | ldfld | ldsfld | stfld | stsfld => .field
  | call | callvirt | newobj | ldftn | ldvirtftn => .method
  | castclass => .type
  | br | brtrue | brfalse => .target
  | _ => .none

/-- The slot index that a short form folds into the opcode. -/
def shortIndex? : Opcode → Option Nat
  | ldarg0 | ldloc0 | stloc0 => some 0
  | ldarg1 | ldloc1 | stloc1 => some 1
  | ldarg2 | ldloc2 | stloc2 => some 2
  | ldarg3 | ldloc3 | stloc3 => some 3
  | _ => none

def isBranch : Opcode → Bool
  | br | brtrue | brfalse => true
  | _ => false

/-- Whether an opcode branches on a value. -/
def isConditional : Opcode → Bool
  | brtrue | brfalse => true
  | _ => false

/-- Whether control never runs on to the next instruction. -/
def isTerminator : Opcode → Bool
  | ret | throw | br => true
  | _ => false

def isCall : Opcode → Bool
  | call | callvirt => true
  | _ => false

/-- Whether an opcode only puts a value on the stack that it reads from a slot, a static field or
nowhere: the loads that can stand for the receiver of a delegate. -/
def isPlainLoad (op : Opcode) : Bool :=
  op.category == .loadArgument || op.category == .loadLocal || op == ldnull || op == ldsfld

theorem mem_all (op : Opcode) : op ∈ all := by cases op <;> decide

end Opcode

end NativeBridge
