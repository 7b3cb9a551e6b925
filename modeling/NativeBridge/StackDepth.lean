import NativeBridge.Module

/-!
The stack check. It follows every path through a body and keeps track of how many values are on the
evaluation stack, but not of what they are. A body passes when no instruction takes more than there
is, paths that meet agree on the depth, every return leaves the stack empty and control never runs
off the end.
-/

namespace NativeBridge

def maxStackDepth : Nat := 1024

/-- What is wrong with a body, and at which instruction. -/
inductive StackFault where
  | operandMismatch (op : Opcode) (site : InstrId)
  | underflow (op : Opcode) (site : InstrId) (needed depth : Nat)
  | overflow (site : InstrId)
  | depthMismatch (site : InstrId) (first second : Nat)
  | unbalancedReturn (site : InstrId) (depth : Nat)
  | invalidTarget (target site : InstrId)
  | fallsOffEnd (site : InstrId)
deriving DecidableEq, Repr

def StackFault.message : StackFault → String
  | .operandMismatch op site =>
    "Operand mismatch for '" ++ op.mnemonic ++ "' at " ++ site.label
  | .underflow op site needed depth =>
    "Stack underflow at " ++ site.label ++ " ('" ++ op.mnemonic ++ "' needs " ++
      toString needed ++ ", stack has " ++ toString depth ++ ")"
  | .overflow site => "Stack overflow at " ++ site.label
  | .depthMismatch site first second =>
    "Inconsistent stack depth at " ++ site.label ++ ": " ++ toString first ++ " vs " ++
      toString second
  | .unbalancedReturn site depth =>
    "Stack not empty at return " ++ site.label ++ " (" ++ toString depth ++ " extra values)"
  | .invalidTarget target site =>
    "Invalid branch target " ++ target.label ++ " at " ++ site.label
  | .fallsOffEnd site => "Execution falls off end of body after " ++ site.label

/-- How many values an instruction takes from the stack and how many it puts there. -/
structure StackEffect where
  pops : Nat
  pushes : Nat
deriving DecidableEq, Repr

/-- The effect of an instruction in a method that returns a value or not; `none` if its operand is
not of the kind its opcode expects. -/
def Instruction.stackEffect? (i : Instruction) (returnsValue : Bool) : Option StackEffect :=
  if i.isMatched then
    match i.opcode with
    | .nop | .br => some ⟨0, 0⟩
    | .ldnull | .ldcI4 | .ldcI4S | .ldcI8 | .ldstr
    | .ldarg0 | .ldarg1 | .ldarg2 | .ldarg3 | .ldargS | .ldarg
    | .ldloc0 | .ldloc1 | .ldloc2 | .ldloc3 | .ldlocS | .ldloc
    | .ldsfld | .ldftn => some ⟨0, 1⟩
    | .stargS | .starg
    | .stloc0 | .stloc1 | .stloc2 | .stloc3 | .stlocS | .stloc
    | .stsfld | .pop | .brtrue | .brfalse | .throw => some ⟨1, 0⟩
    | .ldfld | .ldvirtftn | .castclass => some ⟨1, 1⟩
    | .stfld => some ⟨2, 0⟩
    | .dup => some ⟨1, 2⟩
    | .add | .sub | .mul | .ceq | .clt => some ⟨2, 1⟩
    | .ret => some ⟨returnsValue.toNat, 0⟩
    | .call | .callvirt => i.method?.map fun m => ⟨m.inputs, m.outputs⟩
    | .newobj => i.method?.map fun m => ⟨m.params.length, 1⟩
  else none

namespace Body

/-- A place in a body and the stack depth with which control reaches it. -/
abbrev Arrival := Nat × Nat

/-- The depth with which a handler of a kind is entered. -/
def entryDepth : HandlerKind → Nat
  | .catching => 1
  | .finalizing => 0

/-- Where control enters a body: at its live handlers, the last one first, and at its start. -/
def entries (b : Body) : List Arrival :=
  (b.handlers.filterMap fun h =>
    (b.position? h.handlerStart).map fun place => (place, entryDepth h.kind)).reverse ++ [(0, 0)]

/-- The arrivals that an instruction causes: behind it first, then at its target. -/
def arrivals (b : Body) (place after : Nat) (site : InstrId) (i : Instruction) :
    Except StackFault (List Arrival) := do
  let jumps ←
    match i.target? with
    | none => pure []
    | some target =>
      match b.position? target with
      | none => throw (.invalidTarget target site)
      | some targetPlace => pure [(targetPlace, after)]
  if i.opcode.isTerminator then pure jumps
  else if place + 1 < b.size then pure ((place + 1, after) :: jumps)
  else throw (.fallsOffEnd site)

/-- Checks one instruction and gives the arrivals it causes. -/
def checkInstruction (b : Body) (returnsValue : Bool) (place depth : Nat) (site : InstrId)
    (i : Instruction) : Except StackFault (List Arrival) :=
  match i.stackEffect? returnsValue with
  | none => .error (.operandMismatch i.opcode site)
  | some effect =>
    let after := depth - effect.pops + effect.pushes
    if depth < effect.pops then .error (.underflow i.opcode site effect.pops depth)
    else if maxStackDepth < after then .error (.overflow site)
    else if i.opcode = .ret ∧ after ≠ 0 then .error (.unbalancedReturn site after)
    else b.arrivals place after site i

/-- Follows arrivals until none is left. `depths` holds the depth of every place reached so far.
Each place is expanded once and causes at most two arrivals, which bounds the fuel. -/
def explore (b : Body) (returnsValue : Bool) (code : List (InstrId × Instruction)) :
    (fuel : Nat) → (pending : List Arrival) → (depths : List (Option Nat)) →
      Except StackFault Unit
  | 0, _, _ => .ok ()
  | _ + 1, [], _ => .ok ()
  | fuel + 1, (place, depth) :: pending, depths =>
    match code[place]? with
    | none => explore b returnsValue code fuel pending depths
    | some (site, i) =>
      match depths[place]?.join with
      | some seen =>
        if seen = depth then explore b returnsValue code fuel pending depths
        else .error (.depthMismatch site seen depth)
      | none => do
        let arrivals ← b.checkInstruction returnsValue place depth site i
        explore b returnsValue code fuel (arrivals ++ pending) (depths.set place (some depth))

/-- Checks a body. One without live instructions passes. -/
def checkStack (b : Body) (returnsValue : Bool) : Except StackFault Unit :=
  if b.size = 0 then .ok ()
  else
    let entries := b.entries
    explore b returnsValue b.code (entries.length + 2 * b.size + 1) entries
      (List.replicate b.size none)

end Body

structure MethodFault where
  method : String
  fault : StackFault
deriving DecidableEq, Repr

def MethodFault.message (e : MethodFault) : String := e.method ++ ": " ++ e.fault.message

namespace Module

def checkMethod (entry : TypeDef × MethodDef) : Except MethodFault Unit :=
  match entry.2.body with
  | none => .ok ()
  | some body =>
    (body.checkStack entry.2.returnsValue).mapError (MethodFault.mk (entry.1.methodLabel entry.2))

/-- Checks every method and reports the first fault. -/
def checkStacks (m : Module) : Except MethodFault Unit := m.methods.forM checkMethod

end Module

end NativeBridge
