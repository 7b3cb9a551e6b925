import NativeBridge.Machine
import NativeBridge.Proofs.Success
import NativeBridge.StackDepth

/-! The operations of the machine. Many opcodes are encodings of one operation; an instruction whose
operand is of the right kind denotes one, and executing the instruction performs it. -/

namespace NativeBridge

/-- The slots of a frame that instructions name by a number. -/
inductive Bank where
  | arguments
  | locals
deriving DecidableEq, Repr

/-- What an instruction does on the machine, whatever its encoding. -/
inductive Operation where
  | nothing
  | constant (value : Value)
  | load (bank : Bank) (slot : Nat)
  | store (bank : Bank) (slot : Nat)
  | discard
  | duplicate
  | compute
  /-- Branches always, or on a value that counts as the given truth value. -/
  | jump (condition : Option Bool) (target : InstrId)
  | invoke (callee : MethodRef)
  | leave
  /-- Outside of what the machine supports. -/
  | foreign
deriving DecidableEq, Repr

/-- The operation that an instruction denotes; `none` if its operand is of the wrong kind. -/
def Instruction.operation? (i : Instruction) : Option Operation :=
  if i.isMatched then
    match i.opcode with
    | .nop => some .nothing
    | .ldnull => some (.constant .null)
    | .ldcI4 | .ldcI4S | .ldcI8 | .ldstr =>
      match i.operand with
      | .int32 n => some (.constant (.int32 n))
      | .int64 n => some (.constant (.int64 n))
      | .string s => some (.constant (.string s))
      | _ => none
    | .pop => some .discard
    | .dup => some .duplicate
    | .add | .sub | .mul | .ceq | .clt => some .compute
    | .br => i.target?.map (.jump none)
    | .brtrue => i.target?.map (.jump (some true))
    | .brfalse => i.target?.map (.jump (some false))
    | .call => i.method?.map .invoke
    | .ret => some .leave
    | _ =>
      match i.opcode.category with
      | .loadArgument => i.slot?.map (.load .arguments)
      | .storeArgument => i.slot?.map (.store .arguments)
      | .loadLocal => i.slot?.map (.load .locals)
      | .storeLocal => i.slot?.map (.store .locals)
      | _ => some .foreign
  else none

/-- How many values an operation takes and puts; the machine says nothing of foreign ones. -/
def Operation.effect? (returnsValue : Bool) : Operation → Option StackEffect
  | .nothing => some ⟨0, 0⟩
  | .constant _ | .load _ _ => some ⟨0, 1⟩
  | .store _ _ | .discard => some ⟨1, 0⟩
  | .duplicate => some ⟨1, 2⟩
  | .compute => some ⟨2, 1⟩
  | .jump condition _ => some ⟨condition.isSome.toNat, 0⟩
  | .invoke callee => some ⟨callee.inputs, callee.outputs⟩
  | .leave => some ⟨returnsValue.toNat, 0⟩
  | .foreign => none

/-- The operations whose operands may turn out to be of the wrong type. -/
def arithmetic : List Opcode := [.add, .sub, .mul, .ceq, .clt]

/-- The category of the instructions that load from a bank. -/
def Bank.loads : Bank → Category
  | .arguments => .loadArgument
  | .locals => .loadLocal

/-- The category of the instructions that store to a bank. -/
def Bank.stores : Bank → Category
  | .arguments => .storeArgument
  | .locals => .storeLocal

/-- What the encoding of an operation says of it. -/
def Operation.Encoded (i : Instruction) : Operation → Prop
  | .load bank slot => i.opcode.category = bank.loads ∧ i.slot? = some slot
  | .store bank slot => i.opcode.category = bank.stores ∧ i.slot? = some slot
  | .compute => i.opcode ∈ arithmetic
  | .jump _ target => i.target? = some target
  | .invoke callee => i.opcode = .call ∧ i.method? = some callee
  | .leave => i.opcode = .ret
  | _ => True

/-- Whether an operation may end the flow of control. -/
def Operation.endsFlow : Operation → Bool
  | .jump none _ | .leave | .foreign => true
  | _ => false

namespace Frame

/-- The values of a bank. -/
def slots (f : Frame) : Bank → List Value
  | .arguments => f.args
  | .locals => f.locals

/-- The frame with other values in a bank. -/
def setSlots (f : Frame) (values : List Value) : Bank → Frame
  | .arguments => { f with args := values }
  | .locals => { f with locals := values }

theorem slots_setSlots (f : Frame) (values : List Value) (bank other : Bank) :
    (f.setSlots values bank).slots other = if other = bank then values else f.slots other := by
  cases bank <;> cases other <;> rfl

/-- Performs an operation for an opcode in a frame that has moved past it. -/
def perform (f : Frame) (op : Opcode) : Operation → Except Fault Effect
  | .nothing => .ok (.proceed f)
  | .constant v => .ok (.proceed (f.push v))
  | .load bank slot =>
    match (f.slots bank)[slot]? with
    | none => .error (.badIndex slot f.method)
    | some v => .ok (.proceed (f.push v))
  | .store bank slot =>
    if slot < (f.slots bank).length then
      match f.stack with
      | [] => .error (.underflow f.method)
      | v :: stack =>
        .ok (.proceed ({ f with stack := stack }.setSlots ((f.slots bank).set slot v) bank))
    else .error (.badIndex slot f.method)
  | .discard =>
    match f.stack with
    | [] => .error (.underflow f.method)
    | _ :: stack => .ok (.proceed { f with stack := stack })
  | .duplicate =>
    match f.stack with
    | [] => .error (.underflow f.method)
    | v :: stack => .ok (.proceed { f with stack := v :: v :: stack })
  | .compute =>
    match f.stack with
    | b :: a :: stack =>
      match Value.binary? op a b with
      | some v => .ok (.proceed { f with stack := v :: stack })
      | none => .error (.typeMismatch op f.method)
    | _ => .error (.underflow f.method)
  | .jump none target => f.jump op target true
  | .jump (some expected) target =>
    match f.stack with
    | [] => .error (.underflow f.method)
    | v :: stack => { f with stack := stack }.jump op target (v.isTrue == expected)
  | .invoke callee =>
    if callee.hasReceiver then .error (.unsupported op f.method)
    else if f.stack.length < callee.params.length then .error (.underflow f.method)
    else
      .ok (.call callee (f.stack.take callee.params.length).reverse
        { f with stack := f.stack.drop callee.params.length })
  | .leave =>
    if f.returnsValue then
      match f.stack with
      | [] => .error (.underflow f.method)
      | v :: _ => .ok (.finish v)
    else .ok (.finish .null)
  | .foreign => .error (.unsupported op f.method)

theorem load_eq_perform (f : Frame) (i : Instruction) (bank : Bank) (slot : Nat)
    (named : i.slot? = some slot) :
    f.load i (f.slots bank) = f.perform i.opcode (.load bank slot) := by
  simp only [load, Frame.slot, named, perform]
  rfl

theorem store_eq_perform (f : Frame) (i : Instruction) (bank : Bank) (slot : Nat)
    (named : i.slot? = some slot) :
    (f.store i (f.slots bank) >>= fun stored => pure (.proceed (stored.2.setSlots stored.1 bank))) =
      f.perform i.opcode (.store bank slot) := by
  simp only [store, Frame.slot, named, perform, pop, Success.ok_bind]
  by_cases inside : slot < (f.slots bank).length
  · simp only [if_pos inside]
    cases f.stack <;> rfl
  · simp only [if_neg inside]
    rfl

theorem compute_eq_perform (f : Frame) (op : Opcode) :
    (do
      let (b, g) ← f.pop
      let (a, h) ← g.pop
      match Value.binary? op a b with
      | some v => pure (.proceed (h.push v))
      | none => .error (.typeMismatch op f.method)) = f.perform op .compute := by
  simp only [perform, pop]
  rcases f.stack with _ | ⟨b, _ | ⟨a, stack⟩⟩
  · rfl
  · rfl
  · simp only [Success.ok_bind]
    cases Value.binary? op a b <;> rfl

/-- Executing an instruction performs the operation that it denotes. -/
theorem execute_eq_perform (f : Frame) (i : Instruction) (o : Operation)
    (denoted : i.operation? = some o) : f.execute i = f.perform i.opcode o := by
  unfold Instruction.operation? at denoted
  split at denoted
  next matched =>
    obtain ⟨op, operand⟩ := i
    -- The opcodes fall into the groups that `operation?` makes of them.
    cases op <;> simp only [Opcode.category, Option.map_eq_some_iff, Option.some.injEq] at denoted
    case nop | ldnull | ldfld | ldsfld | stfld | stsfld | callvirt | newobj | ldftn | ldvirtftn
        | castclass | throw =>
      subst denoted
      rfl
    case ldcI4 | ldcI4S | ldcI8 | ldstr =>
      cases operand <;> simp_all [Instruction.isMatched, Opcode.operandKind, Operand.kind]
      all_goals (subst denoted; rfl)
    case ldarg0 | ldarg1 | ldarg2 | ldarg3 | ldargS | ldarg =>
      obtain ⟨slot, named, rfl⟩ := denoted
      exact load_eq_perform f _ .arguments slot named
    case ldloc0 | ldloc1 | ldloc2 | ldloc3 | ldlocS | ldloc =>
      obtain ⟨slot, named, rfl⟩ := denoted
      exact load_eq_perform f _ .locals slot named
    case stargS | starg =>
      obtain ⟨slot, named, rfl⟩ := denoted
      exact store_eq_perform f _ .arguments slot named
    case stloc0 | stloc1 | stloc2 | stloc3 | stlocS | stloc =>
      obtain ⟨slot, named, rfl⟩ := denoted
      exact store_eq_perform f _ .locals slot named
    case pop | dup | ret =>
      subst denoted
      simp only [execute, perform, Frame.pop]
      cases f.stack <;> rfl
    case add | sub | mul | ceq | clt =>
      subst denoted
      exact compute_eq_perform f _
    case br =>
      obtain ⟨target, aim, rfl⟩ := denoted
      simp only [execute, perform, aim]
    case brtrue | brfalse =>
      obtain ⟨target, aim, rfl⟩ := denoted
      simp only [execute, perform, aim, Frame.pop]
      cases f.stack <;> simp
    case call =>
      obtain ⟨callee, named, rfl⟩ := denoted
      simp only [execute, perform, named]
      rfl
  next => cases denoted

end Frame

namespace Instruction

/-- Every instruction whose operand is of the right kind denotes an operation. -/
theorem exists_operation {i : Instruction} (matched : i.isMatched = true) :
    ∃ o, i.operation? = some o := by
  obtain ⟨op, operand⟩ := i
  have kind : op.operandKind = operand.kind := by simpa [isMatched] using matched
  cases op <;> cases operand <;> cases kind <;> exact ⟨_, rfl⟩

theorem isMatched_of_operation {i : Instruction} {o : Operation}
    (denoted : i.operation? = some o) : i.isMatched = true := by
  unfold operation? at denoted
  split at denoted
  next matched => exact matched
  · cases denoted

theorem isMatched_of_effect {i : Instruction} {returnsValue : Bool} {effect : StackEffect}
    (known : i.stackEffect? returnsValue = some effect) : i.isMatched = true := by
  unfold stackEffect? at known
  split at known
  next matched => exact matched
  · cases known

/-- An operation that the machine supports has the effect of its instruction. -/
theorem effect?_of_operation {i : Instruction} {o : Operation} {effect : StackEffect}
    {returnsValue : Bool} (denoted : i.operation? = some o) (supported : o ≠ .foreign)
    (known : i.stackEffect? returnsValue = some effect) :
    o.effect? returnsValue = some effect := by
  have matched := isMatched_of_operation denoted
  obtain ⟨op, operand⟩ := i
  have kind : op.operandKind = operand.kind := by simpa [isMatched] using matched
  cases op <;> cases operand <;> cases kind <;> cases denoted
  case ldfld | ldsfld | stfld | stsfld | callvirt | newobj | ldftn | ldvirtftn | castclass
      | throw =>
    exact absurd rfl supported
  all_goals exact known

theorem encoded_of_operation {i : Instruction} {o : Operation} (denoted : i.operation? = some o) :
    o.Encoded i := by
  have matched := isMatched_of_operation denoted
  obtain ⟨op, operand⟩ := i
  have kind : op.operandKind = operand.kind := by simpa [isMatched] using matched
  cases op <;> cases operand <;> cases kind <;> cases denoted <;>
    simp [Operation.Encoded, Bank.loads, Bank.stores, Opcode.category, slot?, Opcode.shortIndex?,
      arithmetic, target?, method?]

/-- Control runs on behind every operation that does not end the flow. -/
theorem runs_on_of_operation {i : Instruction} {o : Operation} (denoted : i.operation? = some o)
    (continues : o.endsFlow = false) : i.opcode.isTerminator = false := by
  have matched := isMatched_of_operation denoted
  obtain ⟨op, operand⟩ := i
  have kind : op.operandKind = operand.kind := by simpa [isMatched] using matched
  cases op
  case ret | throw =>
    cases operand <;> cases kind
    cases denoted
    cases continues
  case br =>
    cases operand <;> cases kind
    cases denoted
    cases continues
  all_goals rfl

end Instruction

end NativeBridge
