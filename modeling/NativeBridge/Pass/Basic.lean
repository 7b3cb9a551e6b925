import NativeBridge.Body.Edit
import NativeBridge.StackDepth

/-!
What a pass over a module is made of: the rules that look at instructions, what they are told about
each one, what they may change, and what they leave in the log.
-/

namespace NativeBridge

inductive LogLevel where
  | debug
  | info
  | warn
deriving DecidableEq, Repr

/-- A log event: a message and named details. -/
structure LogEvent where
  level : LogLevel
  message : String
  details : List (String × String)
deriving DecidableEq, Repr

namespace Pass

/-- Why a pass was given up. Methods appear as messages show them. -/
inductive PassError where
  | operandMismatch (method : String) (site : InstrId) (op : Opcode)
  | unknownArgument (method : String) (site : InstrId) (slot : Nat)
  | unknownLocal (method : String) (site : InstrId) (slot : Nat)
  | missingAdapterType (method : MethodRef) (adapter : TypeName)
  | missingAdapterMethod (method : MethodRef) (adapter : TypeName)
  | workerArity (method : String) (lookup : MethodRef)
  | handleOverflow (method : String) (target : MethodRef) (handle : Nat)
  | edit (method : String) (cause : EditError)
  | stack (cause : MethodFault)
deriving DecidableEq, Repr

def PassError.message : PassError → String
  | .operandMismatch method site op =>
    "Operand mismatch for '" ++ op.mnemonic ++ "' at " ++ site.label ++ " in " ++ method
  | .unknownArgument method site slot =>
    "Argument " ++ toString slot ++ " at " ++ site.label ++ " in " ++ method ++
      " has no declaration"
  | .unknownLocal method site slot =>
    "Local " ++ toString slot ++ " at " ++ site.label ++ " in " ++ method ++
      " has no declaration"
  | .missingAdapterType method adapter =>
    "Adapter class " ++ adapter.text ++ " for " ++ method.text ++
      " is not defined in the module"
  | .missingAdapterMethod method adapter =>
    "Adapter class " ++ adapter.text ++ " has no static method matching " ++ method.text
  | .workerArity method lookup =>
    "Worker lookup " ++ lookup.text ++ " in " ++ method ++ " takes " ++
      toString lookup.genericArgs.length ++ " generic arguments, expected 1"
  | .handleOverflow method target handle =>
    "Callback handle " ++ toString handle ++ " for " ++ target.text ++ " in " ++ method ++
      " exceeds the int32 range"
  | .edit method cause => method ++ ": " ++ cause.message
  | .stack cause => "Rewritten method failed verification: " ++ cause.message

/-- The method under way. The module shows it without its body. -/
structure Site where
  enclosing : Module
  type : TypeName
  method : MethodDef

/-- What messages call the method under way. -/
def Site.label (s : Site) : String := s.type.text ++ "::" ++ s.method.name

/-- An instruction with its operand looked up in the declarations of the method. -/
inductive Visit where
  | loadArgument (slot : Nat) (param : Parameter)
  | storeArgument (slot : Nat) (param : Parameter)
  | loadLocal (slot : Nat) (declared : Local)
  | storeLocal (slot : Nat) (declared : Local)
  | loadField (field : FieldRef)
  | storeField (field : FieldRef)
  | call (method : MethodRef)
  | newObject (ctor : MethodRef)
  | other (instruction : Instruction)
deriving DecidableEq, Repr

/-- What rules may change: the body under way, their own state and the log. -/
structure Workspace (σ : Type) where
  body : Body
  state : σ
  log : List LogEvent

/-- A change of a workspace that may fail. What was changed before a failure stays changed. -/
abbrev Edit (σ : Type) := ExceptT PassError (StateM (Workspace σ))

/-- A rule: a name and what it does at an instruction. -/
structure Rule (σ : Type) where
  name : String
  react : Site → InstrId → Visit → Edit σ Unit

namespace Edit

variable {σ : Type}

/-- The body under way. -/
def body : Edit σ Body := do return (← get).body

/-- Puts another body in its place. -/
def setBody (b : Body) : Edit σ Unit := modify fun w => { w with body := b }

def record (event : LogEvent) : Edit σ Unit :=
  modify fun w => { w with log := w.log ++ [event] }

/-- Applies an edit of the body, or fails naming the method. -/
def apply {α : Type} (site : Site) (change : Body → Except EditError (α × Body)) : Edit σ α := do
  match change (← body) with
  | .ok (value, b) => do
    setBody b
    return value
  | .error cause => throw (.edit site.label cause)

def remove (site : Site) (id : InstrId) : Edit σ Unit := do
  let _ ← apply site (·.remove id)

def replace (site : Site) (id : InstrId) (i : Instruction) : Edit σ Unit := do
  let _ ← apply site (·.replace id i)

/-- The details that locate an event. -/
def whereabouts (site : Site) (id : InstrId) : List (String × String) :=
  [("method", site.label), ("at", id.label)]

end Edit

/-- The live instruction before a live one. -/
def precedingIn (b : Body) (id : InstrId) : Option (InstrId × Instruction) := do
  let before ← b.previous? id
  let i ← b.get? before
  pure (before, i)

/-- Whether an instruction of a body loads the receiver. -/
def isReceiverLoad (b : Body) (i : Instruction) : Bool :=
  b.hasReceiver && i.opcode.category == .loadArgument && i.slot? == some 0

/-- A rule that works on one part of a larger state. -/
def Rule.zoom {σ τ : Type} (part : τ → σ) (update : σ → τ → τ) (rule : Rule σ) : Rule τ where
  name := rule.name
  react site id visit := ExceptT.mk fun w =>
    let (result, inner) := (rule.react site id visit).run.run ⟨w.body, part w.state, w.log⟩
    (result, ⟨inner.body, update inner.state w.state, inner.log⟩)

end Pass

end NativeBridge
