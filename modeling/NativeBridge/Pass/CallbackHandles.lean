import NativeBridge.Pass.Basic

/-!
The rule that replaces delegates by handles. A delegate whose type has a native signature is made by
three instructions in a row: a plain load of its receiver, the load of a method address and the
construction. They become the load of an integer, the handle of that method. Any other shape is left
alone.
-/

namespace NativeBridge

/-- A method that native code calls by its handle. -/
structure CallbackEntry where
  handle : Nat
  signature : String
  method : MethodRef
deriving DecidableEq, Inhabited, Repr

def CallbackEntry.toJson (e : CallbackEntry) : Json :=
  .object [("handle", .int e.handle), ("signature", .string e.signature),
    ("method", e.method.toJson)]

/-- The methods that have a handle, in the order in which they got it. -/
structure CallbackTable where
  entries : List CallbackEntry := []
deriving DecidableEq, Inhabited, Repr

namespace CallbackTable

/-- Gives a method the next handle, which has 32 bits. A method that has one already gets
another. -/
def add (t : CallbackTable) (signature : String) (method : MethodRef) : Nat × CallbackTable :=
  let handle := t.entries.length % Nat.pow 2 32
  (handle, ⟨t.entries ++ [⟨handle, signature, method⟩]⟩)

def size (t : CallbackTable) : Nat := t.entries.length

def toJson (t : CallbackTable) : Json := .array (t.entries.map CallbackEntry.toJson)

end CallbackTable

namespace Pass

/-- The instructions that make a delegate: the load of the receiver, the load of the method address
and the method. -/
structure DelegateIdiom where
  receiver : InstrId
  address : InstrId
  target : MethodRef
deriving DecidableEq, Repr

/-- The instructions that make the delegate constructed at `id`, if they have the known shape. -/
def delegateIdiom? (b : Body) (id : InstrId) : Option DelegateIdiom := do
  let (address, load) ← precedingIn b id
  guard (load.opcode = .ldftn)
  let target ← load.method?
  let (receiver, plain) ← precedingIn b address
  guard plain.opcode.isPlainLoad
  pure ⟨receiver, address, target⟩

/-- The greatest handle that an instruction can load. -/
def greatestHandle : Nat := Nat.pow 2 31 - 1

/-- The rule, over a registry that `add` extends. -/
def callbackHandles {ρ : Type} (add : ρ → String → MethodRef → Nat × ρ) : Rule ρ where
  name := "callback-handle"
  react site id
    | .newObject ctor => do
      let b ← Edit.body
      if b.isLive id then
        match (site.enclosing.findType? ctor.declaringType).bind (·.nativeSignature),
            delegateIdiom? b id with
        | some signature, some idiom => do
          let (handle, registry) := add (← get).state signature idiom.target
          modify fun w => { w with state := registry }
          if greatestHandle < handle then
            throw (.handleOverflow site.label idiom.target handle)
          Edit.record
            ⟨.debug, "delegate " ++ ctor.declaringType.text ++ " to " ++ idiom.target.text ++
                " replaced by handle",
              Edit.whereabouts site id ++ [("handle", toString handle)]⟩
          Edit.replace site idiom.receiver ⟨.ldcI4, .int32 (Int32.ofNat handle)⟩
          Edit.remove site idiom.address
          Edit.remove site id
        | _, _ => return
    | _ => return

end Pass

end NativeBridge
