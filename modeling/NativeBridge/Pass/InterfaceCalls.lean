import NativeBridge.Pass.Basic
import NativeBridge.Pass.StaticBindings

/-!
The rule that resolves interfaces early. A call on an interface with an adapter becomes a direct
call of the adapter's static method, and loads and stores of values of designated types are taken
out. An access to a field of an object goes together with the load of the receiver right before it;
any other object operand stays, with a warning.
-/

namespace NativeBridge.Pass

variable {σ : Type}

/-- Takes out a live load or store of a value of a designated type. -/
def elideValue (bindings : StaticBindings) (site : Site) (id : InstrId) (type : TypeName) :
    Edit σ Unit := do
  let b ← Edit.body
  if bindings.isDesignated type && b.isLive id then
    Edit.record ⟨.debug, "eliding value of " ++ type.text, Edit.whereabouts site id⟩
    Edit.remove site id

/-- Takes out the receiver load before a field access, or warns that there is none. -/
def elideObject (site : Site) (id : InstrId) (field : FieldRef) : Edit σ Unit := do
  let b ← Edit.body
  let receiver := (precedingIn b id).filter fun before => isReceiverLoad b before.2
  match receiver with
  | some (before, _) => Edit.remove site before
  | none =>
    Edit.record
      ⟨.warn, "object operand of " ++ field.text ++ " is not the receiver; left in place",
        Edit.whereabouts site id⟩

/-- Takes out a live access to a field of a designated type. -/
def elideField (bindings : StaticBindings) (site : Site) (id : InstrId) (field : FieldRef) :
    Edit σ Unit := do
  let b ← Edit.body
  if bindings.isDesignated field.type && b.isLive id then
    if !field.isStatic then elideObject site id field
    Edit.record ⟨.debug, "eliding field " ++ field.text, Edit.whereabouts site id⟩
    Edit.remove site id

/-- The static method of an adapter that stands in for a method: one with the same parameters if
there is one, else the first of that name. -/
def adapterMethod? (adapter : TypeDef) (method : MethodRef) : Option MethodDef :=
  (adapter.methods.find? fun m => m.isStatic && m.matchesRef method).or
    (adapter.staticMethod? method.name)

/-- The method that a call through an interface reaches. -/
def adapterTarget (m : Module) (adapter : TypeName) (method : MethodRef) :
    Except PassError MethodRef :=
  match m.findType? adapter with
  | none => .error (.missingAdapterType method adapter)
  | some type =>
    match adapterMethod? type method with
    | none => .error (.missingAdapterMethod method adapter)
    | some target => .ok { target.ref adapter with genericArgs := method.genericArgs }

/-- Lets a live call on an interface with an adapter reach the adapter. -/
def retargetCall (bindings : StaticBindings) (site : Site) (id : InstrId) (method : MethodRef) :
    Edit σ Unit := do
  match bindings.adapter? method.declaringType with
  | none => return
  | some adapter =>
    let b ← Edit.body
    if b.isLive id then
      match adapterTarget site.enclosing adapter method with
      | .error e => throw e
      | .ok target => do
        Edit.record
          ⟨.debug, "retargeting " ++ method.text ++ " to " ++ target.text,
            Edit.whereabouts site id⟩
        Edit.replace site id ⟨.call, .method target⟩

def interfaceCalls (bindings : StaticBindings) : Rule σ where
  name := "interface-call"
  react site id
    | .loadArgument _ param => elideValue bindings site id param.type
    | .storeArgument _ param => elideValue bindings site id param.type
    | .loadLocal _ declared => elideValue bindings site id declared.type
    | .storeLocal _ declared => elideValue bindings site id declared.type
    | .loadField field => elideField bindings site id field
    | .storeField field => elideField bindings site id field
    | .call method => retargetCall bindings site id method
    | _ => return

end NativeBridge.Pass
