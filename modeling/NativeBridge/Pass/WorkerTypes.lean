import NativeBridge.Pass.Basic

/-!
The rule that collects worker types. It changes nothing; it notes the generic argument of every call
of the worker factory, each type once, in the order of the program.
-/

namespace NativeBridge

/-- The method that looks workers up. Overloads differ in their parameters only. -/
structure WorkerFactory where
  declaringType : TypeName
  method : String
deriving DecidableEq, Repr

instance : Inhabited WorkerFactory :=
  ⟨⟨.simple "Runtime.Workers" "WorkerHost", "GetWorker"⟩⟩

namespace WorkerFactory

def record : Json.Record WorkerFactory where
  name := "WorkerFactory"
  blank := default
  fields :=
    [.required "declaring_type" TypeName.decoder fun v f => { f with declaringType := v },
      .required "method" .string fun v f => { f with method := v }]

/-- Whether a call is a lookup of a worker. Generic arguments of the declaring type do not
matter. -/
def isLookup (f : WorkerFactory) (m : MethodRef) : Bool :=
  m.name == f.method && m.declaringType.space == f.declaringType.space &&
    m.declaringType.name == f.declaringType.name

end WorkerFactory

namespace Pass

/-- The rule. Its state is the list of types found so far. -/
def workerTypes (factory : WorkerFactory) : Rule (List TypeName) where
  name := "worker-types"
  react site id
    | .call method => do
      if factory.isLookup method then
        match method.genericArgs with
        | [worker] => do
          let found := (← get).state
          if !found.contains worker then
            modify fun w => { w with state := found ++ [worker] }
            Edit.record ⟨.debug, "worker type " ++ worker.text, Edit.whereabouts site id⟩
        | _ => throw (.workerArity site.label method)
    | _ => return

end Pass

end NativeBridge
