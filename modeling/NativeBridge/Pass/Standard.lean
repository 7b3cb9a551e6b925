import NativeBridge.Pass.CallbackHandles
import NativeBridge.Pass.InterfaceCalls
import NativeBridge.Pass.Traversal
import NativeBridge.Pass.WorkerTypes

/-!
The pass that prepares a module for native compilation: the three rules together, with the tables
that they fill.
-/

namespace NativeBridge.Pass

/-- What the rules collect. -/
structure Tables where
  callbacks : CallbackTable := {}
  workers : List TypeName := []
deriving DecidableEq, Inhabited, Repr

/-- The rule for delegates on its part of the tables. -/
def callbackRule : Rule Tables :=
  (callbackHandles CallbackTable.add).zoom Tables.callbacks fun v t => { t with callbacks := v }

/-- The rule for worker types on its part of the tables. -/
def workerRule (factory : WorkerFactory) : Rule Tables :=
  (workerTypes factory).zoom Tables.workers fun v t => { t with workers := v }

/-- The three rules in their usual order. -/
def standardRules (bindings : StaticBindings) (factory : WorkerFactory) : List (Rule Tables) :=
  [interfaceCalls bindings, callbackRule, workerRule factory]

end NativeBridge.Pass
