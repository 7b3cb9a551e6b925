import NativeBridge.Pass.Basic

/-!
One pass over a module. Every method with a body is visited once, in the order of the module. The
instructions that were live when the visit began are shown to every rule in turn, also those that a
rule has removed by then, each as the body holds it when its turn comes. A body that was being
edited when a rule failed is kept as it is, and later methods are left alone.
-/

namespace NativeBridge.Pass

/-- What a pass did: the methods it visited, the instructions it showed to the rules, and how many
more there were before it than after it. -/
structure Report where
  methods : Nat := 0
  instructions : Nat := 0
  removed : Int := 0
deriving DecidableEq, Repr

def Report.text (r : Report) : String :=
  toString r.methods ++ " methods, " ++ toString r.instructions ++ " instructions, " ++
    toString r.removed ++ " removed"

/-- The report after one more method. Its instructions count if all of them were shown. -/
def Report.count (r : Report) (before after : Body) (shown : Bool) : Report where
  methods := r.methods + 1
  instructions := r.instructions + if shown then before.size else 0
  removed := r.removed + (before.size - after.size : Int)

/-- The declaration of the parameter in an argument slot. The receiver has none. -/
def parameterAt (site : Site) (b : Body) (id : InstrId) (slot : Nat) :
    Except PassError (Option Parameter) :=
  let declared (place : Nat) : Except PassError (Option Parameter) :=
    match site.method.params[place]? with
    | some param => .ok (some param)
    | none => .error (.unknownArgument site.label id slot)
  if b.hasReceiver then
    match slot with
    | 0 => .ok none
    | place + 1 => declared place
  else declared slot

/-- Looks up what an instruction names. Nothing is shown of an access to the receiver. -/
def lookUp (site : Site) (b : Body) (id : InstrId) (i : Instruction) :
    Except PassError (Option Visit) := do
  let mismatched {α : Type} : Except PassError α :=
    .error (.operandMismatch site.label id i.opcode)
  let slot : Except PassError Nat :=
    match i.slot? with
    | some slot => .ok slot
    | none => mismatched
  let localAt (slot : Nat) : Except PassError Local :=
    match b.local? slot with
    | some declared => .ok declared
    | none => .error (.unknownLocal site.label id slot)
  let field : Except PassError FieldRef :=
    match i.field? with
    | some field => .ok field
    | none => mismatched
  let method : Except PassError MethodRef :=
    match i.method? with
    | some method => .ok method
    | none => mismatched
  if !i.isMatched then mismatched
  else
    match i.opcode.category with
    | .loadArgument => do
      let slot ← slot
      let param ← parameterAt site b id slot
      pure (param.map (.loadArgument slot))
    | .storeArgument => do
      let slot ← slot
      let param ← parameterAt site b id slot
      pure (param.map (.storeArgument slot))
    | .loadLocal => do
      let slot ← slot
      let declared ← localAt slot
      pure (some (.loadLocal slot declared))
    | .storeLocal => do
      let slot ← slot
      let declared ← localAt slot
      pure (some (.storeLocal slot declared))
    | .loadField => do
      let field ← field
      pure (some (.loadField field))
    | .storeField => do
      let field ← field
      pure (some (.storeField field))
    | .call => do
      let method ← method
      pure (some (.call method))
    | .newObject => do
      let ctor ← method
      pure (some (.newObject ctor))
    | .other => pure (some (.other i))

variable {σ : Type}

/-- Shows one instruction to every rule. -/
def showTo (rules : List (Rule σ)) (site : Site) (id : InstrId) : Edit σ Unit := do
  let b ← Edit.body
  match b.get? id with
  | none => return
  | some i =>
    match lookUp site b id i with
    | .error e => throw e
    | .ok none => return
    | .ok (some visit) => rules.forM fun rule => rule.react site id visit

/-- Shows the instructions of a method to every rule. -/
def visitBody (rules : List (Rule σ)) (site : Site) (ids : List InstrId) : Edit σ Unit :=
  ids.forM (showTo rules site)

/-- A pass under way: the state of the rules, the log and the report so far. -/
structure Progress (σ : Type) where
  state : σ
  log : List LogEvent
  report : Report

/-- Visits items one by one, each with those before it, as they were left, and those behind it.
Where a visit fails, the items behind it are left alone. -/
def walk {α π : Type} (visit : List α → α → List α → π → Except PassError Unit × α × π)
    (done : List α) : (pending : List α) → π → Except PassError Unit × List α × π
  | [], p => (.ok (), done, p)
  | item :: pending, p =>
    let (result, left, p) := visit done item pending p
    match result with
    | .error e => (.error e, done ++ left :: pending, p)
    | .ok () => walk visit (done ++ [left]) pending p

/-- Visits a method that stands between others of its type. `rebuild` is the module with given
methods in the type. -/
def visitMethod (rules : List (Rule σ)) (type : TypeName) (rebuild : List MethodDef → Module)
    (done : List MethodDef) (method : MethodDef) (pending : List MethodDef) (p : Progress σ) :
    Except PassError Unit × MethodDef × Progress σ :=
  match method.body with
  | none => (.ok (), method, p)
  | some body =>
    let bare := { method with body := none }
    let site : Site := ⟨rebuild (done ++ bare :: pending), type, bare⟩
    let (result, w) := (visitBody rules site body.order).run.run ⟨body, p.state, p.log⟩
    let report := p.report.count body w.body result.isOk
    (result, { method with body := some w.body }, ⟨w.state, w.log, report⟩)

def visitType (rules : List (Rule σ)) (rebuild : List TypeDef → Module) (done : List TypeDef)
    (type : TypeDef) (pending : List TypeDef) (p : Progress σ) :
    Except PassError Unit × TypeDef × Progress σ :=
  let withMethods (methods : List MethodDef) : TypeDef := { type with methods := methods }
  let around (methods : List MethodDef) : Module := rebuild (done ++ withMethods methods :: pending)
  let (result, methods, p) := walk (visitMethod rules type.name around) [] type.methods p
  (result, withMethods methods, p)

/-- What a pass leaves, whether it succeeded or not. -/
structure Outcome (σ : Type) where
  result : Except PassError Report
  edited : Module
  state : σ
  log : List LogEvent

/-- The event that ends a pass that succeeded. -/
def summary (rules : List (Rule σ)) (report : Report) : LogEvent where
  level := .info
  message := "rewrite pass: " ++ report.text
  details :=
    [("rules", "[" ++ String.intercalate ", " (rules.map fun r => Text.quoted r.name) ++ "]")]

/-- Runs a pass, and the stack check after it if `checked` says so. -/
def run (rules : List (Rule σ)) (checked : Bool) (m : Module) (state : σ) : Outcome σ :=
  let rebuild (types : List TypeDef) : Module := { m with types := types }
  let (result, types, p) := walk (visitType rules rebuild) [] m.types ⟨state, [], {}⟩
  let edited := rebuild types
  let result : Except PassError Report := do
    result
    if checked then edited.checkStacks.mapError .stack
    pure p.report
  match result with
  | .error e => ⟨.error e, edited, p.state, p.log⟩
  | .ok report => ⟨.ok report, edited, p.state, p.log ++ [summary rules report]⟩

end NativeBridge.Pass
