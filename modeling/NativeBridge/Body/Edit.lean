import NativeBridge.Body.Basic

/-!
Editing bodies. Replacing an instruction keeps its identity. Removing one that is a branch target or
starts a handler region moves those references to the instruction after it, and a region that ended
before it now ends before that one. Every edit that fails leaves the body as it was.
-/

namespace NativeBridge

inductive EditError where
  | unknown (id : InstrId)
  | removed (id : InstrId)
  | dangling (id : InstrId)
deriving DecidableEq, Repr

def EditError.message : EditError → String
  | .unknown id => "Unknown instruction id " ++ id.label
  | .removed id => "Instruction " ++ id.label ++ " is no longer part of the body"
  | .dangling id =>
    "Instruction " ++ id.label ++ " is a branch or handler target and has no successor"

namespace Handler

/-- A handler whose regions start where `move` says. -/
def mapStarts (move : InstrId → InstrId) (h : Handler) : Handler :=
  { h with tryStart := move h.tryStart, handlerStart := move h.handlerStart }

/-- A handler whose regions that ended before `id` end before `successor`. -/
def moveEnds (id : InstrId) (successor : Option InstrId) (h : Handler) : Handler :=
  { h with
    tryEnd := if h.tryEnd = some id then successor else h.tryEnd
    handlerEnd := if h.handlerEnd = some id then successor else h.handlerEnd }

end Handler

namespace Body

/-- Adds an instruction to the arena. -/
def alloc (b : Body) (i : Instruction) : InstrId × Body :=
  (⟨b.arena.length⟩, { b with arena := b.arena ++ [i] })

def push (b : Body) (i : Instruction) : InstrId × Body :=
  let (id, b) := b.alloc i
  (id, { b with order := b.order ++ [id] })

/-- The place of an identity that must be live. -/
def place (b : Body) (id : InstrId) : Except EditError Nat :=
  match b.get? id with
  | none => .error (.unknown id)
  | some _ =>
    match b.position? id with
    | none => .error (.removed id)
    | some place => .ok place

/-- Puts another instruction in the place of a live one; returns the old one. -/
def replace (b : Body) (id : InstrId) (i : Instruction) :
    Except EditError (Instruction × Body) := do
  let _ ← b.place id
  match b.get? id with
  | none => throw (.unknown id)
  | some old => pure (old, { b with arena := b.arena.set id.index i })

def insertBefore (b : Body) (anchor : InstrId) (i : Instruction) :
    Except EditError (InstrId × Body) := do
  let place ← b.place anchor
  let (id, b) := b.alloc i
  pure (id, { b with order := b.order.insertIdx place id })

def insertAfter (b : Body) (anchor : InstrId) (i : Instruction) :
    Except EditError (InstrId × Body) := do
  let place ← b.place anchor
  let (id, b) := b.alloc i
  pure (id, { b with order := b.order.insertIdx (place + 1) id })

/-- Moves every branch to `source` and every region that starts there to `dest`. -/
def retarget (b : Body) (source dest : InstrId) : Body :=
  let move (id : InstrId) : InstrId := if id = source then dest else id
  { b with
    arena := b.arena.map (·.mapTarget move)
    handlers := b.handlers.map (·.mapStarts move) }

/-- Moves the references to an instruction that is about to go to its successor. -/
def release (b : Body) (id : InstrId) (successor : Option InstrId) : Except EditError Body :=
  if b.isReferenced id then
    match successor with
    | none => .error (.dangling id)
    | some successor => .ok (b.retarget id successor)
  else .ok b

/-- Takes a live instruction out of the body; returns it as the arena now holds it. -/
def remove (b : Body) (id : InstrId) : Except EditError (Instruction × Body) := do
  let place ← b.place id
  let successor := b.order[place + 1]?
  let b ← b.release id successor
  match b.get? id with
  | none => throw (.unknown id)
  | some i =>
    pure (i, { b with
      handlers := b.handlers.map (·.moveEnds id successor)
      order := b.order.eraseIdx place })

/-- Adds locals; returns the slot number of the last one, which has 16 bits. -/
def addLocals (b : Body) (added : List Local) : Nat × Body :=
  let locals := b.locals ++ added
  ((locals.length - 1) % Nat.pow 2 16, { b with locals := locals })

def addLocal (b : Body) (l : Local) : Nat × Body := b.addLocals [l]

def addHandler (b : Body) (h : Handler) : Body := { b with handlers := b.handlers ++ [h] }

end Body

end NativeBridge
