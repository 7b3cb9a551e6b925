import NativeBridge.Body.Basic

/-!
The stored form of a body. It lists the live instructions only; branches and handlers name them by
their place in that list. The place behind the last instruction stands for the end of the body.
-/

namespace NativeBridge

open Json (Decoder Field Record Variant)

/-- A body as documents hold it. -/
structure StoredBody where
  locals : List Local := []
  instructions : List Instruction
  handlers : List Handler := []
deriving DecidableEq, Inhabited, Repr

/-- A place outside of a stored body. -/
structure OutOfRange where
  target : InstrId
  size : Nat
deriving DecidableEq, Repr

def OutOfRange.message (e : OutOfRange) : String :=
  "Branch target " ++ toString e.target.index ++ " out of range (body has " ++ toString e.size ++
    " instructions)"

namespace Handler

def record : Record Handler where
  name := "ExceptionHandler"
  blank := default
  fields :=
    [.required "kind" (.sum [.unit "catch" .catching, .unit "finally" .finalizing])
        fun v h => { h with kind := v },
      .required "try_start" InstrId.decoder fun v h => { h with tryStart := v },
      .optional "try_end" (.option InstrId.decoder) fun v h => { h with tryEnd := v },
      .required "handler_start" InstrId.decoder fun v h => { h with handlerStart := v },
      .optional "handler_end" (.option InstrId.decoder) fun v h => { h with handlerEnd := v },
      .optional "catch_type" (.option TypeName.decoder) fun v h => { h with catchType := v }]

def endToJson : Option InstrId → Json
  | none => .null
  | some id => id.toJson

def toJson (h : Handler) : Json :=
  .object <|
    [("kind", .string (match h.kind with | .catching => "catch" | .finalizing => "finally")),
      ("try_start", h.tryStart.toJson), ("try_end", endToJson h.tryEnd),
      ("handler_start", h.handlerStart.toJson), ("handler_end", endToJson h.handlerEnd)] ++
    (match h.catchType with
      | some type => [("catch_type", type.toJson)]
      | none => [])

/-- A handler with every boundary moved. -/
def mapIds (move : InstrId → InstrId) (h : Handler) : Handler :=
  { h with
    tryStart := move h.tryStart
    tryEnd := h.tryEnd.map move
    handlerStart := move h.handlerStart
    handlerEnd := h.handlerEnd.map move }

/-- The boundaries that must name an instruction. -/
def starts (h : Handler) : List InstrId := [h.tryStart, h.handlerStart]

/-- The boundaries that may also name the end of the body. -/
def ends (h : Handler) : List InstrId := h.tryEnd.toList ++ h.handlerEnd.toList

end Handler

namespace StoredBody

def record : Record StoredBody where
  name := "BodyRepr"
  blank := default
  fields :=
    [.optional "locals" (.list Local.record.decoder) fun v b => { b with locals := v },
      .required "instructions" (.list Instruction.record.decoder)
        fun v b => { b with instructions := v },
      .optional "handlers" (.list Handler.record.decoder) fun v b => { b with handlers := v }]

def toJson (b : StoredBody) : Json :=
  .object <|
    (if b.locals.isEmpty then [] else [("locals", .array (b.locals.map Local.toJson))]) ++
    [("instructions", .array (b.instructions.map Instruction.toJson))] ++
    (if b.handlers.isEmpty then [] else [("handlers", .array (b.handlers.map Handler.toJson))])

/-- The first place among `places` that is not below `limit`. -/
def firstBeyond (limit : Nat) (places : List InstrId) : Option InstrId :=
  places.find? fun id => limit ≤ id.index

/-- The first place named by a handler that the body does not have. -/
def handlerFault (size : Nat) (h : Handler) : Option InstrId :=
  (firstBeyond size h.starts).or (firstBeyond (size + 1) h.ends)

/-- The first place named by a branch, or else by a handler, that the body does not have. -/
def fault? (b : StoredBody) : Option InstrId :=
  let size := b.instructions.length
  (firstBeyond size (b.instructions.filterMap Instruction.target?)).or
    (b.handlers.findSome? (handlerFault size))

/-- The end of a region; the place behind the last instruction is the end of the body. -/
def liveEnd (size : Nat) (place : Option InstrId) : Option InstrId :=
  place.filter fun id => id.index < size

/-- A handler whose regions may reach to the end of the body. -/
def openEnds (size : Nat) (h : Handler) : Handler :=
  { h with tryEnd := liveEnd size h.tryEnd, handlerEnd := liveEnd size h.handlerEnd }

/-- The body that a stored one describes. Its identities are the places. -/
def toBody (b : StoredBody) : Except OutOfRange Body :=
  match b.fault? with
  | some target => .error ⟨target, b.instructions.length⟩
  | none =>
    .ok { Body.ofInstructions false b.instructions with
      locals := b.locals
      handlers := b.handlers.map (openEnds b.instructions.length) }

end StoredBody

namespace Body

/-- The place that stands for an identity; that of the end of the body if it is not live. -/
def storedPlace (b : Body) (id : InstrId) : InstrId := ⟨(b.position? id).getD b.size⟩

def toStored (b : Body) : StoredBody where
  locals := b.locals
  instructions := b.code.map fun entry => entry.2.mapTarget b.storedPlace
  handlers := b.handlers.map (·.mapIds b.storedPlace)

def decoder : Decoder Body := fun levels source => do
  let stored ← StoredBody.record.decoder levels source
  stored.toBody.mapError fun e => .refused e.message

def toJson (b : Body) : Json := b.toStored.toJson

end Body

end NativeBridge
