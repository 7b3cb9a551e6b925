import NativeBridge.Glue.CUnit
import NativeBridge.Glue.StaticMap
import NativeBridge.Json.Reader
import NativeBridge.Pass.Basic

/-!
Making a C unit from an export list and a static map. Both must be complete and right before
anything is written.
-/

namespace NativeBridge.Glue

/-- An input: its bytes, or why they cannot be read. -/
abbrev Input := Except String ByteArray

/-- Where a unit goes: whether writing and flushing are refused, and why. -/
structure Sink where
  refusesWrite : Option String := none
  refusesFlush : Option String := none
deriving DecidableEq, Repr

structure Summary where
  /-- The number of exports that handles lead to. -/
  exports : Nat
  /-- The number of symbols that the initializer calls. -/
  staticBases : Nat
  /-- The number of bytes written. -/
  bytes : Nat
deriving DecidableEq, Repr

/-- What a run comes to: its result, what reached the sink, and its log. -/
structure Generation where
  result : Except GlueError Summary
  written : String
  log : List LogEvent

def readText (input : Input) : Except GlueError String :=
  match input with
  | .error reason => .error (.device reason)
  | .ok bytes =>
    match String.fromUTF8? bytes with
    | some text => .ok text
    | none => .error (.device "stream did not contain valid UTF-8")

def require {α : Type} (what : Attachment) : Option α → Except GlueError α
  | some value => .ok value
  | none => .error (.missing what)

/-- The unit that inputs lead to, what it sums up to, and the sink it is for. The export list is
read to its end before the static map is looked at. -/
def prepare (settings : Settings) (exports staticMap : Option Input) (output : Option Sink) :
    Except GlueError (String × Summary × Sink) := do
  let exports ← require .exportList exports
  let staticMap ← require .staticMap staticMap
  let sink ← require .output output
  let exports ← parseExports (Json.read (← readText exports))
  let symbols := staticBases (← parseStaticMap (← readText staticMap))
  let unit := textOf (unitLines exports symbols settings)
  return (unit, ⟨exports.length, symbols.length, unit.utf8ByteSize⟩, sink)

def Summary.event (s : Summary) : LogEvent :=
  ⟨.info, "generated native glue",
    [("exports", toString s.exports), ("static_bases", toString s.staticBases),
      ("bytes", toString s.bytes)]⟩

def generate (settings : Settings) (exports staticMap : Option Input) (output : Option Sink) :
    Generation :=
  match prepare settings exports staticMap output with
  | .error e => ⟨.error e, "", []⟩
  | .ok (unit, summary, sink) =>
    match sink.refusesWrite, sink.refusesFlush with
    | some reason, _ => ⟨.error (.device reason), "", []⟩
    | none, some reason => ⟨.error (.device reason), unit, []⟩
    | none, none => ⟨.ok summary, unit, [summary.event]⟩

end NativeBridge.Glue
