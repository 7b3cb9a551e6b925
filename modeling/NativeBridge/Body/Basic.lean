import NativeBridge.Instruction

/-!
Method bodies. A body keeps every instruction it ever held in an arena, where its identity is its
place, and the instructions that are live as a list of identities in execution order. Removing an
instruction takes it out of that list only, so identities that branches and handlers hold stay
meaningful.
-/

namespace NativeBridge

/-- What a handler does with control that leaves its protected region. -/
inductive HandlerKind where
  | catching
  | finalizing
deriving DecidableEq, Repr

instance : Inhabited HandlerKind := ⟨.catching⟩

/-- An exception handler. Each region ends before the instruction that its end names, or with the
body. -/
structure Handler where
  kind : HandlerKind
  tryStart : InstrId
  tryEnd : Option InstrId := none
  handlerStart : InstrId
  handlerEnd : Option InstrId := none
  catchType : Option TypeName := none
deriving DecidableEq, Inhabited, Repr

/-- A method body. The flag tells whether argument 0 is the receiver. -/
structure Body where
  arena : List Instruction := []
  order : List InstrId := []
  locals : List Local := []
  handlers : List Handler := []
  hasReceiver : Bool := false
deriving DecidableEq, Inhabited, Repr

namespace Body

/-- The body that holds given instructions, all live, in order. -/
def ofInstructions (hasReceiver : Bool) (instructions : List Instruction) : Body where
  arena := instructions
  order := (List.range instructions.length).map InstrId.mk
  hasReceiver := hasReceiver

/-- The instruction of an identity, live or not. -/
def get? (b : Body) (id : InstrId) : Option Instruction := b.arena[id.index]?

/-- The live instructions with their identities, in order. -/
def code (b : Body) : List (InstrId × Instruction) :=
  b.order.filterMap fun id => (b.get? id).map (id, ·)

def size (b : Body) : Nat := b.order.length

/-- The place of an identity among the live instructions. -/
def position? (b : Body) (id : InstrId) : Option Nat := b.order.findIdx? (· == id)

def isLive (b : Body) (id : InstrId) : Bool := b.order.contains id

/-- The live instruction before a live one. -/
def previous? (b : Body) (id : InstrId) : Option InstrId :=
  match b.position? id with
  | some (place + 1) => b.order[place]?
  | _ => none

/-- The live instruction after a live one. -/
def next? (b : Body) (id : InstrId) : Option InstrId :=
  match b.position? id with
  | some place => b.order[place + 1]?
  | none => none

def local? (b : Body) (slot : Nat) : Option Local := b.locals[slot]?

/-- Whether a live branch or the start of a handler region names an instruction. -/
def isReferenced (b : Body) (id : InstrId) : Bool :=
  b.code.any (fun entry => entry.2.target? == some id) ||
    b.handlers.any fun h => h.tryStart == id || h.handlerStart == id

def line (entry : InstrId × Instruction) : String := entry.1.label ++ " " ++ entry.2.text

/-- The live instructions as listings show them. -/
def listing (b : Body) : List String := b.code.map line

end Body

end NativeBridge
