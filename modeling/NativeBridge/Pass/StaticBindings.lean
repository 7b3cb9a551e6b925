import NativeBridge.Signature

/-!
Static bindings: which types are resolved before the program runs, and which adapter class stands in
for an interface. An interface with an adapter is resolved, whether it is listed or not.
-/

namespace NativeBridge

open Json (DecodeError Document Record)

/-- The types that are resolved early and the adapter of each interface that has one. -/
structure StaticBindings where
  designated : List TypeName := []
  adapters : List (TypeName × TypeName) := []
deriving DecidableEq, Inhabited, Repr

namespace StaticBindings

/-- Whether values of a type are never made. -/
def isDesignated (b : StaticBindings) (type : TypeName) : Bool := b.designated.contains type

/-- The class whose static methods stand in for those of an interface. -/
def adapter? (b : StaticBindings) (interface : TypeName) : Option TypeName :=
  b.adapters.lookup interface

def adapterCount (b : StaticBindings) : Nat := b.adapters.length

def designate (b : StaticBindings) (type : TypeName) : StaticBindings :=
  if b.isDesignated type then b else { b with designated := b.designated ++ [type] }

/-- Gives an interface its adapter, in place of the one it had. -/
def bind (b : StaticBindings) (interface adapter : TypeName) : StaticBindings :=
  let b := b.designate interface
  { b with
    adapters := b.adapters.filter (fun entry => entry.1 != interface) ++ [(interface, adapter)] }

/-- Bindings as documents hold them: types, and pairs of an interface and an adapter. -/
structure Stored where
  designated : List TypeName := []
  adapters : List (TypeName × TypeName) := []
deriving Inhabited

def record : Record Stored where
  name := "StaticTypeRegistry"
  blank := default
  fields :=
    [.optional "rewrite" (.list TypeName.decoder) fun v b => { b with designated := v },
      .optional "adapters"
        (.pairs (fun text => (TypeName.parse text).mapError (·.message)) TypeName.decoder)
        fun v b => { b with adapters := v }]

/-- The bindings that a stored form describes. Of two adapters of an interface the later one
counts. -/
def ofStored (s : Stored) : StaticBindings :=
  s.adapters.foldl (fun b entry => b.bind entry.1 entry.2)
    (s.designated.foldl designate {})

def load (document : Document) : Except DecodeError StaticBindings :=
  (record.decoder.run document).map ofStored

end StaticBindings

end NativeBridge
