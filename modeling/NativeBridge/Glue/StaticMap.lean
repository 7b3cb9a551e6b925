import NativeBridge.Glue.Error
import NativeBridge.Xml.Attribute

/-!
The map of static storage: an XML document whose nodes are the symbols that were generated. Of the
nodes only the name matters.
-/

namespace NativeBridge.Glue

open Xml (Event Tag)

/-- The name of a node, when it is the one at a position. -/
def nodeName (index : Nat) (tag : Tag) : Except GlueError String :=
  match tag.search "Name" with
  | .found value =>
    match Xml.unescape value with
    | some name => .ok (String.ofList name)
    | none => .error .xml
  | .absent => .error (.malformedMap (.unnamedNode index))
  | .malformed => .error .xml

/-- The names of the nodes behind the root, counted from a position. -/
def nodeNames (index : Nat) : List Event → Except GlueError (List String)
  | [] => .ok []
  | event :: events =>
    let element (tag : Tag) : Except GlueError (List String) :=
      if tag.name = "Node".toList then do
        let name ← nodeName index tag
        let rest ← nodeNames (index + 1) events
        return name :: rest
      else nodeNames index events
    match event with
    | .opening tag => element tag
    | .single tag => element tag
    | .closing _ => nodeNames index events
    | .broken => .error .xml

/-- The names of all nodes of a document. The first element must be the root; what follows it counts
whether it is inside of the root or not. -/
def namesOf : List Event → Except GlueError (List String)
  | [] => .error (.malformedMap .noRoot)
  | event :: events =>
    let root (tag : Tag) : Except GlueError (List String) :=
      if tag.name = "ObjectNodes".toList then nodeNames 0 events
      else .error (.malformedMap (.wrongRoot (String.ofList tag.name)))
    match event with
    | .opening tag => root tag
    | .single tag => root tag
    | .closing _ => namesOf events
    | .broken => .error .xml

/-- The names of all nodes of a static map, in the order of the document. -/
def parseStaticMap (text : String) : Except GlueError (List String) :=
  namesOf (Xml.events text)

end NativeBridge.Glue
