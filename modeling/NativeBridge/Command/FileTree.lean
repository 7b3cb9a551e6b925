import NativeBridge.Command.FileSystem
import NativeBridge.Command.Path

/-!
A directory with everything below it, as a value. Relative paths start there. Of what is around it
only the directories above it are known to exist, and on the machine what every machine has.
-/

namespace NativeBridge.Command

/-- Where the way to a place starts: some levels above the directory of the tree, or at the root of
the machine. -/
inductive Anchor where
  | above (levels : Nat)
  | root
deriving DecidableEq, Repr

/-- A place: where the way to it starts, and the names on the way. -/
structure Location where
  anchor : Anchor
  names : List String
deriving DecidableEq, Repr

namespace Location

/-- A place in the tree. -/
def inside (names : List String) : Location := ⟨.above 0, names⟩

/-- The place that `..` leads to. Nothing is above the root. -/
def up (place : Location) : Location :=
  match place.names, place.anchor with
  | [], .above levels => ⟨.above (levels + 1), []⟩
  | [], .root => place
  | names, anchor => ⟨anchor, names.dropLast⟩

/-- The place that a name leads to. -/
def down (place : Location) (name : String) : Location :=
  { place with names := place.names ++ [name] }

end Location

inductive Node where
  | file (content : ByteArray)
  | directory

/-- Files and directories by place. -/
structure FileTree where
  nodes : List (Location × Node)

namespace FileTree

/-- A tree without anything in it. Every machine has a place for temporary files and one that takes
everything and gives nothing back. -/
def bare : FileTree :=
  ⟨[(⟨.root, ["dev"]⟩, .directory), (⟨.root, ["dev", "null"]⟩, .file .empty),
    (⟨.root, ["tmp"]⟩, .directory)]⟩

/-- What is at a place. The places where ways start are always there. -/
def node? (t : FileTree) (place : Location) : Option Node :=
  if place.names.isEmpty then some .directory else t.nodes.lookup place

def isDirectory (t : FileTree) (place : Location) : Bool :=
  match t.node? place with
  | some .directory => true
  | _ => false

def put (t : FileTree) (place : Location) (node : Node) : FileTree :=
  ⟨(place, node) :: t.nodes.filter (·.1 != place)⟩

def erase (t : FileTree) (place : Location) : FileTree :=
  ⟨t.nodes.filter (·.1 != place)⟩

/-- Follows the parts of a path. Every part but the last must lead to a directory, and no name may
be too long. -/
def walk (t : FileTree) (here : Location) : List (List Char) → Option Location
  | [] => some here
  | part :: rest =>
    if t.isDirectory here then
      if isVoid part then t.walk here rest
      else if part = ['.', '.'] then t.walk here.up rest
      else
        let name := String.ofList part
        if name.utf8ByteSize ≤ nameLimit then t.walk (here.down name) rest else none
    else none

/-- Whether a path can only lead to a directory. -/
def namesDirectory (path : String) : Bool :=
  match (segments path.toList).getLast? with
  | some last => isVoid last || last == ['.', '.']
  | none => true

/-- The place that a path leads to, whether something is there or not. -/
def locate (t : FileTree) (path : String) : Option Location :=
  if path.isEmpty || pathLimit < path.utf8ByteSize then none
  else
    let anchor : Anchor := if path.toList.head? = some '/' then .root else .above 0
    t.walk ⟨anchor, []⟩ (segments path.toList)

/-- The place of a file that a path leads to or could lead to. -/
def fileLocation? (t : FileTree) (path : String) : Option Location := do
  if namesDirectory path then none
  let place ← t.locate path
  if t.isDirectory place then none else some place

def look (t : FileTree) (path : String) : Lookup :=
  match t.locate path with
  | none => .absent
  | some place =>
    match t.node? place with
    | none => .absent
    | some .directory => .directory
    | some (.file content) => if namesDirectory path then .absent else .file content

def write? (t : FileTree) (path content : String) : Option FileTree :=
  (t.fileLocation? path).map fun place => t.put place (.file content.toUTF8)

def remove (t : FileTree) (path : String) : FileTree :=
  match t.fileLocation? path with
  | some place => t.erase place
  | none => t

/-- Puts content at a path, and says whether that was possible. -/
def store (path content : String) : StateM FileTree Bool := fun t =>
  match t.write? path content with
  | some t => (true, t)
  | none => (false, t)

/-- The operations on a file tree. Drafts are not part of it, but there must be room for their
names. -/
def operations : FileSystem (StateM FileTree) String where
  look path := return (← get).look path
  write := store
  draft directory content :=
    return if ((← get).fileLocation? (join directory (draftName 0))).isSome then .ok content
      else .error .notCreated
  place content path := store path content
  discard _ := return
  remove path := modify fun t => t.remove path

end FileTree

end NativeBridge.Command
