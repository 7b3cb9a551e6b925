/-!
TOML values, and the tables of a document while it is read. A table remembers how it came about,
because that decides what may still be added to it.
-/

namespace NativeBridge

/-- A value. Of floating-point numbers and times it only matters that they are there. -/
inductive Toml where
  | string (text : String)
  | integer (value : Int)
  | float
  | bool (value : Bool)
  | time
  | array (items : List Toml)
  | table (entries : List (String × Toml))
deriving Inhabited, Repr

namespace Toml

/-- How a table came about. -/
inductive Origin where
  /-- It has a header of its own, or braces. -/
  | stated
  /-- It is part of the path in the header of another table. -/
  | implied
  /-- It is part of the path in front of a key. -/
  | dotted
deriving DecidableEq, Repr

/-- What a name stands for in a table that is being read. -/
inductive Item where
  | value (value : Toml)
  | table (origin : Origin) (entries : List (String × Item))
  /-- A list of tables, of which only the latest can be added to. -/
  | tables (latest : List (String × Item)) (earlier : List (List (String × Item)))
deriving Repr

/-- The entries of a table that is being read. -/
abbrev Entries := List (String × Item)

mutual

def Item.close : Item → Toml
  | .value value => value
  | .table _ entries => .table (closeEntries entries)
  | .tables latest earlier =>
    .array ((closeTables earlier).reverse ++ [.table (closeEntries latest)])

def closeEntries : List (String × Item) → List (String × Toml)
  | [] => []
  | (name, item) :: entries => (name, item.close) :: closeEntries entries

def closeTables : List (List (String × Item)) → List Toml
  | [] => []
  | entries :: rest => .table (closeEntries entries) :: closeTables rest

end

namespace Entries

def find? (entries : Entries) (name : String) : Option Item := entries.lookup name

def erase (entries : Entries) (name : String) : Entries := entries.filter (·.1 != name)

def put (entries : Entries) (name : String) (item : Item) : Entries :=
  entries.erase name ++ [(name, item)]

/-- Changes the table at the end of a path, and tells something about it. Tables on the path that
are not there are made. A path in front of a key does not lead through a table that was stated, and
no path leads through a value. -/
def modifyAt {α : Type} (dotted : Bool) (change : Origin → Entries → Option (α × Entries)) :
    (path : List String) → Origin → Entries → Option (α × Entries)
  | [], origin, entries => change origin entries
  | name :: path, _, entries =>
    match entries.find? name with
    | none => do
      let origin := if dotted then Origin.dotted else Origin.implied
      let (told, inner) ← modifyAt dotted change path origin []
      return (told, entries.put name (.table origin inner))
    | some (.value _) => none
    | some (.tables latest earlier) => do
      let (told, latest) ← modifyAt dotted change path .stated latest
      return (told, entries.put name (.tables latest earlier))
    | some (.table origin inner) => do
      if dotted && origin = .stated then none
      let (told, inner) ← modifyAt dotted change path origin inner
      return (told, entries.put name (.table origin inner))

/-- Adds a value under a key with a path in front. A table takes keys with a path only if such
paths made it, and then no others. -/
def insert (entries : Entries) (path : List String) (key : String) (value : Toml) :
    Option Entries :=
  (modifyAt true (fun origin entries =>
    if (origin == .dotted) == path.isEmpty || (entries.find? key).isSome then none
    else some ((), entries.put key (.value value))) path .stated entries).map (·.2)

end Entries

/-- A document while it is read: the tables before the present one, and the present one with its
path; whether the present one is part of a list. -/
structure Draft where
  finished : Entries
  current : Entries
  path : List String
  listed : Bool

namespace Draft

def empty : Draft := ⟨[], [], [], false⟩

/-- Adds a value to the present table. -/
def insert (d : Draft) (path : List String) (key : String) (value : Toml) : Option Draft := do
  let current ← d.current.insert path key value
  return { d with current }

/-- The tables up to the present one. -/
def finish (d : Draft) : Option Entries :=
  match d.path.getLast? with
  | none => some d.current
  | some name =>
    (Entries.modifyAt false (fun _ entries =>
      match entries.find? name, d.listed with
      | none, true => some ((), entries.put name (.tables d.current []))
      | some (.tables latest earlier), true =>
        some ((), entries.put name (.tables d.current (latest :: earlier)))
      | none, false => some ((), entries.put name (.table .stated d.current))
      | some (.table origin _), false =>
        if origin = .stated then none else some ((), entries.put name (.table .stated d.current))
      | _, _ => none) d.path.dropLast .stated d.finished).map (·.2)

/-- Starts a table. One that is only implied by others so far is taken over. -/
def startTable (d : Draft) (path : List String) : Option Draft := do
  let finished ← d.finish
  let name ← path.getLast?
  let (current, finished) ← Entries.modifyAt false (fun _ entries =>
    match entries.find? name with
    | none => some ([], entries)
    | some (.table .implied inner) => some (inner, entries.erase name)
    | some _ => none) path.dropLast .stated finished
  return ⟨finished, current, path, false⟩

/-- Starts a table of a list. -/
def startListed (d : Draft) (path : List String) : Option Draft := do
  let finished ← d.finish
  let name ← path.getLast?
  let (_, finished) ← Entries.modifyAt false (fun _ entries =>
    match entries.find? name with
    | none => some ((), entries)
    | some (.tables ..) => some ((), entries)
    | some _ => none) path.dropLast .stated finished
  return ⟨finished, [], path, true⟩

end Draft

end Toml

end NativeBridge
