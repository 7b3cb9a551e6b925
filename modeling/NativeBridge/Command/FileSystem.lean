/-!
What commands do with files, whatever keeps the files. A draft is content that has been written but
has no path yet.
-/

namespace NativeBridge.Command

/-- What a path leads to. -/
inductive Lookup where
  | absent
  /-- Something that cannot be opened. -/
  | refused
  | directory
  | file (content : ByteArray)

inductive DraftFault where
  | notCreated
  | notWritten
deriving DecidableEq, Repr

structure FileSystem (m : Type → Type) (δ : Type) where
  /-- Looks at a path. -/
  look : (path : String) → m Lookup
  /-- Gives a file new content, and says whether that was possible. -/
  write : (path content : String) → m Bool
  /-- Writes a draft that is kept in a directory. -/
  draft : (directory content : String) → m (Except DraftFault δ)
  /-- Moves a draft to a path, and says whether that was possible. If not, there is no draft any
  more. -/
  place : δ → (path : String) → m Bool
  /-- Gives a draft up. -/
  discard : δ → m Unit
  /-- Deletes a file, if possible. -/
  remove : (path : String) → m Unit

def Lookup.text? : Lookup → Option String
  | .file content => String.fromUTF8? content
  | _ => none

end NativeBridge.Command
