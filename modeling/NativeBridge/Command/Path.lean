/-!
Paths as they are written, with `/` between their parts.
-/

namespace NativeBridge.Command

/-- The greatest length of a name, in bytes. -/
def nameLimit : Nat := 255

/-- The greatest length of a path, in bytes. -/
def pathLimit : Nat := 4095

/-- The parts of a text between slashes. -/
def segments : List Char → List (List Char)
  | [] => [[]]
  | c :: rest =>
    if c = '/' then [] :: segments rest
    else
      match segments rest with
      | [] => [[c]]
      | first :: others => (c :: first) :: others

/-- Whether a part of a path leads nowhere. -/
def isVoid (segment : List Char) : Bool := segment.isEmpty || segment == ['.']

/-- The parts up to the last one that leads somewhere. -/
def trimVoid (parts : List (List Char)) : List (List Char) :=
  (parts.reverse.dropWhile isVoid).reverse

/-- What a path starts with before its parts: the root, or the present directory. -/
def leading : List Char → List Char
  | '/' :: _ => ['/']
  | ['.'] => ['.']
  | '.' :: '/' :: _ => ['.']
  | _ => []

/-- The path of the directory that a path is in, as far as the text of the path says. The root and
the empty path have none. -/
def parent? (path : String) : Option String :=
  let start := leading path.toList
  let parts := trimVoid (segments (path.toList.drop start.length))
  match parts with
  | [] => if start = ['.'] then some "" else none
  | _ :: _ =>
    some (String.ofList (start ++ List.intercalate ['/'] (trimVoid parts.dropLast)))

/-- The path of a name in a directory. -/
def join (directory name : String) : String :=
  if directory.isEmpty then name
  else if directory.toList.getLast? = some '/' then directory ++ name
  else directory ++ "/" ++ name

/-- The path of a file with another name in the same directory. -/
def sibling (path name : String) : String :=
  match parent? path with
  | some directory => join directory name
  | none => name

/-- The name of a draft, with a mark of six digits. -/
def draftName (mark : Nat) : String :=
  ".tmp" ++ String.ofList ((Nat.toDigits 10 (Nat.pow 10 6 + mark % Nat.pow 10 6)).drop 1)

/-- The directory that a path is in, with a name for the present one. -/
def directoryOf (path : String) : String :=
  match parent? path with
  | some directory => if directory.isEmpty then "." else directory
  | none => "."

end NativeBridge.Command
