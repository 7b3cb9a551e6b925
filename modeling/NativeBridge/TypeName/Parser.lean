import NativeBridge.Text.Blank
import NativeBridge.TypeName.Basic

/-!
Reading type names. A name is trimmed; what stands before its first `<` is the head, which splits
at its last dot; what stands between that `<` and a closing `>` at the very end is a list of
arguments, separated by the commas outside of inner brackets.
-/

namespace NativeBridge.TypeName

/-- Why a text is not a type name. The offending text is trimmed. -/
inductive ParseError where
  | empty
  | unbalanced (text : String)
  | emptyArgument (text : String)
deriving DecidableEq, Repr

def ParseError.message : ParseError → String
  | .empty => "Empty type name"
  | .unbalanced text => "Unbalanced generic arguments in '" ++ text ++ "'"
  | .emptyArgument text => "Empty generic argument in '" ++ text ++ "'"

/-- Puts a character in front of the first part. -/
def growFirst (c : Char) : List (List Char) → List (List Char)
  | [] => [[c]]
  | part :: parts => (c :: part) :: parts

/-- The parts of an argument list between the commas outside of brackets, when `depth` brackets are
open; `none` if the brackets do not match. -/
def splitArguments : (depth : Nat) → List Char → Option (List (List Char))
  | 0, [] => some [[]]
  | _ + 1, [] => none
  | depth, c :: rest =>
    if c = '<' then (splitArguments (depth + 1) rest).map (growFirst c)
    else if c = '>' then
      match depth with
      | 0 => none
      | outer + 1 => (splitArguments outer rest).map (growFirst c)
    else if c = ',' ∧ depth = 0 then (splitArguments depth rest).map ([] :: ·)
    else (splitArguments depth rest).map (growFirst c)

/-- The namespace and the simple name of a head, divided at the last dot. -/
def splitHead (head : List Char) : List Char × List Char :=
  let reversed := head.reverse
  let name := (reversed.takeWhile (· != '.')).reverse
  let space := ((reversed.dropWhile (· != '.')).drop 1).reverse
  (space, name)

/-- A type made of a head and arguments already read. -/
def ofHead (head : List Char) (args : List TypeName) : Except ParseError TypeName :=
  let (space, name) := splitHead head
  if name.isEmpty then .error .empty else .ok ⟨String.ofList space, String.ofList name, args⟩

/-- Reads a type name whose brackets nest less than `fuel` deep. -/
def parseWithin : (fuel : Nat) → List Char → Except ParseError TypeName
  | 0, _ => .error .empty
  | fuel + 1, text =>
    let text := Text.trim text
    if text.isEmpty then .error .empty
    else
      let head := text.takeWhile (· != '<')
      match text.dropWhile (· != '<') with
      | [] =>
        if head.contains '>' then .error (.unbalanced (String.ofList text)) else ofHead head []
      | _ :: bracketed =>
        if bracketed.getLast? != some '>' then .error (.unbalanced (String.ofList text))
        else
          match splitArguments 0 bracketed.dropLast with
          | none => .error (.unbalanced (String.ofList text))
          | some parts =>
            if parts.any fun part => (Text.trim part).isEmpty then
              .error (.emptyArgument (String.ofList text))
            else do
              let args ← parts.mapM (parseWithin fuel)
              ofHead head args

/-- Reads a type name. Brackets cannot nest deeper than the text is long. -/
def parse (text : String) : Except ParseError TypeName :=
  let chars := text.toList
  parseWithin (chars.length + 1) chars

end NativeBridge.TypeName
