import NativeBridge.Glue.Error
import NativeBridge.Json.Decoder

/-!
The list of exports: the functions of a program that native code may call. The record at position
`i` is the target of the callback handle `i`.
-/

namespace NativeBridge.Glue

/-- The number of places for the symbol in a signature. -/
def placeholders : List Char → Nat
  | '\x7b' :: '0' :: '\x7d' :: rest => placeholders rest + 1
  | _ :: rest => placeholders rest
  | [] => 0

/-- Puts a symbol into the first place for it. -/
def fillPlaceholder (symbol : List Char) : List Char → List Char
  | '\x7b' :: '0' :: '\x7d' :: rest => symbol ++ rest
  | c :: rest => c :: fillPlaceholder symbol rest
  | [] => []

/-- A function that native code may call. -/
structure Export where
  /-- The symbol of the function. -/
  name : String
  /-- Its declaration in C, with a place for the symbol. -/
  signature : String
deriving DecidableEq, Repr

namespace Export

def declaration (e : Export) : String :=
  String.ofList (fillPlaceholder e.name.toList e.signature.toList)

end Export

/-- The string in a member of a record. Of repeated members the last one counts. -/
def textMember? (record : Json.Source) (name : String) : Option String :=
  match record with
  | .object members =>
    match members.reverse.lookup (some name) with
    | some (.string text) => text
    | _ => none
  | _ => none

/-- The string in a member of the record at a position, which must be there. -/
def requireMember (index : Nat) (record : Json.Source) (name : String) :
    Except GlueError String :=
  match textMember? record name with
  | some text => .ok text
  | none => .error (.malformedExports (.field index name))

/-- The export in the record at a position. -/
def Export.ofRecord (index : Nat) (record : Json.Source) : Except GlueError Export := do
  let name ← requireMember index record "name"
  let signature ← requireMember index record "signature"
  let count := placeholders signature.toList
  if count = 1 then return ⟨name, signature⟩
  else throw (.placeholder name signature count)

/-- The exports in records that start at a position, up to the first wrong one. -/
def exportsFrom (index : Nat) : List Json.Source → Except GlueError (List Export)
  | [] => .ok []
  | record :: records => do
    let first ← Export.ofRecord index record
    let rest ← exportsFrom (index + 1) records
    return first :: rest

/-- The exports in a document, which must be a list of records. -/
def parseExports (document : Json.Document) : Except GlueError (List Export) :=
  if document.isValue then
    match document.root with
    | .array records => exportsFrom 0 records
    | _ => .error (.malformedExports .notAList)
  else .error .json

end NativeBridge.Glue
