/-!
What can go wrong while a C unit is made.
-/

namespace NativeBridge.Glue

inductive Attachment where
  | exportList
  | staticMap
  | output
deriving DecidableEq, Repr

def Attachment.label : Attachment → String
  | .exportList => "export list"
  | .staticMap => "static map"
  | .output => "output"

inductive ExportFault where
  | notAList
  | field (index : Nat) (name : String)
deriving DecidableEq, Repr

inductive MapFault where
  | wrongRoot (name : String)
  | noRoot
  | unnamedNode (index : Nat)
deriving DecidableEq, Repr

inductive GlueError where
  | missing (what : Attachment)
  | device (reason : String)
  /-- The export list is not JSON. -/
  | json
  | malformedExports (fault : ExportFault)
  /-- A signature has not exactly one place for the symbol. -/
  | placeholder (name signature : String) (count : Nat)
  /-- The static map cannot be read. -/
  | xml
  | malformedMap (fault : MapFault)
deriving DecidableEq, Repr

/-- The record that is at fault, if it is one. -/
def ExportFault.index? : ExportFault → Option Nat
  | .notAList => none
  | .field index _ => some index

def ExportFault.message : ExportFault → String
  | .notAList => ": expected an array of records"
  | .field index name =>
    " (record " ++ toString index ++ "): missing or non-string field '" ++ name ++ "'"

def MapFault.message : MapFault → String
  | .wrongRoot name => "root element is '" ++ name ++ "', expected 'ObjectNodes'"
  | .noRoot => "no root element"
  | .unnamedNode index => "Node #" ++ toString index ++ " has no Name attribute"

/-- The wording of a failure; documents that cannot be read at all have none of their own. -/
def GlueError.message? : GlueError → Option String
  | .missing what => some ("Missing " ++ what.label)
  | .device reason => some ("I/O error: " ++ reason)
  | .json => none
  | .malformedExports fault => some ("Malformed export list" ++ fault.message)
  | .placeholder name signature count =>
    some ("Signature of export '" ++ name ++ "' must contain '\x7b0\x7d' exactly once, found " ++
      toString count ++ ": " ++ signature)
  | .xml => none
  | .malformedMap fault => some ("Malformed static map: " ++ fault.message)

end NativeBridge.Glue
