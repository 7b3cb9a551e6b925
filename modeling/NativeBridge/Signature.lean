import NativeBridge.Json.Decoder
import NativeBridge.Json.Value
import NativeBridge.TypeName.Parser

/-!
References to methods and fields as instructions carry them, and the declarations of parameters and
locals, with their texts and their documents.
-/

namespace NativeBridge

open Json (Decoder Field Record)

namespace TypeName

/-- Type names in documents are strings. -/
def decoder : Decoder TypeName :=
  .parsed fun text => (TypeName.parse text).mapError ParseError.message

def toJson (t : TypeName) : Json := .string t.text

def listToJson (types : List TypeName) : Json := .array (types.map toJson)

end TypeName

/-- A method as it is named at a call site. The receiver is not among the parameters. -/
structure MethodRef where
  declaringType : TypeName
  name : String
  hasReceiver : Bool := false
  params : List TypeName := []
  returnType : TypeName := .void
  genericArgs : List TypeName := []
deriving DecidableEq, Inhabited, Repr

namespace MethodRef

/-- The number of stack slots a call takes. -/
def inputs (m : MethodRef) : Nat := m.params.length + m.hasReceiver.toNat

/-- The number of stack slots a call leaves. -/
def outputs (m : MethodRef) : Nat := if m.returnType.isVoid then 0 else 1

/-- The declaring type and the name, without the signature. -/
def qualified (m : MethodRef) : String := m.declaringType.text ++ "::" ++ m.name

def text (m : MethodRef) : String :=
  m.returnType.text ++ " " ++ m.qualified ++
    (if m.genericArgs.isEmpty then "" else "<" ++ TypeName.textList m.genericArgs ++ ">") ++
    "(" ++ TypeName.textList m.params ++ ")"

def record : Record MethodRef where
  name := "MethodRef"
  blank := ⟨default, "", false, [], .void, []⟩
  fields :=
    [.required "declaring_type" TypeName.decoder fun v m => { m with declaringType := v },
      .required "name" .string fun v m => { m with name := v },
      .optional "has_this" .bool fun v m => { m with hasReceiver := v },
      .optional "params" (.list TypeName.decoder) fun v m => { m with params := v },
      .optional "return_type" TypeName.decoder fun v m => { m with returnType := v },
      .optional "generic_args" (.list TypeName.decoder) fun v m => { m with genericArgs := v }]

/-- A method as a document. Members that hold their default are left out, the return type
excepted. -/
def toJson (m : MethodRef) : Json :=
  .object <|
    [("declaring_type", m.declaringType.toJson), ("name", .string m.name)] ++
    (if m.hasReceiver then [("has_this", .bool true)] else []) ++
    (if m.params.isEmpty then [] else [("params", TypeName.listToJson m.params)]) ++
    [("return_type", m.returnType.toJson)] ++
    (if m.genericArgs.isEmpty then []
      else [("generic_args", TypeName.listToJson m.genericArgs)])

end MethodRef

/-- A field as it is named at an access site. -/
structure FieldRef where
  declaringType : TypeName
  name : String
  type : TypeName
  isStatic : Bool := false
deriving DecidableEq, Inhabited, Repr

namespace FieldRef

def text (f : FieldRef) : String :=
  f.type.text ++ " " ++ f.declaringType.text ++ "::" ++ f.name

def record : Record FieldRef where
  name := "FieldRef"
  blank := default
  fields :=
    [.required "declaring_type" TypeName.decoder fun v f => { f with declaringType := v },
      .required "name" .string fun v f => { f with name := v },
      .required "type" TypeName.decoder fun v f => { f with type := v },
      .optional "is_static" .bool fun v f => { f with isStatic := v }]

def toJson (f : FieldRef) : Json :=
  .object <|
    [("declaring_type", f.declaringType.toJson), ("name", .string f.name),
      ("type", f.type.toJson)] ++
    (if f.isStatic then [("is_static", .bool true)] else [])

end FieldRef

structure Parameter where
  name : String
  type : TypeName
deriving DecidableEq, Inhabited, Repr

namespace Parameter

def record : Record Parameter where
  name := "Parameter"
  blank := default
  fields :=
    [.required "name" .string fun v p => { p with name := v },
      .required "type" TypeName.decoder fun v p => { p with type := v }]

def toJson (p : Parameter) : Json :=
  .object [("name", .string p.name), ("type", p.type.toJson)]

end Parameter

/-- A local variable slot, with a name if one is known. -/
structure Local where
  name : Option String := none
  type : TypeName
deriving DecidableEq, Inhabited, Repr

namespace Local

def record : Record Local where
  name := "Local"
  blank := default
  fields :=
    [.optional "name" (.option .string) fun v l => { l with name := v },
      .required "type" TypeName.decoder fun v l => { l with type := v }]

def toJson (l : Local) : Json :=
  .object <|
    (match l.name with
      | some name => [("name", .string name)]
      | none => []) ++
    [("type", l.type.toJson)]

end Local

end NativeBridge
