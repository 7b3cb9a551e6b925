import NativeBridge.Body.Stored

/-!
Modules: named lists of type definitions, which hold fields and methods. Loading a module refuses a
type that is defined twice and links every body to its method, so that argument 0 is the receiver
exactly in instance methods.
-/

namespace NativeBridge

open Json (DecodeError Decoder Document Record)

inductive TypeKind where
  | classKind
  | structKind
  | interfaceKind
  | delegateKind
deriving DecidableEq, Repr

instance : Inhabited TypeKind := ⟨.classKind⟩

namespace TypeKind

def keyword : TypeKind → String
  | .classKind => "class"
  | .structKind => "struct"
  | .interfaceKind => "interface"
  | .delegateKind => "delegate"

def decoder : Decoder TypeKind :=
  .sum ([.classKind, .structKind, .interfaceKind, .delegateKind].map fun kind =>
    .unit kind.keyword kind)

end TypeKind

structure FieldDef where
  name : String
  type : TypeName
  isStatic : Bool := false
deriving DecidableEq, Inhabited, Repr

/-- A method definition. A method of an interface or of native code has no body. -/
structure MethodDef where
  name : String
  isStatic : Bool := false
  params : List Parameter := []
  returnType : TypeName := .void
  body : Option Body := none
deriving DecidableEq, Inhabited, Repr

/-- A type definition. A delegate that native code may call has the signature of that call. -/
structure TypeDef where
  name : TypeName
  kind : TypeKind := .classKind
  nativeSignature : Option String := none
  fields : List FieldDef := []
  methods : List MethodDef := []
deriving DecidableEq, Inhabited, Repr

structure Module where
  name : String
  types : List TypeDef := []
deriving DecidableEq, Inhabited, Repr

namespace FieldDef

def record : Record FieldDef where
  name := "FieldDef"
  blank := default
  fields :=
    [.required "name" .string fun v f => { f with name := v },
      .required "type" TypeName.decoder fun v f => { f with type := v },
      .optional "is_static" .bool fun v f => { f with isStatic := v }]

def toJson (f : FieldDef) : Json :=
  .object <|
    [("name", .string f.name), ("type", f.type.toJson)] ++
    (if f.isStatic then [("is_static", .bool true)] else [])

end FieldDef

namespace MethodDef

def returnsValue (m : MethodDef) : Bool := !m.returnType.isVoid

def paramTypes (m : MethodDef) : List TypeName := m.params.map (·.type)

/-- A reference to a method of a given type. -/
def ref (m : MethodDef) (declaringType : TypeName) : MethodRef where
  declaringType := declaringType
  name := m.name
  hasReceiver := !m.isStatic
  params := m.paramTypes
  returnType := m.returnType

/-- Whether a reference names this method: name and parameter types agree. -/
def matchesRef (m : MethodDef) (ref : MethodRef) : Bool :=
  m.name == ref.name && m.paramTypes == ref.params

/-- The method with its body told whether it has a receiver. -/
def link (m : MethodDef) : MethodDef :=
  { m with body := m.body.map fun b => { b with hasReceiver := !m.isStatic } }

def record : Record MethodDef where
  name := "MethodDef"
  blank := ⟨"", false, [], .void, none⟩
  fields :=
    [.required "name" .string fun v m => { m with name := v },
      .optional "is_static" .bool fun v m => { m with isStatic := v },
      .optional "params" (.list Parameter.record.decoder) fun v m => { m with params := v },
      .optional "return_type" TypeName.decoder fun v m => { m with returnType := v },
      .optional "body" (.option Body.decoder) fun v m => { m with body := v }]

def toJson (m : MethodDef) : Json :=
  .object <|
    [("name", .string m.name)] ++
    (if m.isStatic then [("is_static", .bool true)] else []) ++
    (if m.params.isEmpty then [] else [("params", .array (m.params.map Parameter.toJson))]) ++
    [("return_type", m.returnType.toJson)] ++
    (match m.body with
      | some body => [("body", body.toJson)]
      | none => [])

end MethodDef

namespace TypeDef

/-- The first method of a name. -/
def method? (t : TypeDef) (name : String) : Option MethodDef :=
  t.methods.find? (·.name == name)

/-- The first static method of a name. -/
def staticMethod? (t : TypeDef) (name : String) : Option MethodDef :=
  t.methods.find? fun m => m.isStatic && m.name == name

/-- What messages call a method of this type. -/
def methodLabel (t : TypeDef) (m : MethodDef) : String := t.name.text ++ "::" ++ m.name

def record : Record TypeDef where
  name := "TypeDef"
  blank := default
  fields :=
    [.required "name" TypeName.decoder fun v t => { t with name := v },
      .optional "kind" TypeKind.decoder fun v t => { t with kind := v },
      .optional "native_signature" (.option .string) fun v t => { t with nativeSignature := v },
      .optional "fields" (.list FieldDef.record.decoder) fun v t => { t with fields := v },
      .optional "methods" (.list MethodDef.record.decoder) fun v t => { t with methods := v }]

def toJson (t : TypeDef) : Json :=
  .object <|
    [("name", t.name.toJson), ("kind", .string t.kind.keyword)] ++
    (match t.nativeSignature with
      | some signature => [("native_signature", .string signature)]
      | none => []) ++
    (if t.fields.isEmpty then [] else [("fields", .array (t.fields.map FieldDef.toJson))]) ++
    (if t.methods.isEmpty then [] else [("methods", .array (t.methods.map MethodDef.toJson))])

end TypeDef

inductive LoadError where
  | document (cause : DecodeError)
  | duplicateType (type : TypeName)
deriving DecidableEq, Repr

namespace Module

def findType? (m : Module) (type : TypeName) : Option TypeDef :=
  m.types.find? (·.name == type)

/-- The definition that a method reference names. -/
def resolve? (m : Module) (ref : MethodRef) : Option MethodDef := do
  let type ← m.findType? ref.declaringType
  type.methods.find? (·.matchesRef ref)

/-- All methods with the types that define them. -/
def methods (m : Module) : List (TypeDef × MethodDef) :=
  m.types.flatMap fun t => t.methods.map fun method => (t, method)

/-- The first type that is defined before. -/
def firstDuplicate (seen : List TypeName) : List TypeDef → Option TypeName
  | [] => none
  | t :: rest =>
    if seen.contains t.name then some t.name else firstDuplicate (t.name :: seen) rest

/-- Checks that no type is defined twice. -/
def validate (m : Module) : Except LoadError Unit :=
  match firstDuplicate [] m.types with
  | some type => .error (.duplicateType type)
  | none => .ok ()

/-- The module with every body told whether its method has a receiver. -/
def link (m : Module) : Module :=
  { m with types := m.types.map fun t => { t with methods := t.methods.map MethodDef.link } }

def record : Record Module where
  name := "Module"
  blank := default
  fields :=
    [.required "name" .string fun v m => { m with name := v },
      .optional "types" (.list TypeDef.record.decoder) fun v m => { m with types := v }]

def toJson (m : Module) : Json :=
  .object [("name", .string m.name), ("types", .array (m.types.map TypeDef.toJson))]

def store (m : Module) : String := m.toJson.pretty

def load (document : Document) : Except LoadError Module := do
  let m ← (record.decoder.run document).mapError .document
  m.validate
  pure m.link

end Module

/-- The wording of a load failure; a text that is not JSON has none. -/
def LoadError.message? : LoadError → Option String
  | .document cause => cause.message?
  | .duplicateType type => some ("Duplicate type definition: " ++ type.text)

end NativeBridge
