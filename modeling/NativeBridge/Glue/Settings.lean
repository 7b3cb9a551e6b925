import NativeBridge.Json.Decoder

/-!
Settings of the C unit that links a program: the symbols it defines and calls, and what it tells
the runtime about the program.
-/

namespace NativeBridge.Glue

/-- Symbols and metadata of a C unit. -/
structure Settings where
  /-- The function from a callback handle to its function pointer. -/
  accessor : String
  /-- The function that creates all static storage. -/
  initializer : String
  /-- The entry point of the runtime. -/
  runtimeMain : String
  /-- The function that tells the runtime the description. -/
  descriptionSetter : String
  /-- The function that tells the runtime the version. -/
  versionSetter : String
  /-- The description of the program; an empty one is not told. -/
  description : String
  /-- The version of the program; an empty one is not told. -/
  version : String
deriving DecidableEq, Repr

instance : Inhabited Settings where
  default :=
    { accessor := "ilbridge_get_callback"
      initializer := "ilbridge_initialize_statics"
      runtimeMain := "ilbridge_runtime_main"
      descriptionSetter := "ilbridge_runtime_set_description"
      versionSetter := "ilbridge_runtime_set_version"
      description := ""
      version := "" }

namespace Settings

def withDescription (s : Settings) (description : String) : Settings :=
  { s with description }

def withVersion (s : Settings) (version : String) : Settings :=
  { s with version }

/-- Settings in documents. Every field may be left out. -/
def record : Json.Record Settings where
  name := "GlueConfig"
  blank := default
  fields :=
    [.optional "accessor" .string fun v s => { s with accessor := v },
      .optional "initializer" .string fun v s => { s with initializer := v },
      .optional "runtime_main" .string fun v s => { s with runtimeMain := v },
      .optional "description_setter" .string fun v s => { s with descriptionSetter := v },
      .optional "version_setter" .string fun v s => { s with versionSetter := v },
      .optional "description" .string fun v s => { s with description := v },
      .optional "version" .string fun v s => { s with version := v }]

end Settings

end NativeBridge.Glue
