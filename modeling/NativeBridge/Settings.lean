import NativeBridge.Glue.Settings
import NativeBridge.Pass.WorkerTypes
import NativeBridge.Toml.Decoder
import NativeBridge.Toml.Document

/-!
The settings of a project, in TOML. Everything may be left out.
-/

namespace NativeBridge

/-- Settings of the pass over a module. -/
structure PassSettings where
  /-- The method that looks workers up. -/
  workerFactory : WorkerFactory := default
  /-- Whether stacks are checked after the pass. -/
  verify : Bool := true
deriving DecidableEq, Repr

structure Settings where
  pass : PassSettings := {}
  glue : Glue.Settings := default
deriving DecidableEq, Repr

instance : Inhabited Settings := ⟨{}⟩

def TypeName.ofToml? (value : Toml) : Option TypeName :=
  (value.string?).bind fun text => (TypeName.parse text).toOption

def WorkerFactory.table : Toml.Record WorkerFactory where
  blank := default
  fields :=
    [.required "declaring_type" TypeName.ofToml? fun v f => { f with declaringType := v },
      .required "method" Toml.string? fun v f => { f with method := v }]

def PassSettings.table : Toml.Record PassSettings where
  blank := {}
  fields :=
    [.optional "worker_factory" WorkerFactory.table.read fun v s => { s with workerFactory := v },
      .optional "verify" Toml.bool? fun v s => { s with verify := v }]

def Glue.Settings.table : Toml.Record Glue.Settings where
  blank := default
  fields :=
    [.optional "accessor" Toml.string? fun v s => { s with accessor := v },
      .optional "initializer" Toml.string? fun v s => { s with initializer := v },
      .optional "runtime_main" Toml.string? fun v s => { s with runtimeMain := v },
      .optional "description_setter" Toml.string? fun v s => { s with descriptionSetter := v },
      .optional "version_setter" Toml.string? fun v s => { s with versionSetter := v },
      .optional "description" Toml.string? fun v s => { s with description := v },
      .optional "version" Toml.string? fun v s => { s with version := v }]

namespace Settings

def table : Toml.Record Settings where
  blank := default
  fields :=
    [.optional "rewrite" PassSettings.table.read fun v s => { s with pass := v },
      .optional "glue" Glue.Settings.table.read fun v s => { s with glue := v }]

def parse (text : String) : Option Settings := (Toml.read text).bind table.read

end Settings

end NativeBridge
