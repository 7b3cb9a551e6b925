import NativeBridge.Command.FileSystem
import NativeBridge.Command.Path
import NativeBridge.Json.Reader
import NativeBridge.Pass.Standard
import NativeBridge.Settings

/-!
The command that prepares a module: it reads a module and a registry, runs the pass, and writes the
module with its side tables. Outputs are written as drafts first and then moved into place, the
module last.
-/

namespace NativeBridge.Command

variable {m : Type → Type} [Monad m] {δ : Type}

/-- An action on files that may fail with a message. -/
abbrev Action (m : Type → Type) := ExceptT String m

def callbacksFile : String := "callbacks.json"

def workersFile : String := "workers.json"

/-- An output that is not in place yet. -/
structure Staged (δ : Type) where
  path : String
  draft : δ

structure Prepared where
  report : Pass.Report
  callbacks : Nat
  workers : Nat

/-- What is written: the module and its side tables. -/
structure Outputs where
  module : Module
  tables : Pass.Tables
  report : Pass.Report

def readText (fs : FileSystem m δ) (path failure : String) : Action m String := do
  match (← fs.look path).text? with
  | some text => return text
  | none => throw failure

/-- Reads the inputs and runs the pass. -/
def compute (fs : FileSystem m δ) (module registry : String) (settings : PassSettings) :
    Action m Outputs := do
  let text ← readText fs module ("Failed to read module " ++ module)
  let .ok program := Module.load (Json.read text) | throw ("Failed to load module " ++ module)
  let text ← readText fs registry ("Failed to read registry " ++ registry)
  let .ok bindings := StaticBindings.load (Json.read text)
    | throw ("Invalid registry " ++ registry)
  let outcome := Pass.run (Pass.standardRules bindings settings.workerFactory) settings.verify
    program default
  let .ok report := outcome.result | throw ("Failed to rewrite " ++ module)
  return ⟨outcome.edited, outcome.state, report⟩

def stage (fs : FileSystem m δ) (path content : String) : m (Except String (Staged δ)) := do
  let directory := directoryOf path
  match ← fs.draft directory content with
  | .ok draft => return .ok ⟨path, draft⟩
  | .error .notCreated =>
    return .error ("Failed to create a temporary file in " ++ directory)
  | .error .notWritten => return .error ("Failed to write " ++ path)

def discardAll (fs : FileSystem m δ) : List (Staged δ) → m Unit
  | [] => return
  | output :: rest => do
    fs.discard output.draft
    discardAll fs rest

def removeAll (fs : FileSystem m δ) : List String → m Unit
  | [] => return
  | path :: rest => do
    fs.remove path
    removeAll fs rest

/-- Writes drafts of outputs, given by path and content, after those in `staged`. If one fails, the
others are given up. -/
def stageAll (fs : FileSystem m δ) (staged : List (Staged δ)) :
    List (String × String) → m (Except String (List (Staged δ)))
  | [] => return .ok staged
  | (path, content) :: rest => do
    match ← stage fs path content with
    | .ok output => stageAll fs (staged ++ [output]) rest
    | .error failure => do
      discardAll fs staged
      return .error failure

/-- Moves outputs into place, in order. If one fails, those already moved, which are at the paths
`written`, are deleted again. -/
def commit (fs : FileSystem m δ) (written : List String) :
    List (Staged δ) → m (Except String Unit)
  | [] => return .ok ()
  | output :: rest => do
    if ← fs.place output.draft output.path then
      commit fs (written ++ [output.path]) rest
    else
      removeAll fs written
      discardAll fs rest
      return .error ("Failed to write " ++ output.path)

/-- The outputs by path and content. The module comes last, so that it only appears next to complete
side tables. -/
def Outputs.files (o : Outputs) (path : String) : List (String × String) :=
  [(sibling path callbacksFile, o.tables.callbacks.toJson.pretty),
    (sibling path workersFile, (TypeName.listToJson o.tables.workers).pretty),
    (path, o.module.store)]

def prepare (fs : FileSystem m δ) (module registry output : String) (settings : PassSettings) :
    Action m Prepared := do
  let outputs ← compute fs module registry settings
  let staged ← ExceptT.mk (stageAll fs [] (outputs.files output))
  ExceptT.mk (commit fs [] staged)
  return ⟨outputs.report, outputs.tables.callbacks.size, outputs.tables.workers.length⟩

end NativeBridge.Command
