import NativeBridge.Command.Arguments
import NativeBridge.Command.Link

/-!
The whole program on a command line: settings first, then the task.
-/

namespace NativeBridge.Command

variable {m : Type → Type} [Monad m] {δ : Type}

def settingsFile : String := "ilbridge.toml"

inductive SettingsError where
  | unreadable
  | malformed
deriving DecidableEq, Repr

def settingsIn (found : Lookup) : Except SettingsError Settings :=
  match found.text? with
  | none => .error .unreadable
  | some text =>
    match Settings.parse text with
    | none => .error .malformed
    | some settings => .ok settings

/-- The settings in a file that need not be there. -/
def settingsInAny (found : Lookup) : Except SettingsError Settings :=
  match found with
  | .absent => .ok default
  | .directory => .ok default
  | found => settingsIn found

def loadSettings (fs : FileSystem m δ) (path : Option String) : Action m Settings := do
  match path with
  | some path =>
    match settingsIn (← fs.look path) with
    | .ok settings => return settings
    | .error _ => throw ("Failed to load config " ++ path)
  | none =>
    match settingsInAny (← fs.look (join "." settingsFile)) with
    | .ok settings => return settings
    | .error _ => throw ("Failed to load " ++ settingsFile ++ " from the current directory")

/-- Does a task, and says in a line what was done. -/
def perform (fs : FileSystem m δ) (settings : Settings) : Task → Action m String
  | .prepare module registry output unchecked => do
    let pass := if unchecked then { settings.pass with verify := false } else settings.pass
    let done ← prepare fs module registry output pass
    return "Rewrote " ++ module ++ " (" ++ done.report.text ++ "); " ++ toString done.callbacks ++
      " callbacks, " ++ toString done.workers ++ " worker types"
  | .link exports map output description version => do
    let glue := description.elim settings.glue settings.glue.withDescription
    let glue := version.elim glue glue.withVersion
    let done ← link fs exports map output glue
    return "Wrote " ++ output ++ " (" ++ toString done.exports ++ " exports, " ++
      toString done.staticBases ++ " static bases)"

inductive Ending where
  /-- All is done, and this is what to print. -/
  | success (text : String)
  /-- Something failed, and this is what to say. -/
  | failure (message : String)
  /-- The command line breaks the rules. -/
  | usage
deriving DecidableEq, Repr

def Ending.code : Ending → Nat
  | .success _ => 0
  | .failure _ => 1
  | .usage => 2

def versionText : String := "ilbridge 0.1.0\n"

def helpText : String :=
  "Managed-to-native bridge build tool\n\n" ++
  "Usage: ilbridge [-c CONFIG] rewrite -r REGISTRY -o OUTPUT [--no-verify] MODULE\n" ++
  "       ilbridge [-c CONFIG] glue -e EXPORTS -m MAP -o OUTPUT\n" ++
  "                [--description TEXT] [--app-version TEXT]\n"

def run (fs : FileSystem m δ) (arguments : List String) : m Ending := do
  match parseArguments arguments with
  | .error .usage => return .usage
  | .error .help => return .success helpText
  | .error .version => return .success versionText
  | .ok invocation =>
    let action : Action m String := do
      let settings ← loadSettings fs invocation.settings
      perform fs settings invocation.task
    match ← action.run with
    | .ok line => return .success (line ++ "\n")
    | .error message => return .failure message

end NativeBridge.Command
