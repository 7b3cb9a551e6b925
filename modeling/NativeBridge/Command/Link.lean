import NativeBridge.Command.Prepare
import NativeBridge.Glue.Generate

/-!
The command that makes the C unit of a program. The unit is complete before the output is touched.
-/

namespace NativeBridge.Command

variable {m : Type → Type} [Monad m] {δ : Type}

/-- Opens an input. A directory can be opened but not read. -/
def openInput (fs : FileSystem m δ) (path : String) : Action m Glue.Input := do
  match ← fs.look path with
  | .file content => return .ok content
  | .directory => return .error "Is a directory (os error 21)"
  | .absent => throw ("Failed to open " ++ path)
  | .refused => throw ("Failed to open " ++ path)

def link (fs : FileSystem m δ) (exports map output : String) (settings : Glue.Settings) :
    Action m Glue.Summary := do
  let exportList ← openInput fs exports
  let staticMap ← openInput fs map
  let generation := Glue.generate settings (some exportList) (some staticMap) (some {})
  let .ok summary := generation.result
    | throw ("Failed to generate glue from " ++ exports ++ " and " ++ map)
  if ← fs.write output generation.written then return summary
  else throw ("Failed to write " ++ output)

end NativeBridge.Command
