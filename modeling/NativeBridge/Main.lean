import NativeBridge.Command.Run

/-!
The program on the files of the machine.
-/

namespace NativeBridge

open Command (FileSystem Lookup DraftFault)

def succeeds (action : IO Unit) : IO Bool :=
  try
    action
    return true
  catch _ => return false

/-- Looks at a path. A directory can be opened, so that the error on reading it names no path. -/
def lookOnDisk (path : String) : IO Lookup := do
  try
    return .file (← IO.FS.readBinFile path)
  catch
    | .noFileOrDirectory .. => return .absent
    | .inappropriateType none .. => return .directory
    | .inappropriateType (some _) .. => return .absent
    | _ => return .refused

/-- Writes a draft under a name that is not in use. -/
def draftOnDisk (directory content : String) : IO (Except DraftFault String) := do
  let path := Command.join directory (Command.draftName (← IO.rand 0 (Nat.pow 10 6 - 1)))
  try
    let handle ← IO.FS.Handle.mk path .writeNew
    if ← succeeds (handle.putStr content *> handle.flush) then return .ok path
    else
      let _ ← succeeds (IO.FS.removeFile path)
      return .error .notWritten
  catch _ => return .error .notCreated

/-- The operations on the files of the machine. -/
def disk : FileSystem IO String where
  look := lookOnDisk
  write path content := succeeds (IO.FS.writeFile path content)
  draft := draftOnDisk
  place draft path := do
    if ← succeeds (IO.FS.rename draft path) then return true
    else
      let _ ← succeeds (IO.FS.removeFile draft)
      return false
  discard draft := do
    let _ ← succeeds (IO.FS.removeFile draft)
  remove path := do
    let _ ← succeeds (IO.FS.removeFile path)

end NativeBridge

/-- Runs the program and returns its exit code. -/
def main (arguments : List String) : IO UInt32 := do
  let ending ← NativeBridge.Command.run NativeBridge.disk arguments
  match ending with
  | .success text => IO.print text
  | .failure message => IO.eprintln ("Error: " ++ message)
  | .usage => IO.eprint NativeBridge.Command.helpText
  return UInt32.ofNat ending.code
