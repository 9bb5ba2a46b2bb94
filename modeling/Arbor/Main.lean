import Arbor.CommandLine

/-!
The program: collects what `CommandLine.run` looks at, and writes down what it says.
-/

namespace Arbor

namespace CommandLine

/-- What is at some paths of the file system. -/
def lookUp (paths : List String) : IO Directory :=
  paths.foldlM (fun d (path : String) => do
    match ← (IO.FS.readBinFile path).toBaseIO with
    | .ok bytes => return { d with files := (path, bytes) :: d.files }
    | .error _ =>
      match ← (IO.FS.realPath path).toBaseIO with
      | .ok _ => return { d with folders := path :: d.folders }
      | .error _ => return d) {}

end CommandLine

end Arbor

open Arbor CommandLine in
/-- Runs the program. -/
def main (arguments : List String) : IO UInt32 := do
  let d ← lookUp (paths arguments)
  let stdin ← IO.getStdin
  let input ← if readsInput arguments then stdin.readBinToEnd else pure .empty
  let outcome := run arguments input d
  let stdout ← IO.getStdout
  stdout.putStr outcome.output
  stdout.flush
  let stderr ← IO.getStderr
  stderr.putStr outcome.errors
  return outcome.status.toUInt32
