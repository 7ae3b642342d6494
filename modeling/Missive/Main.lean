import Missive.Command

/-!
# The executable

Looks at the places that the command line names, runs the program on what is there, and prints
the outcome. All decisions are made by `Command.run`.
-/

namespace Missive.Command

/-- A failure of the file system, as the library tells it. -/
def faultOf : IO.Error → IoFault
  | .noFileOrDirectory .. => .missing
  | error => ⟨.other, toString error⟩

/-- What stands at a path. The entries of a folder are known by their names alone. -/
def look (path : String) : IO (Except IoFault FileTree) := do
  try
    let place ← IO.FS.realPath path
    if ← place.isDir then
      let entries ← place.readDir
      return .ok (.folder (entries.toList.map fun entry => (entry.fileName, .empty)))
    let content ← IO.FS.readBinFile place
    return .ok (.file content.toList)
  catch error => return .error (faultOf error)

/-- The paths of the entries that were found at a path. -/
def pathsBelow (root : String) : Except IoFault FileTree → List String
  | .ok (.folder entries) => entries.map fun (name, _) => FileTree.join root name
  | _ => []

/-- Looks at the places that an invocation names, and at the entries of its directory. -/
def lookAround (invocation : Invocation) : IO Files := do
  let directory ← look invocation.directory
  let paths := invocation.config :: pathsBelow invocation.directory directory
  let found ← paths.mapM fun path => do return (path, ← look path)
  let places := (invocation.directory, directory) :: found
  return ⟨fun path => (places.lookup path).getD (.error .missing)⟩

end Missive.Command

open Missive in
/-- Runs the program on the words of its command line. -/
def main (words : List String) : IO UInt32 := do
  let files ←
    match Command.Invocation.ofWords words with
    | .ok invocation => Command.lookAround invocation
    | .error _ => pure FileTree.empty.files
  let outcome := Command.run files words
  let output ← IO.getStdout
  output.write ⟨outcome.output.toArray⟩
  output.flush
  if outcome.exitCode = 2 then IO.eprint Command.usage
  outcome.report.forM IO.eprint
  return UInt32.ofNat outcome.exitCode
