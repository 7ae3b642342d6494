import Missive.Error

/-!
# Paths of logical files

A logical file is known by a relative path. Both kinds of slash separate the parts of a path,
none of which may be empty or climb upwards. The paths of one message are distinct.
-/

namespace Missive.Path

/-- Whether a character separates two parts. -/
def isSeparator (character : Char) : Bool :=
  character = '/' || character = '\\'

/-- The parts of a path, of which there is always at least one. -/
def parts : List Char → List (List Char)
  | [] => [[]]
  | character :: rest =>
    match parts rest with
    | [] => [[character]]
    | part :: others =>
      if isSeparator character then [] :: part :: others
      else (character :: part) :: others

/-- The first rule that a path breaks. -/
def validate (path : String) : Except RecordFault Unit := do
  if path = "" then throw .emptyPath
  if path.toList.head?.any isSeparator then throw (.absolutePath path)
  if (parts path.toList).any fun part => part = ['.', '.'] || part.isEmpty then
    throw (.invalidPath path)

/-- The first fault among paths that come after those in `seen`. -/
def validateFrom (seen : List String) : List String → Except RecordFault Unit
  | [] => .ok ()
  | path :: paths => do
    validate path
    if path ∈ seen then throw (.duplicatePath path)
    validateFrom (path :: seen) paths

/-- The first fault among the paths of a message: each must be valid, and none may come twice. -/
def validateAll (paths : List String) : Except RecordFault Unit :=
  validateFrom [] paths

end Missive.Path
