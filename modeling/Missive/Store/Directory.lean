import Missive.Bytes.Decimal
import Missive.Record.Key
import Missive.Store.FileTree
import Missive.Store.Memory

/-!
# Packages in a directory

A directory holds one body file and one or more key files for each message:

    <n>.fidd              the body of message n
    <n>.fiddkey           its key
    <n>.<label>.fiddkey   further candidate keys

A file is written under a temporary name beside it and then renamed, so that no reader sees a
part of it. The path of a directory is relative, if anything is to be in it (`FileTree.find`).
Numbers in file names may be spelled with a plus sign and zeros in front, and so a
listing may name a message whose body is looked for under the plain spelling.
-/

namespace Missive

/-- A package directory, known by its path. -/
structure Directory where
  root : String
  deriving DecidableEq, Repr

namespace Directory

/-- The ending of the names of body files. -/
def bodyEnding : String := ".fidd"

/-- The ending of the names of key files. -/
def keyEnding : String := ".fiddkey"

/-- The ending of temporary names. -/
def temporaryEnding : String := ".tmp"

/-- The length that is reported for a folder in the place of a file. -/
def folderLength : Nat := 4096

/-- The first position at which no file can be read. -/
def positionLimit : Nat := UInt64.size / 2

/-- A directory that is there. -/
def openAt (files : Files) (root : String) : Except Error Directory :=
  if files.isFolder root then .ok ⟨root⟩ else .error (.io (.noPackageDirectory root))

/-- A directory that is there or can be made. A failure may leave folders on the way to it. -/
def create (tree : FileTree) (root : String) : FileTree × Except Error Directory :=
  match tree.makeFolders root with
  | (tree, .ok ()) => (tree, .ok ⟨root⟩)
  | (tree, .error fault) => (tree, .error (.other ("creating package dir: " ++ root) fault.text))

/-- The path of the body of a message. -/
def bodyPath (directory : Directory) (number : UInt64) : String :=
  FileTree.join directory.root (Text.ofNatural number.toNat ++ bodyEnding)

/-- The path of a key of a message. -/
def keyPath (directory : Directory) (number : UInt64) (label : Option String) : String :=
  let middle :=
    match label with
    | none => ""
    | some label => "." ++ label
  FileTree.join directory.root (Text.ofNatural number.toNat ++ middle ++ keyEnding)

/-- Writes a file under a temporary name and renames it. A failure may leave the former behind. -/
def writeFile (tree : FileTree) (path : String) (content : Bytes) :
    FileTree × Except Error Unit :=
  let temporary := path ++ temporaryEnding
  match tree.write temporary content with
  | .error fault => (tree, .error (.other ("writing temp: " ++ temporary) fault.text))
  | .ok written =>
    match written.rename temporary path with
    | .error fault => (written, .error (.other ("renaming to: " ++ path) fault.text))
    | .ok renamed => (renamed, .ok ())

/-- Whether a label can stand in the name of a key file. -/
def isLabel (label : String) : Bool :=
  label ≠ "" && label.toList.all fun character =>
    character ≠ '.' && character ≠ '/' && character ≠ '\\'

/-- Writes a candidate key. -/
def writeKey (directory : Directory) (tree : FileTree) (number : UInt64) (label : Option String)
    (key : Bytes) : FileTree × Except Error Unit :=
  match label.filter fun label => !isLabel label with
  | some label => (tree, .error (.invalidRecord (.keyLabel label)))
  | none => writeFile tree (directory.keyPath number label) key

/-- Writes a package: its body, and then its key. -/
def writePackage (directory : Directory) (tree : FileTree) (package : Package) :
    FileTree × Except Error Unit :=
  match writeFile tree (directory.bodyPath package.number) package.body with
  | (tree, .error error) => (tree, .error error)
  | (tree, .ok ()) => directory.writeKey tree package.number none (Record.encode package.key)

/-- What goes before an ending in a name, if the name has it. -/
def stem? (ending name : String) : Option String :=
  let stem := name.toList.take (name.length - ending.length)
  if stem ++ ending.toList = name.toList then some (String.ofList stem) else none

/-- The number that the name of a body file begins with. -/
def bodyNumber? (name : String) : Option UInt64 := do
  Text.natural? (← stem? bodyEnding name)

/-- The number and the label in the name of a key file. -/
def keyNumber? (name : String) : Option (UInt64 × Option String) := do
  let stem := (← stem? keyEnding name).toList
  let number := stem.takeWhile (· ≠ '.')
  let label ←
    match stem.dropWhile (· ≠ '.') with
    | [] => pure none
    | _ :: label => do
      if label.isEmpty ∨ label.contains '.' then none
      pure (some (String.ofList label))
  return (← Text.natural? (String.ofList number), label)

/-- The names in the directory. -/
def names (directory : Directory) (files : Files) : Except Error (List String) :=
  (files.list directory.root).mapError fun fault =>
    .other ("reading package dir: " ++ directory.root) fault.text

/-- Whether one key file is preferred: one without a label, then by label, then by name. -/
def precedes : (first second : Option String × String) → Bool
  | (none, first), (none, second) => first ≤ second
  | (none, _), (some _, _) => true
  | (some _, _), (none, _) => false
  | (some label, first), (some other, second) =>
    label < other || (label = other && first ≤ second)

/-- The names of the key files of a message, the preferred one first. -/
def keyNames (number : UInt64) (names : List String) : List String :=
  let found := names.filterMap fun name =>
    match keyNumber? name with
    | some (other, label) => if other = number then some (label, name) else none
    | none => none
  (found.mergeSort precedes).map Prod.snd

/-- Reads a key file. -/
def readKey (directory : Directory) (files : Files) (name : String) : Except Error Bytes :=
  let path := FileTree.join directory.root name
  (files.read path).mapError fun fault => .other ("reading key: " ++ path) fault.text

/-- The directory as a source. -/
def source (directory : Directory) (files : Files) : Source where
  numbers := do return (← directory.names files).filterMap bodyNumber?
  candidates number := do
    (keyNames number (← directory.names files)).mapM (directory.readKey files)
  bodyLength number :=
    match files.find (directory.bodyPath number) with
    | .ok (.file content) => .ok (some content.length)
    | .ok (.folder _) => .ok (some folderLength)
    | .error fault => if fault.kind = .notFound then .ok none else .error (.io fault)
  openBody number position := do
    let entry ← (files.find (directory.bodyPath number)).mapError Error.io
    if positionLimit ≤ position then throw (.io .invalidArgument)
    match entry with
    | .file content => return .ofBytes (content.drop position)
    | .folder _ => return ⟨[], .failing (.input .isDirectory)⟩

end Directory

end Missive
