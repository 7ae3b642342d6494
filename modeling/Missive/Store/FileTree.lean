import Missive.Error

/-!
# File trees

The content of a file system below the working directory: files with their bytes, and folders of
named entries. A path is a text with slashes between names; an empty name and a single dot stand for
the folder itself, two dots for the folder above. Looking something up fails like a file system
does: the path leads nowhere, or through a file.

Only relative paths lead into a tree. Of absolute paths those that come to the root of the file
system lead to a folder, in which nothing is known to be, and all others lead nowhere. What is
proved of a folder with something in it, or of one that is changed, is therefore about a folder with
a relative path.

A change refers to the last name of a path in the folder that the names before it lead to
(`FileTree.locate`). A path that ends in dots leads to a folder that is there, and names no entry.
-/

namespace Missive

/-- A file, or a folder of named entries. -/
inductive FileTree where
  | file (content : Bytes)
  | folder (entries : List (String × FileTree))

namespace FileTree

/-- A folder without entries. -/
def empty : FileTree := folder []

/-- The longest name that an entry can have, in bytes. -/
def nameLimit : Nat := 255

/-- The length from which on a path is refused, in bytes. -/
def pathLimit : Nat := 4096

/-- The names between the slashes of a path. -/
def namesOf (path : String) : List String :=
  (go path.toList).map String.ofList
where
  /-- The names in a row of characters, of which there is always at least one. -/
  go : List Char → List (List Char)
    | [] => [[]]
    | character :: rest =>
      match go rest with
      | [] => [[character]]
      | name :: names =>
        if character = '/' then [] :: name :: names else (character :: name) :: names

/-- Whether a path begins at the root of the file system. -/
def isAbsolute (path : String) : Bool :=
  path.toList.head? = some '/'

/-- A name below a path. -/
def join (root name : String) : String :=
  if isAbsolute name then name
  else if root = "" ∨ root.toList.getLast? = some '/' then root ++ name
  else root ++ "/" ++ name

/-- Refuses a path that no file system admits. -/
def checkPath (path : String) : Except IoFault Unit := do
  if path.toList.contains '\x00' then throw .zeroByteInName
  if path = "" then throw .missing
  if pathLimit ≤ (Bytes.ofString path).length then throw .nameTooLong

/-- The entry of a folder with the given name. -/
def child (name : String) : FileTree → Except IoFault FileTree
  | file _ => .error .notDirectory
  | folder entries =>
    if nameLimit < (Bytes.ofString name).length then .error .nameTooLong
    else
      match entries.lookup name with
      | some entry => .ok entry
      | none => .error .missing

/--
Follows names through folders, and gives the place that they lead to with what stands there.
`above` are the folders passed on the way with their entries' names, the last one first.
-/
def walk : (above : List (String × FileTree)) → FileTree → List String →
    Except IoFault (List String × FileTree)
  | above, here, [] => .ok ((above.map Prod.fst).reverse, here)
  | above, here, name :: names =>
    match here with
    | file _ => .error .notDirectory
    | folder _ =>
      if name = "" ∨ name = "." then walk above here names
      else if name = ".." then
        match above with
        | [] => walk [] here names
        | (_, parent) :: above => walk above parent names
      else
        match here.child name with
        | .ok next => walk ((name, here) :: above) next names
        | .error fault => .error fault

/-- The names of a path that lead to another folder. -/
def steps (path : String) : List String :=
  (namesOf path).filter fun name => name ≠ "" ∧ name ≠ "."

/--
Refuses an absolute path, unless it leads to the root of the file system. That is a folder, and
nothing else is known of what absolute paths lead to.
-/
def checkRoot (path : String) : Except IoFault Unit :=
  if (steps path).all (· = "..") then .ok () else .error .missing

/-- What stands at a path. An absolute one leads nowhere, or to a root without entries. -/
def find (tree : FileTree) (path : String) : Except IoFault FileTree := do
  checkPath path
  if isAbsolute path then
    checkRoot path
    return empty
  return (← walk [] tree (namesOf path)).2

/-- Whether a path leads to a folder. -/
def isFolder (tree : FileTree) (path : String) : Bool :=
  match tree.find path with
  | .ok (folder _) => true
  | _ => false

/-- What a change at a path refers to. -/
inductive Spot where
  /-- A folder that is there, which the path does not name. -/
  | itself
  /-- The entry of the folder at a place; slashes may come after its name. -/
  | entry (place : List String) (name : String) (slashed : Bool) (found : Option FileTree)

/-- What a change at a path refers to. -/
def locate (tree : FileTree) (path : String) : Except IoFault Spot := do
  checkPath path
  if isAbsolute path then
    checkRoot path
    return .itself
  let backwards := (namesOf path).reverse.dropWhile (· = "")
  let (place, parent) ← walk [] tree backwards.tail.reverse
  match parent, backwards.head? with
  | file _, _ => throw .notDirectory
  | folder _, none | folder _, some "." | folder _, some ".." => return .itself
  | folder _, some name =>
    let slashed := path.toList.getLast? = some '/'
    match parent.child name with
    | .ok found => return .entry place name slashed (some found)
    | .error fault =>
      if fault.kind = .notFound then return .entry place name slashed none else throw fault

/-- Entries with one of them replaced, added or taken away. -/
def putEntry (name : String) (entry : Option FileTree) :
    List (String × FileTree) → List (String × FileTree)
  | [] => (entry.map fun entry => (name, entry)).toList
  | (other, kept) :: entries =>
    if other = name then (entry.map fun entry => (name, entry)).toList ++ entries
    else (other, kept) :: putEntry name entry entries

/-- Replaces, adds or takes away an entry of the folder at a place, if there is one. -/
def put (name : String) (entry : Option FileTree) : (place : List String) → FileTree → FileTree
  | _, file content => file content
  | [], folder entries => folder (putEntry name entry entries)
  | step :: place, folder entries =>
    match entries.lookup step with
    | none => folder entries
    | some below => folder (putEntry step (some (put name entry place below)) entries)

/-- Puts a file at a path, in place of one that is there. -/
def write (tree : FileTree) (path : String) (content : Bytes) : Except IoFault FileTree := do
  match ← tree.locate path with
  | .itself | .entry _ _ true _ | .entry _ _ _ (some (folder _)) => throw .isDirectory
  | .entry place name _ _ => return tree.put name (some (file content)) place

/-- Makes an empty folder where there is nothing. -/
def makeFolder (tree : FileTree) (path : String) : Except IoFault FileTree := do
  match ← tree.locate path with
  | .itself | .entry _ _ _ (some _) => throw .nameTaken
  | .entry place name _ none => return tree.put name (some empty) place

/-- Makes an empty folder, unless there is a folder. -/
def ensureFolder (tree : FileTree) (path : String) : Except IoFault FileTree :=
  match tree.makeFolder path with
  | .ok tree => .ok tree
  | .error fault => if fault = .nameTaken ∧ tree.isFolder path then .ok tree else .error fault

/--
Makes the first of some folders, each of which is in the next one. Where that is not there, it is
made before, and it stays also if there is a failure later on.
-/
def makeChain (tree : FileTree) : List String → FileTree × Except IoFault Unit
  | [] => (tree, .ok ())
  | path :: above =>
    match tree.ensureFolder path with
    | .ok tree => (tree, .ok ())
    | .error fault =>
      if fault.kind = .notFound then
        match tree.makeChain above with
        | (tree, .error fault) => (tree, .error fault)
        | (tree, .ok ()) =>
          match tree.ensureFolder path with
          | .ok tree => (tree, .ok ())
          | .error fault => (tree, .error fault)
      else (tree, .error fault)

/-- The paths of the folders that a path leads through, the last one first. -/
def foldersAbove (path : String) : List String :=
  let names := steps path
  let root := if isAbsolute path then "/" else ""
  (List.range' 1 (names.length - 1)).reverse.map fun count =>
    root ++ String.intercalate "/" (names.take count)

/-- Makes a folder at a path, and every one on the way to it that is not there. -/
def makeFolders (tree : FileTree) (path : String) : FileTree × Except IoFault Unit :=
  if steps path = [] ∧ (path = "" ∨ isAbsolute path) then (tree, .ok ())
  else tree.makeChain (path :: foldersAbove path)

/-- Takes away the file at a path. -/
def removeFile (tree : FileTree) (path : String) : Except IoFault FileTree := do
  match ← tree.locate path with
  | .itself | .entry _ _ _ (some (folder _)) => throw .isDirectory
  | .entry _ _ _ none => throw .missing
  | .entry _ _ true (some (file _)) => throw .notDirectory
  | .entry place name false (some (file _)) => return tree.put name none place

/-- Takes away the folder at a path with all that it holds. -/
def removeFolder (tree : FileTree) (path : String) : Except IoFault FileTree := do
  match ← tree.locate path with
  | .itself => throw .invalidArgument
  | .entry _ _ _ none => throw .missing
  | .entry _ _ _ (some (file _)) => throw .notDirectory
  | .entry place name _ (some (folder _)) => return tree.put name none place

/-- Moves a file to another path, in place of a file that is there. -/
def rename (tree : FileTree) (source target : String) : Except IoFault FileTree := do
  let content ←
    match ← tree.find source with
    | file content => pure content
    | folder _ => throw .isDirectory
  (← tree.removeFile source).write target content

end FileTree

/-- What a reader sees of files: what stands at a path, or why nothing does. -/
structure Files where
  find : (path : String) → Except IoFault FileTree

namespace FileTree

/-- A file tree as its readers see it. -/
def files (tree : FileTree) : Files := ⟨tree.find⟩

/-- A file tree as readers see it whose paths begin at the folder at `place`. -/
def filesFrom (tree : FileTree) (place : String) : Files :=
  ⟨fun path => tree.find (if path = "" then path else join place path)⟩

end FileTree

namespace Files

/-- Whether a path leads to a folder. -/
def isFolder (files : Files) (path : String) : Bool :=
  match files.find path with
  | .ok (.folder _) => true
  | _ => false

/-- Whether a path leads anywhere. -/
def contains (files : Files) (path : String) : Bool :=
  (files.find path).isOk

/-- The content of the file at a path. -/
def read (files : Files) (path : String) : Except IoFault Bytes := do
  match ← files.find path with
  | .file content => return content
  | .folder _ => throw .isDirectory

/-- The names of the entries of the folder at a path. -/
def list (files : Files) (path : String) : Except IoFault (List String) := do
  match ← files.find path with
  | .file _ => throw .notDirectory
  | .folder entries => return entries.map Prod.fst

end Files

end Missive
