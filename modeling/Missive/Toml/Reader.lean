import Missive.Toml.Scalar
import Missive.Toml.Table

/-!
# Reading TOML

`Toml.ofString?` reads a document according to TOML 1.0: lines with a key and a value, headers
that open tables, and comments. Values and the keys of one table may be nested a limited number
of levels deep.
-/

namespace Missive.Toml

/-- How many levels there may be, less one. -/
def levelLimit : Nat := 79

/-- Whether a character may stand in a key without quotes. -/
def isKeyCharacter (character : Char) : Bool :=
  character.isAlphanum || character = '-' || character = '_'

/-- Takes a part of a key. -/
def readKeyPart (input : List Char) : Option (String × List Char) :=
  match input with
  | '"' :: rest => do
    let (text, rest) ← readBasic (rest.length + 1) rest
    return (String.ofList text, rest)
  | '\'' :: rest => do
    let (text, rest) ← readLiteral rest
    return (String.ofList text, rest)
  | _ =>
    let part := input.takeWhile isKeyCharacter
    if part.isEmpty then none else some (String.ofList part, input.drop part.length)

/-- Takes the parts of a key, with the blanks around them. -/
def readKeyParts : (bound : Nat) → List Char → Option (List String × List Char)
  | 0, _ => none
  | bound + 1, input => do
    let (part, rest) ← readKeyPart (skipBlanks input)
    match skipBlanks rest with
    | '.' :: rest =>
      let (parts, rest) ← readKeyParts bound rest
      return (part :: parts, rest)
    | rest => return ([part], rest)

/-- Takes a key, as the path that leads to its last part and that part. -/
def readKey (input : List Char) : Option (List String × String × List Char) := do
  let (parts, rest) ← readKeyParts levelLimit input
  return (parts.dropLast, parts.getLastD "", rest)

/-- Takes a comment, if there is one. -/
def skipComment : List Char → List Char
  | '#' :: rest => rest.dropWhile isPlain
  | rest => rest

/-- The characters after the blanks, comments and line ends at the front. -/
def skipFiller : (bound : Nat) → List Char → List Char
  | 0, input => input
  | bound + 1, input =>
    match lineEnd? (skipComment (skipBlanks input)) with
    | some rest => skipFiller bound rest
    | none => skipBlanks input

/-- The characters after everything that may stand between the items of an array. -/
def skipBetween (input : List Char) : List Char :=
  skipFiller input.length input

/-- Takes the items of an array and the bracket after them. -/
def readItems (readItem : List Char → Option (Toml × List Char)) :
    (bound : Nat) → List Char → Option (List Toml × List Char)
  | 0, _ => none
  | bound + 1, input =>
    match skipBetween input with
    | ']' :: rest => some ([], rest)
    | input => do
      let (item, rest) ← readItem input
      match skipBetween rest with
      | ',' :: rest =>
        let (items, rest) ← readItems readItem bound rest
        return (item :: items, rest)
      | ']' :: rest => return ([item], rest)
      | _ => none

/-- Takes the pairs of a table on one line, of which there is at least one, and its brace. -/
def readPairs (readItem : List Char → Option (Toml × List Char)) :
    (bound : Nat) → Entries → List Char → Option (Entries × List Char)
  | 0, _, _ => none
  | bound + 1, entries, input => do
    let (path, key, rest) ← readKey input
    let (value, rest) ← readItem (skipBlanks (← word? "=" rest))
    let entries ← entries.add .header false path key value
    match skipBlanks rest with
    | ',' :: rest => readPairs readItem bound entries rest
    | '}' :: rest => return (entries, rest)
    | _ => none

/-- Takes a value, in which values are nested at most `levels` deep. -/
def readValue : (levels : Nat) → List Char → Option (Toml × List Char)
  | 0, input =>
    match input with
    | '[' :: _ | '{' :: _ => none
    | _ => readScalar input
  | levels + 1, input =>
    match input with
    | '[' :: rest => do
      let (items, rest) ← readItems (readValue levels) (rest.length + 1) rest
      return (.array items, rest)
    | '{' :: rest =>
      match skipBlanks rest with
      | '}' :: rest => some (.table [], rest)
      | rest => do
        let (entries, rest) ← readPairs (readValue levels) (rest.length + 1) [] rest
        return (.table (Entries.finish entries), rest)
    | _ => readScalar input

/-- The document read so far, and the path of the table that is open. -/
structure Document where
  root : Entries
  current : List String

namespace Document

/-- Adds a pair to the open table. -/
def addPair (document : Document) (path : List String) (key : String) (value : Toml) :
    Option Document := do
  let add (origin : Origin) (entries : Entries) : Option (Origin × Entries) := do
    return (origin, ← entries.add origin false path key value)
  let (_, root) ← Entries.change add document.current .header document.root
  return { document with root }

/-- Opens a table, or the next element of an array of tables. -/
def openTable (document : Document) (isElement : Bool) (path : List String) (key : String) :
    Option Document := do
  let update := if isElement then Entries.openElement key else Entries.openTable key
  let (_, root) ← Entries.change update path .header document.root
  return ⟨root, path ++ [key]⟩

end Document

/-- Takes a header, and opens its table. -/
def readHeader (document : Document) (input : List Char) :
    Option (Document × List Char) := do
  let isElement := (word? "[[" input).isSome
  let (opening, closing) := if isElement then ("[[", "]]") else ("[", "]")
  let (path, key, rest) ← readKey (← word? opening input)
  let rest ← word? closing rest
  return (← document.openTable isElement path key, rest)

/-- Takes a key and its value, and adds them to the open table. -/
def readPair (document : Document) (input : List Char) : Option (Document × List Char) := do
  let (path, key, rest) ← readKey input
  let (value, rest) ← readValue levelLimit (skipBlanks (← word? "=" rest))
  return (← document.addPair path key value, rest)

/-- Takes a header or a pair, whichever stands on the line, if there is one. -/
def readExpression (document : Document) (input : List Char) :
    Option (Document × List Char) :=
  match input with
  | [] | '#' :: _ | '\n' :: _ | '\r' :: _ => some (document, input)
  | '[' :: _ => readHeader document input
  | _ => readPair document input

/-- Takes all lines of a document. -/
def readDocument : (bound : Nat) → Document → List Char → Option Document
  | 0, _, _ => none
  | bound + 1, document, input => do
    let (document, rest) ← readExpression document (skipBlanks input)
    match skipComment (skipBlanks rest) with
    | [] => return document
    | rest => readDocument bound document (← lineEnd? rest)

/-- The entries of a document. A byte order mark in front of it is passed over. -/
def ofString? (text : String) : Option (List (String × Toml)) := do
  let input := text.toList
  let input := if input.head? = some '\ufeff' then input.drop 1 else input
  let document ← readDocument (input.length + 1) ⟨[], []⟩ input
  return Entries.finish document.root

end Missive.Toml
