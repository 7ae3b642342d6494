import Missive.Bytes.Decimal
import Missive.Command.Words

/-!
# Invocations

The commands of the program and how they are given on its command line. Options that concern all
commands stand before the name of the command, and its own options and operands after it.
-/

namespace Missive.Command

/-- What the program is asked to do. -/
inductive Action where
  /-- Prints message numbers, the highest first. -/
  | listMessages (count : Nat) (before : Option UInt64) (inclusive : Bool)
  /-- Prints the record of a message. -/
  | showRecord (number : UInt64)
  /-- Prints a table of the logical files of a message. -/
  | listFiles (number : UInt64)
  /-- Prints the content of a logical file from an offset on. -/
  | printFile (number : UInt64) (path : String) (offset : UInt64) (length : Option UInt64)
  /-- Checks the signatures of a message. -/
  | verify (number : UInt64)
  /-- Prints the active configuration. -/
  | showConfig
  deriving DecidableEq, Repr

/-- An action with the places that it works on. -/
structure Invocation where
  directory : String
  config : String
  action : Action
  deriving DecidableEq, Repr

namespace Invocation

open Grammar

/-- Whether a text is a number. -/
def isNumber (text : String) : Bool :=
  (Text.natural? text).isSome

/-- Whether a text can be a path. -/
def isPath (text : String) : Bool :=
  text ≠ ""

/-- The flag that asks for help. -/
def helpFlag : OptionForm := ⟨"help", some 'h', none⟩

/-- What may stand before the name of a command. -/
def mainGrammar : Grammar where
  options := [
    ⟨"dir", some 'd', some isPath⟩,
    ⟨"config", some 'c', some isPath⟩,
    ⟨"log", none, some fun _ => true⟩,
    ⟨"log-format", none, some fun value => value = "text" || value = "json"⟩,
    helpFlag,
    ⟨"version", some 'V', none⟩]
  operands := []
  hasCommands := true

/-- What may stand after the command that lists messages. -/
def listGrammar : Grammar where
  options := [
    ⟨"count", some 'n', some isNumber⟩,
    ⟨"before", none, some isNumber⟩,
    ⟨"inclusive", none, none⟩,
    helpFlag]
  operands := []
  hasCommands := false

/-- What may stand after a command that takes a message number. -/
def numberGrammar : Grammar := ⟨[helpFlag], [isNumber], false⟩

/-- What may stand after the command that prints a file. -/
def fileGrammar : Grammar where
  options := [
    ⟨"offset", none, some isNumber⟩,
    ⟨"length", none, some isNumber⟩,
    helpFlag]
  operands := [isNumber, fun _ => true]
  hasCommands := false

/-- What may stand after the command on the configuration. -/
def configGrammar : Grammar := ⟨[helpFlag], [], true⟩

/-- What may stand after a command that takes nothing. -/
def plainGrammar : Grammar := ⟨[helpFlag], [], false⟩

/-- The number that an option was given. -/
def number? (found : Found) (name : String) : Option UInt64 :=
  found.value? name >>= Text.natural?

/-- The number that is the first operand. -/
def firstNumber (found : Found) : Except Stop UInt64 :=
  match found.operands.head? >>= Text.natural? with
  | some number => .ok number
  | none => .error .misuse

/-- The action that lists messages. -/
def readList (words : List String) : Except Stop Action := do
  let found ← listGrammar.collect words
  if found.has "inclusive" ∧ found.has "before" = false then throw .misuse
  let count := ((number? found "count").map UInt64.toNat).getD 20
  return .listMessages count (number? found "before") (found.has "inclusive")

/-- An action on a message. -/
def readNumber (action : UInt64 → Action) (words : List String) : Except Stop Action := do
  return action (← firstNumber (← numberGrammar.collect words))

/-- The action that prints a file. -/
def readFile (words : List String) : Except Stop Action := do
  let found ← fileGrammar.collect words
  let number ← firstNumber found
  return .printFile number (found.operands[1]?.getD "") ((number? found "offset").getD 0)
    (number? found "length")

/-- The names of the commands. -/
def commandNames : List String :=
  ["list", "show", "files", "cat", "verify", "config", "help"]

/-- Whether words name a command, or one below another. -/
def isCommandPath : List String → Bool
  | [] => true
  | ["config"] | ["config", "show"] | ["config", "help"] => true
  | [name] => commandNames.contains name
  | _ => false

/-- An action on the configuration. -/
def readConfig (words : List String) : Except Stop Action := do
  match (← configGrammar.collect words).command with
  | some ("show", words) =>
    let _ ← plainGrammar.collect words
    return .showConfig
  | some ("help", words) => throw (if isCommandPath ("config" :: words) then .help else .misuse)
  | _ => throw .misuse

/-- The action of a command. -/
def readAction (name : String) (words : List String) : Except Stop Action :=
  match name with
  | "list" => readList words
  | "show" => readNumber .showRecord words
  | "files" => readNumber .listFiles words
  | "cat" => readFile words
  | "verify" => readNumber .verify words
  | "config" => readConfig words
  | "help" => .error (if isCommandPath words then .help else .misuse)
  | _ => .error .misuse

/-- The invocation that the words of a command line stand for. -/
def ofWords (words : List String) : Except Stop Invocation := do
  let found ← mainGrammar.collect words
  match found.command with
  | none => throw .misuse
  | some (name, words) =>
    let action ← readAction name words
    return ⟨(found.value? "dir").getD ".", (found.value? "config").getD "fidd.toml", action⟩

end Invocation

end Missive.Command
