/-!
# Words of a command line

A command line is a row of words: options with a value, flags, and operands. An option is given
by its long name after two hyphens or its letter after one; its value stands after an equals sign,
right after the letter, or in the next word. Letters of flags may share one hyphen. After two
hyphens alone, every word is an operand.

`Grammar.collect` looks at the words from left to right and stops at the first thing that decides
the outcome: a flag that asks for help or for the version, or a misuse.
-/

namespace Missive.Command

/-- An option or a flag. -/
structure OptionForm where
  long : String
  letter : Option Char
  /-- The values that the option accepts; a flag has none. -/
  accepts : Option (String → Bool)

/-- What may stand on a command line. -/
structure Grammar where
  options : List OptionForm
  /-- The values that the operands accept, one for each. -/
  operands : List (String → Bool)
  /-- Whether the first operand names a command that the words after it belong to. -/
  hasCommands : Bool

/-- What a word says. -/
inductive Item where
  | option (form : OptionForm) (value : String)
  | flag (form : OptionForm)
  | operand (value : String)
  | command (name : String) (words : List String)
  | misuse

namespace Grammar

/-- Whether a word can be the value of an option before it. -/
def isValue (word : String) : Bool :=
  word = "-" || word.toList.head? ≠ some '-'

/-- The value after a letter: what stands there, less an equals sign in front. -/
def attached : List Char → String
  | '=' :: value => String.ofList value
  | value => String.ofList value

/--
What the letters after one hyphen say. The second result is an option whose value is in the next
word.
-/
def readLetters (grammar : Grammar) : List Char → List Item × Option OptionForm
  | [] => ([], none)
  | letter :: letters =>
    match grammar.options.find? fun form => form.letter = some letter with
    | none => ([.misuse], none)
    | some form =>
      if form.accepts.isNone then
        let (items, pending) := grammar.readLetters letters
        (.flag form :: items, pending)
      else if letters.isEmpty then ([], some form)
      else ([.option form (attached letters)], none)

/-- What a name after two hyphens says, as for letters. -/
def readName (grammar : Grammar) (word : List Char) : List Item × Option OptionForm :=
  let name := String.ofList (word.takeWhile (· ≠ '='))
  let value := (word.dropWhile (· ≠ '=')).drop 1
  let hasValue := word.contains '='
  match grammar.options.find? fun form => form.long = name with
  | none => ([.misuse], none)
  | some form =>
    if form.accepts.isNone then (if hasValue then [.misuse] else [.flag form], none)
    else if hasValue then ([.option form (String.ofList value)], none)
    else ([], some form)

/-- What a word that begins with a hyphen says, or nothing if it is none. -/
def readOption? (grammar : Grammar) (word : String) : Option (List Item × Option OptionForm) :=
  match word.toList with
  | '-' :: '-' :: name => some (grammar.readName name)
  | '-' :: letter :: letters => some (grammar.readLetters (letter :: letters))
  | _ => none

/-- What the words say, from left to right. -/
def items (grammar : Grammar) : List String → List Item
  | [] => []
  | word :: words =>
    if word = "--" then
      if grammar.hasCommands then words.map fun _ => .misuse else words.map .operand
    else
      match grammar.readOption? word with
      | some (found, none) => found ++ grammar.items words
      | some (found, some form) =>
        match words with
        | [] => found ++ [.misuse]
        | value :: words =>
          if isValue value then found ++ .option form value :: grammar.items words
          else found ++ [.misuse]
      | none =>
        if grammar.hasCommands then [.command word words]
        else .operand word :: grammar.items words

/-- Why a command line is not carried out. -/
inductive Stop where
  | help
  | version
  | misuse
  deriving DecidableEq, Repr

/-- What was found on a command line. -/
structure Found where
  values : List (String × String)
  flags : List String
  operands : List String
  command : Option (String × List String)

namespace Found

/-- The value of an option. -/
def value? (found : Found) (name : String) : Option String :=
  found.values.lookup name

/-- Whether an option or flag was given. -/
def has (found : Found) (name : String) : Bool :=
  (found.value? name).isSome || found.flags.contains name

end Found

/-- Takes account of one item. No option, flag or operand may be given more than once. -/
def add (grammar : Grammar) (found : Found) : Item → Except Stop Found
  | .misuse => .error .misuse
  | .flag form =>
    if form.long = "help" then .error .help
    else if form.long = "version" then .error .version
    else if found.has form.long then .error .misuse
    else .ok { found with flags := form.long :: found.flags }
  | .option form value =>
    if found.has form.long ∨ form.accepts.all (fun accepts => accepts value) = false then
      .error .misuse
    else .ok { found with values := (form.long, value) :: found.values }
  | .operand value =>
    match grammar.operands[found.operands.length]? with
    | some accepts =>
      if accepts value then .ok { found with operands := found.operands ++ [value] }
      else .error .misuse
    | none => .error .misuse
  | .command name words => .ok { found with command := some (name, words) }

/-- What is found on a command line, all operands of which must be there. -/
def collect (grammar : Grammar) (words : List String) : Except Stop Found := do
  let found ← (grammar.items words).foldlM grammar.add ⟨[], [], [], none⟩
  if found.operands.length < grammar.operands.length then throw .misuse
  return found

end Grammar

end Missive.Command
