import Missive.Archive
import Missive.Command.Invocation
import Missive.Config.Document
import Missive.Store.Directory

/-!
# The program

`Command.run` is the whole program as a function: from what a reader sees of the file system and
the words of the command line to what is printed and how the program ends. What was printed before
a failure stays printed. A failure is reported with the causes behind it.
-/

namespace Missive.Command

/-- A failure, under what was being done, with the causes behind it. -/
structure Failure where
  summary : String
  causes : List String
  deriving DecidableEq, Repr

namespace Failure

/-- A failure that is nothing but an error. -/
def ofError (error : Error) : Failure :=
  ⟨error.message, error.causes⟩

/-- An error in the course of some activity. -/
def during (activity : String) (error : Error) : Failure :=
  ⟨activity, error.message :: error.causes⟩

/-- A failure without causes. -/
def plain (summary : String) : Failure := ⟨summary, []⟩

/-- Text with each line after the first moved to the right. -/
def indent (width : Nat) (text : String) : String :=
  String.ofList (text.toList.flatMap fun character =>
    if character = '\n' then '\n' :: List.replicate width ' ' else [character])

/-- A cause behind its position among several ones, counted from zero. -/
def numbered (position : Nat) (cause : String) : String :=
  let number := toString position
  String.ofList (List.replicate (5 - number.length) ' ') ++ number ++ ": " ++ indent 7 cause

/-- The report on a failure. Several causes are numbered. -/
def report (failure : Failure) : String :=
  let causes :=
    match failure.causes with
    | [] => ""
    | [cause] => "\n\nCaused by:\n    " ++ indent 4 cause
    | causes =>
      "\n\nCaused by:\n" ++ String.intercalate "\n" (causes.mapIdx numbered)
  "Error: " ++ failure.summary ++ causes ++ "\n"

end Failure

/-- What a run of the program leaves behind. -/
structure Outcome where
  exitCode : Nat
  output : Bytes
  /-- The report on a failure. -/
  report : Option String
  deriving DecidableEq, Repr

/-- What a command has printed, and how it failed if it did. -/
structure Printed where
  output : Bytes
  failure : Option Failure
  deriving DecidableEq, Repr

namespace Printed

/-- A command that printed a text. -/
def text (output : String) : Printed := ⟨Bytes.ofString output, none⟩

/-- A command that failed before it printed anything. -/
def failed (failure : Failure) : Printed := ⟨[], some failure⟩

/-- A command that goes on with what a question gave, unless that failed. -/
def ofAnswer {α : Type} (answer : Except Error α) (next : α → Printed) : Printed :=
  match answer with
  | .ok value => next value
  | .error error => failed (.ofError error)

/-- A command that goes on with what must be there. -/
def ofPresent {α : Type} (what : String) (answer : Except Error (Option α))
    (next : α → Printed) : Printed :=
  ofAnswer answer fun
    | some value => next value
    | none => failed (.plain (what ++ " not found"))

end Printed

/-- Lines, each with its end. -/
def linesOf (lines : List String) : String :=
  String.join (lines.map (· ++ "\n"))

/-- How a message is named. -/
def messageName (number : UInt64) : String :=
  "message " ++ Text.ofNatural number.toNat

/-- Prints message numbers. -/
def listMessages (archive : Archive) (count : Nat) (before : Option UInt64) (inclusive : Bool) :
    Printed :=
  let numbers :=
    match before with
    | some bound => archive.before bound count inclusive
    | none => archive.tail count
  .ofAnswer numbers fun numbers =>
    .text (linesOf (numbers.map fun number => Text.ofNatural number.toNat))

/-- Prints the record of a message. -/
def showRecord (archive : Archive) (number : UInt64) : Printed :=
  .ofPresent (messageName number) (archive.record number) fun record =>
    ⟨(Record.toJson record).layout 0 ++ [10], none⟩

/-- Text filled up with blanks to a width. -/
def column (width : Nat) (text : String) : String :=
  text ++ String.ofList (List.replicate (width - text.length) ' ')

/-- A line of the table of files. -/
def fileLine (size mimeType update path : String) : String :=
  column 10 size ++ "  " ++ column 24 mimeType ++ "  " ++ column 18 update ++ "  " ++ path

/-- Prints a table of the logical files of a message. -/
def listFiles (archive : Archive) (number : UInt64) : Printed :=
  .ofPresent (messageName number) (archive.files number) fun files =>
    if files.isEmpty then .text "(no logical files)\n"
    else
      .text <| linesOf <| fileLine "SIZE" "MIME" "UPDATE" "PATH" ::
        files.map fun file =>
          fileLine (Text.ofNatural file.size.toNat) (file.record.mimeType.getD "-")
            file.record.update.name file.path

/-- How a file of a message is named. -/
def fileName (number : UInt64) (path : String) : String :=
  path ++ " in " ++ messageName number

/-- Prints the content of a file after an offset, which must not lie past its end. -/
def printRest (path : String) (offset : UInt64) (content : Bytes) : Printed :=
  if content.length < offset.toNat then
    .failed <| .plain <| "offset " ++ Text.ofNatural offset.toNat ++ " is past the end of " ++
      path ++ " (" ++ Text.ofNatural content.length ++ " bytes)"
  else ⟨content.drop offset.toNat, none⟩

/-- Prints the content of a logical file, or a part of it. -/
def printFile (archive : Archive) (number : UInt64) (path : String) (offset : UInt64)
    (length : Option UInt64) : Printed :=
  match length with
  | some length =>
    .ofPresent (fileName number path) (archive.chunk number path offset length) fun part =>
      ⟨part, none⟩
  | none => .ofPresent (fileName number path) (archive.content number path) (printRest path offset)

/-- How the outcome of a verification without invalid signatures is summed up. -/
def verdict (report : VerificationReport) : String :=
  if report.isValid then "OK: all signatures valid"
  else
    "OK: no invalid signatures (" ++ Text.ofNatural (report.statuses.count .unsigned) ++
      " unsigned)"

/-- Prints the status of every signature of a message. -/
def verify (archive : Archive) (number : UInt64) : Printed :=
  .ofPresent (messageName number) (archive.verify number) fun report =>
    let lines := [
        messageName report.number,
        "  key       " ++ report.key.text,
        "  metadata  " ++ report.record.text] ++
      report.files.map fun (path, status) => "  file      " ++ status.text ++ "  " ++ path
    if report.hasInvalid then
      ⟨Bytes.ofString (linesOf lines),
        some (.plain (messageName number ++ ": signature verification failed"))⟩
    else .text (linesOf (lines ++ [verdict report]))

/-- Prints the active settings and where they come from. -/
def showConfig (files : Files) (path : String) (config : Config) : Printed :=
  let origin := if files.contains path then path else "defaults"
  .text ("# fidd configuration (" ++ origin ++ ")\n" ++ config.render)

/-- Opens the archive in a package directory. -/
def openArchive (files : Files) (directory : String) (config : Config) :
    Except Failure Archive := do
  (Engines.standard.checkSettings config.crypto).mapError fun fault =>
    .during "validating [crypto] config" (.config fault)
  let opened ← (Directory.openAt files directory).mapError
    (.during ("opening package directory: " ++ directory))
  (Archive.ofSource (opened.source files) .standard config.content).mapError .ofError

/-- Carries out an action on an open archive. -/
def answer (archive : Archive) : Action → Printed
  | .listMessages count before inclusive => listMessages archive count before inclusive
  | .showRecord number => showRecord archive number
  | .listFiles number => listFiles archive number
  | .printFile number path offset length => printFile archive number path offset length
  | .verify number => verify archive number
  | .showConfig => .text ""

/-- Carries out an invocation. -/
def perform (files : Files) (invocation : Invocation) : Printed :=
  match Config.load files invocation.config with
  | .error error => .failed (.during ("loading config: " ++ invocation.config) error)
  | .ok config =>
    if invocation.action = .showConfig then showConfig files invocation.config config
    else
      match openArchive files invocation.directory config with
      | .error failure => .failed failure
      | .ok archive => answer archive invocation.action

/-- What is printed when help is asked for. -/
def usage : String :=
  linesOf [
    "Usage: fidd [--dir DIR] [--config FILE] COMMAND",
    "",
    "Commands:",
    "  list [--count N] [--before N [--inclusive]]",
    "  show NUMBER",
    "  files NUMBER",
    "  cat NUMBER PATH [--offset N] [--length N]",
    "  verify NUMBER",
    "  config show"]

/-- What is printed when the version is asked for. -/
def version : String := "fidd 0.1.0\n"

/-- Runs the program. -/
def run (files : Files) (words : List String) : Outcome :=
  match Invocation.ofWords words with
  | .error .help => ⟨0, Bytes.ofString usage, none⟩
  | .error .version => ⟨0, Bytes.ofString version, none⟩
  | .error .misuse => ⟨2, [], none⟩
  | .ok invocation =>
    let printed := perform files invocation
    match printed.failure with
    | none => ⟨0, printed.output, none⟩
    | some failure => ⟨1, printed.output, some failure.report⟩

end Missive.Command
