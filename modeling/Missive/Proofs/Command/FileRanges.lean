import Missive.Command
import Missive.Proofs.Archive.Acceptance
import Missive.Proofs.Archive.Chunks
import Missive.Proofs.Text

/-!
# Files printed in parts

A logical file is printed as a whole, from an offset on, or in a range. The first two read the
file and leave out what stands before the offset; a range is read from its own place in the body.
For a file that can be read at all the three agree: each prints its part of the content, or
nothing if the part is not there.

A command line is known here by what it asks for (`FileRequest.Asks`), since one request has many
spellings; `FileRequest.words` is a spelling that every request has.
-/

namespace Missive.Command

/-! ### Words for a request -/

/-- An option and its value in one word. -/
def optionWord (name value : String) : String :=
  "--" ++ name ++ "=" ++ value

/-- The words for a number that may be given. -/
def numberWords (name : String) (value : Option UInt64) : List String :=
  (value.map fun value => optionWord name (Text.ofNatural value.toNat)).toList

/-- The words after the name of the command that prints a file. -/
def fileWords (number : UInt64) (path : String) (offset length : Option UInt64) : List String :=
  numberWords "offset" offset ++ numberWords "length" length ++
    ["--", Text.ofNatural number.toNat, path]

theorem Grammar.items_optionWord {grammar : Grammar} {form : OptionForm} {name : String}
    (value : String) (words : List String) (plain : '=' ∉ name.toList)
    (known : (grammar.options.find? fun form => form.long = name) = some form)
    (valued : form.accepts.isNone = false) :
    grammar.items (optionWord name value :: words) =
      .option form value :: grammar.items words := by
  have letters : (optionWord name value).toList =
      '-' :: '-' :: (name.toList ++ '=' :: value.toList) := by
    simp [optionWord]
  have before : ∀ character ∈ name.toList, decide (character ≠ '=') = true := by
    intro character member
    apply decide_eq_true
    rintro rfl
    exact plain member
  have named : String.ofList ((name.toList ++ '=' :: value.toList).takeWhile (· ≠ '=')) =
      name := by
    rw [List.takeWhile_append_of_pos before]
    simp
  have rest : ((name.toList ++ '=' :: value.toList).dropWhile (· ≠ '=')).drop 1 =
      value.toList := by
    rw [List.dropWhile_append_of_pos before]
    simp
  have longer : optionWord name value ≠ "--" := by
    intro same
    have short := congrArg (fun word => word.toList.length) same
    simp [letters] at short
  have read : grammar.readOption? (optionWord name value) =
      some ([.option form value], none) := by
    simp only [readOption?, letters, readName, named, known, valued, rest]
    simp
  rw [items]
  simp only [if_neg longer, read, List.singleton_append]

namespace Invocation

theorem isNumber_ofNatural (number : UInt64) :
    isNumber (Text.ofNatural number.toNat) = true := by
  simp [isNumber, Text.natural?_ofNatural]

theorem exists_collect_fileWords (number : UInt64) (path : String)
    (offset length : Option UInt64) :
    ∃ found, fileGrammar.collect (fileWords number path offset length) = .ok found ∧
      found.operands = [Text.ofNatural number.toNat, path] ∧
      number? found "offset" = offset ∧ number? found "length" = length := by
  have operands : fileGrammar.items ["--", Text.ofNatural number.toNat, path] =
      [.operand (Text.ofNatural number.toNat), .operand path] := rfl
  have offsetItem := fun value words =>
    @Grammar.items_optionWord fileGrammar _ "offset" value words (by decide) rfl rfl
  have lengthItem := fun value words =>
    @Grammar.items_optionWord fileGrammar _ "length" value words (by decide) rfl rfl
  cases offset <;> cases length <;>
    simp only [fileWords, numberWords, Option.map_none, Option.map_some, Option.toList_none,
      Option.toList_some, List.nil_append, List.cons_append, Grammar.collect, offsetItem,
      lengthItem, operands] <;>
    simp [Grammar.add, fileGrammar, isNumber_ofNatural, Grammar.Found.has, Grammar.Found.value?,
      number?, Text.natural?_ofNatural, List.lookup_cons, List.lookup_nil, bind, Except.bind,
      pure, Except.pure]

theorem readFile_fileWords (number : UInt64) (path : String) (offset length : Option UInt64) :
    readFile (fileWords number path offset length) =
      .ok (.printFile number path (offset.getD 0) length) := by
  rcases exists_collect_fileWords number path offset length with
    ⟨found, collected, operands, first, second⟩
  simp [readFile, collected, firstNumber, operands, first, second, Text.natural?_ofNatural, bind,
    Except.bind, pure, Except.pure]

end Invocation

/-! ### Requests -/

/-- A logical file of a message in a package directory, as a command line names it. -/
structure FileRequest where
  directory : String
  config : String
  number : UInt64
  path : String

namespace FileRequest

variable {request : FileRequest} {files : Files} {text : Bytes}

/-- The words ask for the file from an offset on; a length may say how much of it. -/
def Asks (request : FileRequest) (offset : UInt64) (length : Option UInt64)
    (words : List String) : Prop :=
  Invocation.ofWords words = .ok ⟨request.directory, request.config,
    .printFile request.number request.path offset length⟩

/-- A spelling of the request, whatever characters stand in its names. -/
def words (request : FileRequest) (offset length : Option UInt64) : List String :=
  optionWord "dir" request.directory :: optionWord "config" request.config :: "cat" ::
    fileWords request.number request.path offset length

theorem asks_words (located : request.directory ≠ "") (configured : request.config ≠ "")
    (offset length : Option UInt64) :
    request.Asks (offset.getD 0) length (request.words offset length) := by
  have command : Invocation.mainGrammar.items
        ("cat" :: fileWords request.number request.path offset length) =
      [.command "cat" (fileWords request.number request.path offset length)] := rfl
  have directoryItem := fun words =>
    @Grammar.items_optionWord Invocation.mainGrammar _ "dir" request.directory words
      (by decide) rfl rfl
  have configItem := fun words =>
    @Grammar.items_optionWord Invocation.mainGrammar _ "config" request.config words
      (by decide) rfl rfl
  have read := Invocation.readFile_fileWords request.number request.path offset length
  simp only [Asks, Invocation.ofWords, words, Grammar.collect, directoryItem, configItem, command]
  simp [Grammar.add, Invocation.mainGrammar, Invocation.isPath, located, configured,
    Grammar.Found.has, Grammar.Found.value?, Invocation.readAction, read, List.lookup_cons,
    List.lookup_nil, bind, Except.bind, pure, Except.pure]

/-- The file can be read as a whole. -/
def Yields (request : FileRequest) (files : Files) (text : Bytes) : Prop :=
  ∃ settings archive, Config.load files request.config = .ok settings ∧
    openArchive files request.directory settings = .ok archive ∧
    archive.content request.number request.path = .ok (some text)

/-- Where the body of the message is kept. -/
def bodyPath (request : FileRequest) : String :=
  Directory.bodyPath ⟨request.directory⟩ request.number

/-- The system can count the bytes of the body. -/
def Countable (request : FileRequest) (files : Files) : Prop :=
  ∀ content, files.find request.bodyPath = .ok (.file content) →
    content.length < Directory.positionLimit

end FileRequest

theorem openArchive_eq_ok_iff {files : Files} {directory : String} {settings : Config}
    {archive : Archive} :
    openArchive files directory settings = .ok archive ↔
      Engines.standard.checkSettings settings.crypto = .ok () ∧
      files.isFolder directory = true ∧
      Archive.ofSource (Directory.source ⟨directory⟩ files) .standard settings.content =
        .ok archive := by
  rw [openArchive, bind_unit_eq_ok_iff, mapError_eq_ok_iff]
  apply and_congr_right
  intro _
  simp only [Directory.openAt, bind_eq_ok_iff, mapError_eq_ok_iff]
  cases files.isFolder directory with
  | true => simp
  | false => simp

theorem source_of_openArchive {files : Files} {directory : String} {settings : Config}
    {archive : Archive} (opened : openArchive files directory settings = .ok archive) :
    archive.source = Directory.source ⟨directory⟩ files := by
  rcases openArchive_eq_ok_iff.mp opened with ⟨_, _, opened⟩
  rcases Archive.ofSource_eq_ok_iff.mp opened with ⟨_, _, _, rfl⟩
  rfl

/-! ### What a run prints -/

/-- The run fails and prints nothing. -/
def Outcome.Refuses (outcome : Outcome) : Prop :=
  outcome.output = [] ∧ outcome.exitCode ≠ 0

section

variable {request : FileRequest} {files : Files} {settings : Config} {archive : Archive}
  {offset : UInt64} {length : Option UInt64} {words : List String}

theorem perform_of_asks (loaded : Config.load files request.config = .ok settings)
    (opened : openArchive files request.directory settings = .ok archive) :
    perform files ⟨request.directory, request.config,
        .printFile request.number request.path offset length⟩ =
      printFile archive request.number request.path offset length := by
  simp [perform, loaded, opened, answer]

theorem run_of_printed (asks : request.Asks offset length words)
    (loaded : Config.load files request.config = .ok settings)
    (opened : openArchive files request.directory settings = .ok archive) {output : Bytes}
    (printed : printFile archive request.number request.path offset length = ⟨output, none⟩) :
    run files words = ⟨0, output, none⟩ := by
  simp only [FileRequest.Asks] at asks
  simp [run, asks, perform_of_asks loaded opened, printed]

theorem refuses_of_failed (asks : request.Asks offset length words)
    (loaded : Config.load files request.config = .ok settings)
    (opened : openArchive files request.directory settings = .ok archive) {failure : Failure}
    (printed : printFile archive request.number request.path offset length = .failed failure) :
    (run files words).Refuses := by
  simp only [FileRequest.Asks] at asks
  simp [run, asks, perform_of_asks loaded opened, printed, Printed.failed, Outcome.Refuses]

end

/-! ### Parts of a file -/

section

variable {archive : Archive} {number : UInt64} {path : String} {text : Bytes}

/-- A file that can be read as a whole has a section, which every chunk of it is read from. -/
theorem exists_section_of_content (whole : archive.content number path = .ok (some text)) :
    ∃ described bodyLength, Nonempty ((archive.reader number).Readable described text) ∧
      archive.source.bodyLength number = .ok (some bodyLength) ∧ described.stop ≤ bodyLength ∧
      ∀ offset length, archive.chunk number path offset length =
        ((archive.reader number).readRange described offset length).map some := by
  rcases Archive.exists_of_withFile whole with ⟨resolved, index, file, found, listed, read⟩
  rcases Archive.checkWithin_of_resolve found with ⟨bodyLength, known, fits⟩
  have member : file.content ∈ resolved.key.sections :=
    List.mem_cons_of_mem _ (List.mem_map_of_mem (FileSection.mem_of_find? listed))
  have within := Section.checkWithin_eq_ok_iff.mp (forM_eq_ok_iff.mp fits _ member)
  refine ⟨file.content, bodyLength, BodyReader.readable_of_readAll read, known, within.2, ?_⟩
  intro offset length
  exact Archive.withFile_eq found listed _

theorem printFile_range (steady : archive.source.Steady number)
    (whole : archive.content number path = .ok (some text)) (offset length : UInt64) :
    (offset.toNat + length.toNat ≤ text.length →
      printFile archive number path offset (some length) =
        ⟨text.slice offset.toNat length.toNat, none⟩) ∧
    (text.length < offset.toNat + length.toNat →
      ∃ failure, printFile archive number path offset (some length) = .failed failure) := by
  rcases exists_section_of_content whole with ⟨described, bodyLength, ⟨readable⟩, known, within,
    chunk⟩
  have range := readable.readRange steady known within offset length
  simp only [printFile, chunk, Printed.ofPresent, Printed.ofAnswer]
  constructor
  · intro inside
    simp [range.1 inside, Except.map]
  · intro beyond
    rcases range.2 beyond with ⟨limit, refused⟩
    simp [refused, Except.map]

theorem printFile_rest (whole : archive.content number path = .ok (some text))
    (offset : UInt64) :
    (offset.toNat ≤ text.length →
      printFile archive number path offset none = ⟨text.drop offset.toNat, none⟩) ∧
    (text.length < offset.toNat →
      ∃ failure, printFile archive number path offset none = .failed failure) := by
  simp only [printFile, whole, Printed.ofPresent, Printed.ofAnswer, printRest]
  constructor
  · intro inside
    simp [Nat.not_lt.mpr inside]
  · intro beyond
    simp [beyond]

end

/-- Ranges of which each begins where the one before it ends. -/
inductive Consecutive : (start : Nat) → List (UInt64 × UInt64) → (stop : Nat) → Prop
  | nil (start : Nat) : Consecutive start [] start
  | cons {offset length : UInt64} {ranges : List (UInt64 × UInt64)} {stop : Nat}
    (later : Consecutive (offset.toNat + length.toNat) ranges stop) :
    Consecutive offset.toNat ((offset, length) :: ranges) stop

namespace Consecutive

variable {start stop : Nat} {ranges : List (UInt64 × UInt64)}

theorem range_le (consecutive : Consecutive start ranges stop) :
    start ≤ stop ∧ ∀ range ∈ ranges, range.1.toNat + range.2.toNat ≤ stop := by
  induction consecutive with
  | nil => simp
  | cons later ih =>
      rcases ih with ⟨ordered, ends⟩
      refine ⟨by omega, ?_⟩
      intro range member
      rcases List.mem_cons.mp member with rfl | member
      · exact ordered
      · exact ends range member

/-- The parts of a text in consecutive ranges join to what stands between their ends. -/
theorem flatMap_slice_append (consecutive : Consecutive start ranges stop) (text : Bytes) :
    (ranges.flatMap fun range => text.slice range.1.toNat range.2.toNat) ++ text.drop stop =
      text.drop start := by
  induction consecutive with
  | nil => simp
  | cons later ih =>
      rename_i offset length ranges stop
      rw [List.flatMap_cons, List.append_assoc, ih, Bytes.slice, ← List.drop_drop,
        List.take_append_drop]

end Consecutive

namespace FileRequest

variable {request : FileRequest} {files : Files} {text : Bytes}

/--
The ways to print a file agree. Where it can be read as a whole, a range of it is printed as the
part of the content there, and the rest from an offset on likewise; what reaches past the end is
refused, with nothing printed. So consecutive ranges print the whole content.
-/
theorem run_agrees (yields : request.Yields files text) (countable : request.Countable files) :
    (∀ offset length words, request.Asks offset (some length) words →
      (offset.toNat + length.toNat ≤ text.length →
        run files words = ⟨0, text.slice offset.toNat length.toNat, none⟩) ∧
      (text.length < offset.toNat + length.toNat → (run files words).Refuses)) ∧
    (∀ offset words, request.Asks offset none words →
      (offset.toNat ≤ text.length → run files words = ⟨0, text.drop offset.toNat, none⟩) ∧
      (text.length < offset.toNat → (run files words).Refuses)) ∧
    (∀ words, request.Asks 0 none words → run files words = ⟨0, text, none⟩) ∧
    (∀ ranges, Consecutive 0 ranges text.length → ∀ spelling : UInt64 × UInt64 → List String,
      (∀ range ∈ ranges, request.Asks range.1 (some range.2) (spelling range)) →
        (ranges.flatMap fun range => (run files (spelling range)).output) = text) ∧
    (request.directory ≠ "" → request.config ≠ "" → ∀ offset length,
      request.Asks (offset.getD 0) length (request.words offset length)) := by
  rcases yields with ⟨settings, archive, loaded, opened, whole⟩
  have steady : archive.source.Steady request.number := by
    rw [source_of_openArchive opened]
    exact Directory.steady_source _ files request.number countable
  have ranged : ∀ offset length words, request.Asks offset (some length) words →
      (offset.toNat + length.toNat ≤ text.length →
        run files words = ⟨0, text.slice offset.toNat length.toNat, none⟩) ∧
      (text.length < offset.toNat + length.toNat → (run files words).Refuses) := by
    intro offset length words asks
    have printed := printFile_range steady whole offset length
    constructor
    · intro inside
      exact run_of_printed asks loaded opened (printed.1 inside)
    · intro beyond
      rcases printed.2 beyond with ⟨failure, failed⟩
      exact refuses_of_failed asks loaded opened failed
  refine ⟨ranged, ?_, ?_, ?_, asks_words⟩
  · intro offset words asks
    have printed := printFile_rest whole offset
    constructor
    · intro inside
      exact run_of_printed asks loaded opened (printed.1 inside)
    · intro beyond
      rcases printed.2 beyond with ⟨failure, failed⟩
      exact refuses_of_failed asks loaded opened failed
  · intro words asks
    exact run_of_printed asks loaded opened ((printFile_rest whole 0).1 (Nat.zero_le _))
  · intro ranges consecutive spelling asked
    have joined := consecutive.flatMap_slice_append text
    rw [List.drop_length, List.append_nil, List.drop_zero] at joined
    apply Eq.trans _ joined
    apply List.flatMap_congr
    intro range member
    rw [(ranged _ _ _ (asked range member)).1 (consecutive.range_le.2 range member)]

end FileRequest

/-- The content of a file. -/
def Shelf.text : Bytes := [9]

/-- The content as a chained block, all but one byte of which are padding. -/
def Shelf.stored : Bytes :=
  [224, 29, 228, 112, 155, 125, 192, 120, 118, 140, 47, 62, 229, 204, 151, 178]

/-- The records of a message with this file alone. -/
def Shelf.records : Bytes :=
  Packed.pack [Record.encode (MessageRecord.start 7 "p"), [],
    Record.encode (FileRecord.start .createOrOverride)]

/-- A key for the message. -/
def Shelf.key : PackageKey :=
  ⟨.plain 0 (UInt64.ofNat records.length),
    [⟨"a", (Section.plain (UInt64.ofNat records.length) 16).withCipher "AES-256-CBC"
      (List.replicate 48 255)⟩], none, none⟩

/-- A package directory that holds the message, and no configuration beside it. -/
def Shelf.files : Files :=
  (FileTree.folder [("d", .folder [("7.fidd", .file (records ++ stored)),
    ("7.fiddkey", .file (Record.encode key))])]).files

/-- The file in this directory. -/
def Shelf.request : FileRequest := ⟨"d", "c", 7, "a"⟩

theorem Shelf.yields : request.Yields files text := by
  have loaded : Config.load files request.config = .ok .default := by
    apply eq_ok_of_toOption
    decide +kernel
  have checked : Engines.standard.checkSettings Config.default.crypto = .ok () := by
    apply eq_ok_of_toOption
    decide +kernel
  have folder : files.isFolder request.directory = true := by
    decide +kernel
  have listed : (Directory.source ⟨request.directory⟩ files).numbers = .ok [7] := by
    apply eq_ok_of_toOption
    decide +kernel
  refine ⟨.default, ⟨_, .ofNumbers [7], .standard, {}⟩, loaded,
    openArchive_eq_ok_iff.mpr ⟨checked, folder,
      Archive.ofSource_eq_ok_iff.mpr ⟨by decide, [7], listed, rfl⟩⟩, ?_⟩
  apply eq_ok_of_toOption
  decide +kernel

/-- The length of a file that has been found. -/
def Shelf.length? : Except IoFault FileTree → Option Nat
  | .ok (.file content) => some content.length
  | _ => none

theorem Shelf.countable : request.Countable files := by
  have known : length? (files.find request.bodyPath) = some (records ++ stored).length := by
    decide +kernel
  have bounded : (records ++ stored).length < Directory.positionLimit := by
    decide +kernel
  intro content there
  rw [there, length?, Option.some.injEq] at known
  rw [known]
  exact bounded

/-- Ranges and offsets at the end of the content, in the padding behind it, and far off. -/
theorem FileRequest.run_agrees_padded :
    let request := Shelf.request
    let outcome := fun offset length => run Shelf.files (request.words offset length)
    request.Yields Shelf.files Shelf.text ∧ request.Countable Shelf.files ∧
      outcome (some 0) (some 1) = ⟨0, [9], none⟩ ∧
      (outcome (some 2) (some 0)).Refuses ∧
      (outcome (some 1) (some 18446744073709551615)).Refuses ∧
      outcome (some 1) none = ⟨0, [], none⟩ ∧
      (outcome (some 2) none).Refuses ∧
      outcome none none = ⟨0, [9], none⟩ ∧
      Consecutive 0 [(0, 1), (1, 0)] Shelf.text.length ∧
      ([(0, 1), (1, 0)].flatMap fun range : UInt64 × UInt64 =>
        (outcome (some range.1) (some range.2)).output) = Shelf.text := by
  intro request outcome
  have yields : request.Yields Shelf.files Shelf.text := Shelf.yields
  have countable : request.Countable Shelf.files := Shelf.countable
  rcases run_agrees yields countable with ⟨range, rest, whole, joined, spelled⟩
  have asks := spelled (by decide) (by decide)
  have second : Consecutive (UInt64.toNat 1) [(1, 0)] 1 := .cons (.nil 1)
  have consecutive : Consecutive 0 [(0, 1), (1, 0)] Shelf.text.length :=
    @Consecutive.cons 0 1 _ _ second
  refine ⟨yields, countable, ?_, ?_, ?_, ?_, ?_, ?_, consecutive, ?_⟩
  · exact (range 0 1 _ (asks (some 0) (some 1))).1 (by decide)
  · exact (range 2 0 _ (asks (some 2) (some 0))).2 (by decide)
  · exact (range 1 18446744073709551615 _ (asks (some 1) (some 18446744073709551615))).2
      (by decide)
  · exact (rest 1 _ (asks (some 1) none)).1 (by decide)
  · exact (rest 2 _ (asks (some 2) none)).2 (by decide)
  · exact whole _ (asks none none)
  · exact joined _ consecutive (fun range => request.words (some range.1) (some range.2))
      fun range _ => asks (some range.1) (some range.2)

end Missive.Command
