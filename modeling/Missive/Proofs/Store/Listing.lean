import Missive.Proofs.Archive.Candidates
import Missive.Proofs.Store.Directory
import Missive.Proofs.Text.Spelling

/-!
# What a directory lists

A directory may hold files of any names. A message is listed if the name of some file spells its
number, but its body is looked for under the plain spelling alone. So a directory lists every
message that it can serve, and others too: those whose number is spelled with a plus sign or with
zeros in front and never plainly (`Directory.numbers_of_spellings`). A directory with any files in
it is found by a relative path, since no other leads into a file tree.
-/

namespace Missive

namespace Directory

open FileTree (checkPath)

variable {directory : Directory} {tree : FileTree} {entries : List (String × FileTree)}
  {number : UInt64}

theorem stem?_eq_some_iff {ending name stem : String} :
    stem? ending name = some stem ↔ name = stem ++ ending := by
  constructor
  · intro known
    rw [stem?] at known
    split at known
    · rename_i whole
      cases known
      apply String.toList_inj.mp
      rw [String.toList_append, String.toList_ofList, whole]
    · cases known
  · rintro rfl
    exact stem?_append ending stem

theorem bodyNumber?_eq_some_iff {name : String} :
    bodyNumber? name = some number ↔
      ∃ text, Text.Spells text number ∧ name = text ++ bodyEnding := by
  rw [bodyNumber?, Option.bind_eq_bind, Option.bind_eq_some_iff]
  constructor
  · rintro ⟨text, stem, read⟩
    exact ⟨text, Text.natural?_eq_some_iff.mp read, stem?_eq_some_iff.mp stem⟩
  · rintro ⟨text, spells, shape⟩
    exact ⟨text, stem?_eq_some_iff.mpr shape, Text.natural?_eq_some_iff.mpr spells⟩

theorem spells_plain (number : UInt64) : Text.Spells (Text.ofNatural number.toNat) number :=
  Text.natural?_eq_some_iff.mp (Text.natural?_ofNatural number)

theorem source_numbers (found : tree.find directory.root = .ok (.folder entries)) :
    (directory.source tree.files).numbers =
      .ok ((entries.map Prod.fst).filterMap bodyNumber?) := by
  have there : tree.files.find directory.root = .ok (.folder entries) := found
  simp only [source, names, Files.list, there, bind, Except.bind, pure, Except.pure, mapError_ok]

theorem source_bodyLength (found : tree.find directory.root = .ok (.folder entries))
    (admitted : checkPath (directory.bodyPath number) = .ok ()) :
    (directory.source tree.files).bodyLength number =
      .ok ((entries.lookup (bodyName number)).map fun entry =>
        match entry with
        | .file content => content.length
        | .folder _ => folderLength) := by
  have there := FileTree.find_join_of_find found (plain_bodyName number) admitted
  cases listed : entries.lookup (bodyName number) with
  | none =>
      have there : tree.files.find (directory.bodyPath number) = .error .missing := by
        rw [listed] at there
        exact there
      simp only [source, there]
      rfl
  | some entry =>
      have there : tree.files.find (directory.bodyPath number) = .ok entry := by
        rw [listed] at there
        exact there
      cases entry with
      | file content => simp only [source, there, Option.map_some]
      | folder inner => simp only [source, there, Option.map_some]

/-- A message that is listed, and whose body is not there, is answered by an error. -/
theorem fails_of_missing {source : Source} {archive : Archive}
    (listed : archive.history.contains number = true) (same : archive.source = source)
    (missing : source.bodyLength number = .ok none) :
    archive.Fails number (.format (.noBody number)) := by
  apply Archive.fails_of_resolve
  simp only [Archive.resolve, listed, same, missing, Bool.true_eq_false, if_false, bind,
    Except.bind]
  rfl

/--
A directory with any files in it lists a message if the name of some file spells its number, and
finds the body if some name does so plainly. For numbers that are spelled in no other way the two
are the same. A message that is listed by other spellings alone is answered by the error that
it has no body, and any other listed message by its keys. By `found` the path of the directory is
relative, unless the directory is the root of the file system and `entries` is empty.
-/
theorem numbers_of_spellings (found : tree.find directory.root = .ok (.folder entries))
    (admitted : checkPath (directory.bodyPath number) = .ok ()) :
    ∃ numbers, (directory.source tree.files).numbers = .ok numbers ∧
      (number ∈ numbers ↔
        ∃ text, Text.Spells text number ∧ text ++ bodyEnding ∈ entries.map Prod.fst) ∧
      ((∃ length, (directory.source tree.files).bodyLength number = .ok (some length)) ↔
        bodyName number ∈ entries.map Prod.fst) ∧
      ((∀ text, Text.Spells text number → text ++ bodyEnding ∈ entries.map Prod.fst →
          text ++ bodyEnding = bodyName number) →
        (number ∈ numbers ↔
          ∃ length, (directory.source tree.files).bodyLength number = .ok (some length))) ∧
      ∀ engines settings archive,
        Archive.ofSource (directory.source tree.files) engines settings = .ok archive →
        number ∈ numbers →
          (bodyName number ∉ entries.map Prod.fst →
            archive.Fails number (.format (.noBody number))) ∧
          (bodyName number ∈ entries.map Prod.fst → ∃ length, archive.resolve number = do
            let candidates ← archive.source.candidates number
            return some (← archive.firstAccepted number length (.format (.noKey number))
              candidates)) := by
  have length := source_bodyLength found admitted
  have spelled : number ∈ (entries.map Prod.fst).filterMap bodyNumber? ↔
      ∃ text, Text.Spells text number ∧ text ++ bodyEnding ∈ entries.map Prod.fst := by
    rw [List.mem_filterMap]
    constructor
    · rintro ⟨name, listed, read⟩
      rcases bodyNumber?_eq_some_iff.mp read with ⟨text, spells, rfl⟩
      exact ⟨text, spells, listed⟩
    · rintro ⟨text, spells, listed⟩
      exact ⟨_, listed, bodyNumber?_eq_some_iff.mpr ⟨text, spells, rfl⟩⟩
  have plain : (∃ length, (directory.source tree.files).bodyLength number = .ok (some length)) ↔
      bodyName number ∈ entries.map Prod.fst := by
    rw [length, ← FileTree.lookup_isSome_iff]
    cases entries.lookup (bodyName number) <;> simp
  refine ⟨_, source_numbers found, spelled, plain, ?_, ?_⟩
  · intro only
    rw [spelled, plain]
    constructor
    · rintro ⟨text, spells, listed⟩
      exact only text spells listed ▸ listed
    · intro listed
      exact ⟨_, spells_plain number, listed⟩
  · intro engines settings archive opened member
    rcases Archive.ofSource_eq_ok_iff.mp opened with ⟨_, numbers, known, rfl⟩
    rw [source_numbers found] at known
    cases known
    have listed := History.contains_ofNumbers.mpr member
    constructor
    · intro missing
      apply fails_of_missing listed rfl
      rw [← FileTree.lookup_isSome_iff, Bool.not_eq_true, Option.isSome_eq_false_iff,
        Option.isNone_iff_eq_none] at missing
      rw [length, missing]
      rfl
    · intro there
      rcases plain.mpr there with ⟨size, stored⟩
      refine ⟨size, ?_⟩
      simp only [Archive.resolve, listed, stored, Bool.true_eq_false, if_false, bind, Except.bind]

/-- A body file whose number is spelled with a plus sign: the message is listed and has no body. -/
theorem numbers_of_spellings_signed :
    let tree : FileTree := .folder [("inbox", .folder [("+8.fidd", .file [0])])]
    tree.find "inbox" = .ok (.folder [("+8.fidd", .file [0])]) ∧
      checkPath (bodyPath ⟨"inbox"⟩ 8) = .ok () ∧
      ∃ numbers archive, (source ⟨"inbox"⟩ tree.files).numbers = .ok numbers ∧ 8 ∈ numbers ∧
        (source ⟨"inbox"⟩ tree.files).bodyLength 8 = .ok none ∧
        Archive.ofSource (source ⟨"inbox"⟩ tree.files) .standard {} = .ok archive ∧
        archive.Fails 8 (.format (.noBody 8)) := by
  intro tree
  have found : tree.find "inbox" = .ok (.folder [("+8.fidd", .file [0])]) := rfl
  have eight : Text.ofNatural (UInt64.toNat 8) = "8" := by
    have digit : Decimal.digits (UInt64.toNat 8) = [56] := by
      rw [Decimal.digits]
      rfl
    rw [Text.ofNatural, digit]
    rfl
  have admitted : checkPath (bodyPath ⟨"inbox"⟩ 8) = .ok () := by
    rw [bodyPath, eight]
    decide
  have spells : Text.Spells "+8" 8 := ⟨"+", 0, .inr rfl, by rw [eight]; rfl⟩
  have missing : bodyName 8 ∉ [("+8.fidd", FileTree.file [0])].map Prod.fst := by
    rw [bodyName, eight]
    decide
  rcases @numbers_of_spellings ⟨"inbox"⟩ tree _ 8 found admitted
      with ⟨numbers, known, spelled, plain, _, answers⟩
  have member : 8 ∈ numbers := spelled.mpr ⟨"+8", spells, by decide⟩
  have opened : Archive.ofSource (source ⟨"inbox"⟩ tree.files) .standard {} =
      .ok ⟨source ⟨"inbox"⟩ tree.files, .ofNumbers numbers, .standard, {}⟩ :=
    Archive.ofSource_eq_ok_iff.mpr ⟨by decide, numbers, known, rfl⟩
  refine ⟨found, admitted, numbers, _, known, member, ?_, opened, ?_⟩
  · rw [source_bodyLength found admitted, bodyName, eight]
    rfl
  · exact (answers _ _ _ opened member).1 missing

end Directory

end Missive
