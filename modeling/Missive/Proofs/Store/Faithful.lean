import Mathlib.Data.List.Basic
import Missive.Proofs.Archive.Exchange
import Missive.Proofs.Store.Contents

/-!
# Directories are faithful

Whatever is written into an empty directory, in whatever order and however often, is what a
reader finds there: the last body of every message, and the last key under every label. So an
archive over the directory answers like one over a memory store with the same packages
(`Directory.faithful`). The path of the directory is relative as soon as anything has been written,
since no other leads into a file tree.
-/

namespace Missive

namespace Directory

open FileTree (checkPath)

variable {directory : Directory} {tree : FileTree} {files : Files} {changes : List Change}
  {number : UInt64} {entries : List (String × FileTree)}

/-- What a reader finds in a directory is what was written last. -/
structure Reflects (directory : Directory) (files : Files) (changes : List Change) : Prop where
  numbers : ∃ numbers, (directory.source files).numbers = .ok numbers ∧
    ∀ number, number ∈ numbers ↔ ∃ package, .writePackage package ∈ changes ∧
      package.number = number
  bodyLength : ∀ number body, last changes (.body number) = some body →
    (directory.source files).bodyLength number = .ok (some body.length)
  openBody : ∀ number body position, last changes (.body number) = some body →
    (directory.source files).openBody number position =
      if positionLimit ≤ position then .error (.io .invalidArgument)
      else .ok (.ofBytes (body.drop position))
  absent : ∀ number, last changes (.body number) = none →
    checkPath (directory.bodyPath number) = .ok () →
      (directory.source files).bodyLength number = .ok none
  candidates : ∀ number, ∃ labels : List String,
    labels.Pairwise (fun first second => Bytes.ofString first < Bytes.ofString second) ∧
    (∀ label, label ∈ labels ↔ (last changes (.key number (some label))).isSome = true) ∧
    (directory.source files).candidates number =
      .ok ((last changes (.key number none)).toList ++
        labels.filterMap fun label => last changes (.key number (some label)))

/-- Whether a memory store holds the bodies that were written last, with the same candidates. -/
def Mirrors (store : MemoryStore) (changes : List Change) (source : Source) : Prop :=
  ∀ number stored, store.find? number = some stored ↔
    last changes (.body number) = some stored.body ∧ source.candidates number = .ok stored.keys

theorem exists_of_last_body {body : Bytes} (written : last changes (.body number) = some body) :
    ∃ package, .writePackage package ∈ changes ∧ package.number = number ∧
      package.body = body := by
  rcases List.lookup_eq_some_iff.mp written with ⟨front, back, shape, _⟩
  have member : (Target.body number, body) ∈ changes.flatMap Change.writes := by
    rw [← List.mem_reverse, shape]
    simp
  rcases List.mem_flatMap.mp member with ⟨change, made, member⟩
  cases change with
  | writePackage package =>
      simp only [Change.writes, List.mem_cons, Prod.mk.injEq, Target.body.injEq, reduceCtorEq,
        false_and, List.not_mem_nil, or_false] at member
      exact ⟨package, made, member.1.symm, member.2.symm⟩
  | writeKey other label key =>
      rw [Change.writes] at member
      split at member
      · simp at member
      · cases member

theorem isSome_last_body {package : Package} (made : .writePackage package ∈ changes) :
    (last changes (.body package.number)).isSome = true := by
  refine List.lookup_isSome_iff.mpr ⟨(.body package.number, package.body), ?_, ?_⟩
  · rw [List.mem_reverse]
    exact List.mem_flatMap.mpr ⟨_, made, List.mem_cons_self⟩
  · exact beq_self_eq_true _

theorem isSome_last_body_iff :
    (last changes (.body number)).isSome = true ↔
      ∃ package, .writePackage package ∈ changes ∧ package.number = number := by
  constructor
  · intro written
    rcases Option.isSome_iff_exists.mp written with ⟨body, last⟩
    rcases exists_of_last_body last with ⟨package, made, same, _⟩
    exact ⟨package, made, same⟩
  · rintro ⟨package, made, rfl⟩
    exact isSome_last_body made

theorem reflects_of_holds (holds : directory.Holds tree entries (changes.flatMap Change.writes))
    (shows : files.Reorders tree.files) : directory.Reflects files changes := by
  constructor
  · rcases holds.numbers shows with ⟨numbers, listed, written⟩
    exact ⟨numbers, listed, fun number => (written number).trans isSome_last_body_iff⟩
  · intro number body written
    exact holds.bodyLength shows written
  · intro number body position written
    exact holds.openBody shows written position
  · intro number missing admitted
    exact holds.bodyLength_of_none shows missing admitted
  · intro number
    rcases holds.candidates shows number with ⟨labels, ascending, known, offered⟩
    exact ⟨labels, ascending.imp Bytes.ofString_lt, known, offered⟩

/-! ### Memory stores -/

theorem mem_numbers_iff {store : MemoryStore} :
    number ∈ store.packages.map Prod.fst ↔ (store.find? number).isSome = true :=
  FileTree.lookup_isSome_iff.symm

theorem Mirrors.isSome_find?_iff {store : MemoryStore}
    (mirrors : Mirrors store changes (directory.source files))
    (reflects : directory.Reflects files changes) :
    (store.find? number).isSome = true ↔ (last changes (.body number)).isSome = true := by
  constructor
  · intro held
    rcases Option.isSome_iff_exists.mp held with ⟨stored, found⟩
    exact Option.isSome_of_eq_some ((mirrors number stored).mp found).1
  · intro written
    rcases Option.isSome_iff_exists.mp written with ⟨body, last⟩
    rcases reflects.candidates number with ⟨_, _, _, offered⟩
    exact Option.isSome_of_eq_some ((mirrors number ⟨body, _⟩).mpr ⟨last, offered⟩)

/-- There is a memory store with the same packages. -/
theorem Reflects.exists_mirrors (reflects : directory.Reflects files changes) :
    ∃ store, Mirrors store changes (directory.source files) := by
  rcases reflects.numbers with ⟨numbers, _, written⟩
  let storedOf : UInt64 → StoredPackage := fun number =>
    ⟨(last changes (.body number)).getD [],
      ((directory.source files).candidates number).toOption.getD []⟩
  refine ⟨⟨numbers.map fun number => (number, storedOf number)⟩, ?_⟩
  rintro number ⟨body, keys⟩
  have written' := (written number).trans isSome_last_body_iff.symm
  by_cases member : number ∈ numbers
  · rcases Option.isSome_iff_exists.mp (written'.mp member) with ⟨body', last⟩
    rcases reflects.candidates number with ⟨_, _, _, offered⟩
    rw [MemoryStore.find?, List.lookup_graph storedOf member]
    simp only [storedOf, last, offered, Option.getD_some, Except.toOption, Option.some.injEq,
      StoredPackage.mk.injEq, Except.ok.injEq]
  · have missing : last changes (.body number) = none := by
      rw [← Option.not_isSome_iff_eq_none, ← written']
      exact member
    have missing' : (MemoryStore.mk (numbers.map fun number => (number, storedOf number))).find?
        number = none := by
      rw [← Option.not_isSome_iff_eq_none, ← mem_numbers_iff, List.map_map]
      simpa using member
    simp [missing, missing']

theorem Mirrors.agree {store : MemoryStore} {body : Bytes}
    (mirrors : Mirrors store changes (directory.source files))
    (reflects : directory.Reflects files changes)
    (written : last changes (.body number) = some body) (countable : body.length < positionLimit) :
    (directory.source files).Agree store.source number body.length := by
  rcases reflects.candidates number with ⟨_, _, _, offered⟩
  have found := (mirrors number ⟨body, _⟩).mpr ⟨written, offered⟩
  refine ⟨reflects.bodyLength number body written, ?_, ?_, ?_⟩
  · simp only [MemoryStore.source, found, Option.map_some]
  · simp only [offered, MemoryStore.source, found, Option.map_some, Option.getD_some]
  · intro position inside
    rw [reflects.openBody number body position written, if_neg (by omega)]
    simp only [MemoryStore.source, found, Option.map_some, Option.getD_some]

/-! ### The store as a whole -/

/-- The names in a directory keep bodies and keys apart, and no label of a subscriber is refused. -/
structure Separates (directory : Directory) : Prop where
  distinct : ∀ first second : Target, first.isProper = true → second.isProper = true →
    directory.path first = directory.path second → first = second
  temporary : ∀ first second : Target, first.isProper = true → second.isProper = true →
    directory.path first ++ temporaryEnding ≠ directory.path second
  refused : ∀ tree number label key, isLabel label = false →
    directory.writeKey tree number (some label) key =
      (tree, .error (.invalidRecord (.keyLabel label)))
  admitted : ∀ subscriber : Subscriber, subscriber.validate = .ok () → ∀ tree number key,
    directory.writeKey tree number (some subscriber.label) key =
      writeFile tree (directory.keyPath number (some subscriber.label)) key

theorem separates (directory : Directory) : directory.Separates := by
  refine ⟨fun _ _ => path_injective, fun _ _ => path_append_temporaryEnding_ne, ?_, ?_⟩
  · intro tree number label key improper
    exact writeKey_of_not_isLabel improper
  · intro subscriber valid tree number key
    have proper : (some subscriber.label).all isLabel = true := isLabel_of_validate valid
    exact writeKey_of_isLabel proper

/--
An empty directory into which packages and keys are written, however often and under whatever
labels, shows what was written last, in whatever order the system lists it; and archives over it
answer like those over a memory store with the same packages. The bodies must be such that the
system can count their bytes. In a directory with an absolute path no change of a file succeeds, so
where `succeeds` lets one through the path is relative.
-/
theorem faithful (empty : tree.find directory.root = .ok (.folder []))
    (succeeds : directory.Succeeds tree changes)
    (shows : files.Reorders (directory.changeAll tree changes).files)
    (countable : ∀ package, .writePackage package ∈ changes →
      package.body.length < positionLimit) :
    directory.Separates ∧ directory.Reflects files changes ∧
      (∃ store, Mirrors store changes (directory.source files)) ∧
      ∀ store, Mirrors store changes (directory.source files) → ∀ engines settings,
        Archive.OpensLike (Archive.ofSource (directory.source files) engines settings)
          (Archive.ofSource store.source engines settings) := by
  rcases (holds_of_empty empty).changeAll succeeds with ⟨entries, holds⟩
  rw [List.nil_append] at holds
  have reflects := reflects_of_holds holds shows
  refine ⟨separates directory, reflects, reflects.exists_mirrors, ?_⟩
  intro store mirrors engines settings
  rcases reflects.numbers with ⟨numbers, listed, written⟩
  refine Archive.opensLike_of_agree listed rfl ?_ ?_ engines settings
  · intro number
    rw [written, ← isSome_last_body_iff, mem_numbers_iff, mirrors.isSome_find?_iff reflects]
  · intro number member
    rcases Option.isSome_iff_exists.mp (isSome_last_body_iff.mpr ((written number).mp member))
      with ⟨body, last⟩
    rcases exists_of_last_body last with ⟨package, made, _, rfl⟩
    exact ⟨_, mirrors.agree reflects last (countable package made)⟩

/-- Texts in ascending order are determined by which ones they are. -/
theorem eq_of_ascending {labels others : List String}
    (ascending : labels.Pairwise fun first second => Bytes.ofString first < Bytes.ofString second)
    (ascending' : others.Pairwise fun first second => Bytes.ofString first < Bytes.ofString second)
    (same : ∀ label, label ∈ labels ↔ label ∈ others) : labels = others := by
  have antisymm : Std.Antisymm fun first second => Bytes.ofString first < Bytes.ofString second :=
    ⟨fun _ _ less more => absurd more (List.lt_asymm less)⟩
  have irrefl : Std.Irrefl fun first second => Bytes.ofString first < Bytes.ofString second :=
    ⟨fun _ => List.lt_irrefl _⟩
  exact ascending.eq_of_mem_iff ascending' same

/-- A package of two bytes for the seventh message. -/
def samplePackage : Package :=
  ⟨.start 7 "p", [1, 2], .plain 0 2, [], none, none⟩

/-- Labelled keys beside it; one has a dot in its label, and one is written again. -/
def sampleChanges : List Change :=
  [.writeKey 7 (some "8") [3], .writePackage samplePackage, .writeKey 7 (some "fidd") [4],
    .writeKey 7 (some "a.b") [5], .writeKey 7 (some "8") [6]]

/-- Keys are found by their labels, though the system lists the latest file first. -/
theorem faithful_relabelled :
    let tree : FileTree := .folder [("inbox", .folder [])]
    let directory : Directory := ⟨"inbox"⟩
    let files : Files := ⟨fun path =>
      match (directory.changeAll tree sampleChanges).find path with
      | .ok (.folder entries) => .ok (.folder entries.reverse)
      | found => found⟩
    tree.find "inbox" = .ok (.folder []) ∧ directory.Succeeds tree sampleChanges ∧
      files.Reorders (directory.changeAll tree sampleChanges).files ∧
      (directory.source files).bodyLength 7 = .ok (some 2) ∧
      (directory.source files).candidates 7 = .ok [Record.encode samplePackage.key, [6], [4]] ∧
      ∃ store, Mirrors store sampleChanges (directory.source files) ∧
        Archive.OpensLike (Archive.ofSource (directory.source files) .standard {})
          (Archive.ofSource store.source .standard {}) := by
  intro tree directory files
  have empty : tree.find "inbox" = .ok (.folder []) := rfl
  have succeeds : directory.Succeeds tree sampleChanges := by
    refine succeeds_of_short (holds_of_empty empty) (by decide) (by decide) ?_
    intro number label key member
    simp only [sampleChanges, List.mem_cons, Change.writeKey.injEq, reduceCtorEq, Option.some.injEq,
      List.not_mem_nil, false_or, or_false] at member
    rcases member with ⟨_, rfl, _⟩ | ⟨_, rfl, _⟩ | ⟨_, rfl, _⟩ | ⟨_, rfl, _⟩ <;>
      exact ⟨by decide, by decide⟩
  have shows : files.Reorders (directory.changeAll tree sampleChanges).files := by
    intro path
    simp only [files, FileTree.files]
    split
    · rename_i entries found
      exact .inr ⟨_, _, rfl, found, List.reverse_perm entries⟩
    · exact .inl rfl
  have countable : ∀ package, .writePackage package ∈ sampleChanges →
      package.body.length < positionLimit := by
    intro package made
    simp only [sampleChanges, List.mem_cons, Change.writePackage.injEq, reduceCtorEq,
      List.not_mem_nil, false_or, or_false] at made
    rw [made]
    decide
  rcases faithful empty succeeds shows countable with ⟨_, reflects, ⟨store, mirrors⟩, alike⟩
  refine ⟨empty, succeeds, shows, reflects.bodyLength 7 [1, 2] rfl, ?_, store, mirrors,
    alike store mirrors _ _⟩
  rcases reflects.candidates 7 with ⟨labels, ascending, known, offered⟩
  have writes : sampleChanges.flatMap Change.writes =
      [(.key 7 (some "8"), [3]), (.body 7, [1, 2]), (.key 7 none, Record.encode samplePackage.key),
        (.key 7 (some "fidd"), [4]), (.key 7 (some "8"), [6])] := rfl
  have same : labels = ["8", "fidd"] := by
    apply eq_of_ascending ascending (by decide)
    intro label
    rw [known, last, writes, List.lookup_isSome_iff]
    simp [or_comm]
  rw [offered, same]
  rfl

end Directory

end Missive
