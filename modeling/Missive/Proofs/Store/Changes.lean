import Missive.Proofs.Store.Names

/-!
# Changes of a directory

A directory is changed by writing packages and further keys. Each change writes files of its own
names (`Directory.Change.writes`), and a file holds what was written to it last
(`Directory.last`). `Directory.Holds` says that the directory consists of these files and
nothing else; it is kept by every single write, and so by every row of changes
(`Directory.Holds.changeAll`). A directory that holds anything has a relative path, since no other
leads into a file tree.
-/

namespace Missive.Directory

open FileTree (join checkPath isAbsolute putEntry Plain)

/-- A change of a directory. -/
inductive Change where
  | writePackage (package : Package)
  | writeKey (number : UInt64) (label : Option String) (key : Bytes)

/-- Whether a change is not refused for its label. -/
def Change.isAdmitted : Change → Bool
  | .writePackage _ => true
  | .writeKey _ label _ => label.all isLabel

/-- The files that a change writes, with their contents. -/
def Change.writes : Change → List (Target × Bytes)
  | .writePackage package =>
    [(.body package.number, package.body), (.key package.number none, Record.encode package.key)]
  | .writeKey number label key => if label.all isLabel then [(.key number label, key)] else []

/-- Makes a change. -/
def change (directory : Directory) (tree : FileTree) : Change → FileTree × Except Error Unit
  | .writePackage package => directory.writePackage tree package
  | .writeKey number label key => directory.writeKey tree number label key

/-- Makes changes one after another. -/
def changeAll (directory : Directory) (tree : FileTree) (changes : List Change) : FileTree :=
  changes.foldl (fun tree change => (directory.change tree change).1) tree

/-- Whether all changes succeed, apart from those that are refused for their labels. -/
def Succeeds (directory : Directory) : FileTree → List Change → Prop
  | _, [] => True
  | tree, change :: changes =>
    (change.isAdmitted = true → (directory.change tree change).2 = .ok ()) ∧
      directory.Succeeds (directory.change tree change).1 changes

/-- What was written to a file last. -/
def last (changes : List Change) (target : Target) : Option Bytes :=
  (changes.flatMap Change.writes).reverse.lookup target

/-! ### Labels -/

section Labels

variable {directory : Directory} {tree : FileTree} {number : UInt64} {key : Bytes}

theorem writeKey_of_isLabel {label : Option String} (proper : label.all isLabel = true) :
    directory.writeKey tree number label key =
      writeFile tree (directory.keyPath number label) key := by
  cases label with
  | none => rfl
  | some label =>
      have kept : (some label).filter (fun label => !isLabel label) = none := by
        simpa using proper
      rw [writeKey, kept]

theorem writeKey_of_not_isLabel {label : String} (improper : isLabel label = false) :
    directory.writeKey tree number (some label) key =
      (tree, .error (.invalidRecord (.keyLabel label))) := by
  have refused : (some label).filter (fun label => !isLabel label) = some label := by
    simp [improper]
  rw [writeKey, refused]

end Labels

/-! ### What a directory holds -/

variable {directory : Directory} {tree after : FileTree} {target : Target} {content : Bytes}
  {entries : List (String × FileTree)} {writes : List (Target × Bytes)}

/--
The entries of a directory are the files that were written, with what was written last. It is found
by a relative path, unless nothing has been written.
-/
structure Holds (directory : Directory) (tree : FileTree) (entries : List (String × FileTree))
    (writes : List (Target × Bytes)) : Prop where
  found : tree.find directory.root = .ok (.folder entries)
  distinct : (entries.map Prod.fst).Nodup
  named : ∀ name ∈ entries.map Prod.fst, ∃ target : Target, target.isProper = true ∧
    target.fileName = name
  stored : ∀ target : Target, target.isProper = true →
    entries.lookup target.fileName = (writes.reverse.lookup target).map FileTree.file
  admitted : ∀ target ∈ writes.map Prod.fst, target.isProper = true ∧ Plain target.fileName ∧
    checkPath (directory.path target) = .ok ()

theorem holds_of_empty (empty : tree.find directory.root = .ok (.folder [])) :
    directory.Holds tree [] [] :=
  ⟨empty, .nil, nofun, fun _ _ => rfl, nofun⟩

theorem plain_of_writeFile (given : directory.root ≠ "") (proper : target.isProper = true)
    (written : writeFile tree (directory.path target) content = (after, .ok ())) :
    Plain target.fileName ∧ Plain (target.fileName ++ temporaryEnding) := by
  have slashes : '/' ∉ (target.ending ++ temporaryEnding).toList := by
    have clean : '/' ∉ temporaryEnding.toList := by decide
    simp [slashes_ending proper, clean]
  have whole : target.fileName ++ temporaryEnding =
      Text.ofNatural target.number.toNat ++ (target.ending ++ temporaryEnding) :=
    String.append_assoc
  have short : (Bytes.ofString (target.fileName ++ temporaryEnding)).length ≤
      FileTree.nameLimit := by
    cases first : tree.write (directory.path target ++ temporaryEnding) content with
    | error fault => simp [writeFile, first] at written
    | ok middle =>
        rw [path_eq, join_append (slashes_fileName proper) (by decide) given] at first
        refine FileTree.short_of_write ?_ ?_ given first
        · simp [slashes_fileName proper, temporaryEnding]
        · simp [temporaryEnding]
  constructor
  · apply plain_of_short (slashes_ending proper)
    rw [Bytes.ofString_append, List.length_append] at short
    exact Nat.le_of_add_right_le short
  · rw [whole] at short ⊢
    exact plain_of_short slashes short

/-! ### Entries -/

theorem mem_putEntry {name other : String} {entry : FileTree} :
    other ∈ (putEntry name (some entry) entries).map Prod.fst ↔
      other = name ∨ other ∈ entries.map Prod.fst := by
  by_cases same : other = name
  · subst same
    simp [← FileTree.lookup_isSome_iff]
  · rw [← FileTree.lookup_isSome_iff, FileTree.lookup_putEntry_of_ne same,
      FileTree.lookup_isSome_iff]
    simp [same]

theorem nodup_putEntry {name : String} {entry : FileTree}
    (distinct : (entries.map Prod.fst).Nodup) :
    ((putEntry name (some entry) entries).map Prod.fst).Nodup := by
  induction entries with
  | nil => simp [putEntry]
  | cons first entries ih =>
      rcases first with ⟨other, kept⟩
      rw [List.map_cons, List.nodup_cons] at distinct
      by_cases same : other = name
      · subst same
        simpa [putEntry] using distinct
      · rw [putEntry, if_neg same, List.map_cons, List.nodup_cons, mem_putEntry]
        refine ⟨?_, ih distinct.2⟩
        rintro (claimed | present)
        · exact same claimed
        · exact distinct.1 present

/-- A file under its name takes the place of the one that was there, and of no other one. -/
theorem Holds.put (holds : directory.Holds tree entries writes) (proper : target.isProper = true)
    (plain : Plain target.fileName) (admitted : checkPath (directory.path target) = .ok ())
    (found : after.find directory.root =
      .ok (.folder (putEntry target.fileName (some (.file content)) entries))) :
    directory.Holds after (putEntry target.fileName (some (.file content)) entries)
      (writes ++ [(target, content)]) := by
  refine ⟨found, nodup_putEntry holds.distinct, ?_, ?_, ?_⟩
  · intro name present
    rcases mem_putEntry.mp present with rfl | earlier
    · exact ⟨target, proper, rfl⟩
    · exact holds.named name earlier
  · intro other proper'
    rw [List.reverse_append, List.reverse_singleton, List.singleton_append]
    by_cases same : other = target
    · subst same
      rw [FileTree.lookup_putEntry_some, List.lookup_cons_self, Option.map_some]
    · have different : other.fileName ≠ target.fileName :=
        fun names => same (fileName_injective proper' proper names)
      rw [FileTree.lookup_putEntry_of_ne different, List.lookup_cons,
        beq_eq_false_iff_ne.mpr same]
      exact holds.stored other proper'
  · intro other member
    rw [List.map_append, List.mem_append] at member
    rcases member with earlier | latest
    · exact holds.admitted other earlier
    · cases List.mem_singleton.mp latest
      exact ⟨proper, plain, admitted⟩

/-- A file can be written under its name if the system admits this, and the temporary name. -/
theorem Holds.exists_write (holds : directory.Holds tree entries writes)
    (proper : target.isProper = true) (relative : isAbsolute directory.root = false)
    (plain : Plain target.fileName) (plain' : Plain (target.fileName ++ temporaryEnding))
    (admitted : checkPath (directory.path target ++ temporaryEnding) = .ok ())
    (content : Bytes) :
    ∃ after, writeFile tree (directory.path target) content = (after, .ok ()) ∧
      directory.Holds after (putEntry target.fileName (some (.file content)) entries)
        (writes ++ [(target, content)]) := by
  rcases FileTree.exists_shows_of_find relative holds.found with ⟨place, shown⟩
  have fresh : entries.lookup (target.fileName ++ temporaryEnding) = none := by
    rw [← Option.not_isSome_iff_eq_none, FileTree.lookup_isSome_iff]
    intro present
    rcases holds.named _ present with ⟨other, proper', same⟩
    exact append_temporaryEnding_ne_fileName _ proper' same.symm
  have unfilled : ∀ inner, entries.lookup target.fileName ≠ some (.folder inner) := by
    intro inner present
    rw [holds.stored target proper, Option.map_eq_some_iff] at present
    rcases present with ⟨_, _, claimed⟩
    cases claimed
  have path := path_eq directory target
  rw [path] at admitted
  rcases exists_writeFile shown plain plain' admitted fresh unfilled content
    with ⟨after, written, final⟩
  rw [← path] at written admitted
  refine ⟨after, written, holds.put proper plain ?_ final.find⟩
  exact checkPath_of_append (path ▸ join_ne_empty plain shown.given) admitted

/-- A single write puts a file under its name, and takes the place of the one that was there. -/
theorem Holds.write (holds : directory.Holds tree entries writes)
    (proper : target.isProper = true)
    (written : writeFile tree (directory.path target) content = (after, .ok ())) :
    directory.Holds after (putEntry target.fileName (some (.file content)) entries)
      (writes ++ [(target, content)]) := by
  have given := root_ne_empty holds.found
  rcases plain_of_writeFile given proper written with ⟨plain, plain'⟩
  rcases admitted_of_writeFile written with ⟨admitted, absolute⟩
  have relative : isAbsolute directory.root = false := by
    rw [path_eq, join_append plain.slashes (by decide) given,
      plain'.isAbsolute_join given] at absolute
    exact absolute
  rcases holds.exists_write proper relative plain plain' admitted content
    with ⟨other, again, final⟩
  rw [written] at again
  cases again
  exact final

/-- A change writes its files, or it is refused and leaves the directory as it is. -/
theorem Holds.change (holds : directory.Holds tree entries writes) (change : Change)
    (succeeds : change.isAdmitted = true → (directory.change tree change).2 = .ok ()) :
    ∃ others,
      directory.Holds (directory.change tree change).1 others (writes ++ change.writes) := by
  cases change with
  | writePackage package =>
      have written : directory.writePackage tree package =
          ((directory.change tree (.writePackage package)).1, .ok ()) :=
        Prod.ext rfl (succeeds rfl)
      rcases exists_of_writePackage written with ⟨middle, body, key⟩
      have first : directory.Holds middle _ (writes ++ [(.body package.number, package.body)]) :=
        holds.write rfl body
      have second : directory.Holds _ _
          (writes ++ [(.body package.number, package.body)] ++
            [(.key package.number none, Record.encode package.key)]) := first.write rfl key
      rw [List.append_assoc] at second
      exact ⟨_, second⟩
  | writeKey number label key =>
      cases proper : label.all isLabel with
      | true =>
          have written : writeFile tree (directory.keyPath number label) key =
              ((directory.change tree (.writeKey number label key)).1, .ok ()) := by
            rw [← writeKey_of_isLabel proper]
            exact Prod.ext rfl (succeeds proper)
          have step : directory.Holds _ _ (writes ++ [(.key number label, key)]) :=
            holds.write proper written
          rw [Change.writes, if_pos proper]
          exact ⟨_, step⟩
      | false =>
          cases label with
          | none => cases proper
          | some label =>
              refine ⟨entries, ?_⟩
              rw [Change.writes, if_neg (Bool.eq_false_iff.mp proper), List.append_nil,
                Directory.change, writeKey_of_not_isLabel proper]
              exact holds

theorem Holds.changeAll {changes : List Change} (holds : directory.Holds tree entries writes)
    (succeeds : directory.Succeeds tree changes) :
    ∃ others, directory.Holds (directory.changeAll tree changes) others
      (writes ++ changes.flatMap Change.writes) := by
  induction changes generalizing tree entries writes with
  | nil =>
      rw [List.flatMap_nil, List.append_nil]
      exact ⟨entries, holds⟩
  | cons change changes ih =>
      rcases holds.change change succeeds.1 with ⟨others, step⟩
      rw [List.flatMap_cons, ← List.append_assoc]
      exact ih step succeeds.2

/-! ### Changes that succeed -/

/-- A label that the file system admits in names. -/
def IsShort (label : String) : Prop :=
  '\x00' ∉ label.toList ∧ (Bytes.ofString label).length ≤ 150

theorem short_ending (labels : ∀ label ∈ target.label?, IsShort label) :
    '\x00' ∉ target.ending.toList ∧ (Bytes.ofString target.ending).length ≤ 160 := by
  have clean : '\x00' ∉ keyEnding.toList := by decide
  have eight : (Bytes.ofString keyEnding).length = 8 := by decide
  match target with
  | .body _ =>
      have clean' : '\x00' ∉ bodyEnding.toList := by decide
      have five : (Bytes.ofString bodyEnding).length ≤ 160 := by decide
      exact ⟨clean', five⟩
  | .key _ none => exact ⟨clean, Nat.le_trans (Nat.le_of_eq eight) (by decide)⟩
  | .key _ (some label) =>
      rcases labels label rfl with ⟨clean', few⟩
      have dot : (Bytes.ofString ".").length = 1 := by decide
      constructor
      · simp [Target.ending, clean, clean']
      · simp only [Target.ending, Bytes.ofString_append, List.length_append, dot, eight]
        omega

/-- A file whose name is not too long is written. -/
theorem Holds.exists_write_of_short (holds : directory.Holds tree entries writes)
    (relative : isAbsolute directory.root = false)
    (short : (Bytes.ofString directory.root).length + 200 < FileTree.pathLimit)
    (proper : target.isProper = true) (labels : ∀ label ∈ target.label?, IsShort label)
    (content : Bytes) :
    ∃ after, writeFile tree (directory.path target) content = (after, .ok ()) ∧
      directory.Holds after (putEntry target.fileName (some (.file content)) entries)
        (writes ++ [(target, content)]) := by
  rcases bind_unit_eq_ok_iff.mp holds.found with ⟨valid, _⟩
  rcases short_ending labels with ⟨clean, few⟩
  have slashes := slashes_ending proper
  have slashes' : '/' ∉ (target.ending ++ temporaryEnding).toList := by
    simp [slashes, temporaryEnding]
  have clean' : '\x00' ∉ (target.ending ++ temporaryEnding).toList := by
    simp [clean, temporaryEnding]
  have four : (Bytes.ofString temporaryEnding).length = 4 := by decide
  have few' : (Bytes.ofString (target.ending ++ temporaryEnding)).length ≤ 164 := by
    rw [Bytes.ofString_append, List.length_append, four]
    omega
  have plain : Plain target.fileName := plain_ofNatural slashes (by omega)
  have plain' : Plain (Text.ofNatural target.number.toNat ++ (target.ending ++ temporaryEnding)) :=
    plain_ofNatural slashes' (by omega)
  have admitted := checkPath_join valid plain' clean' (by omega)
  rw [← String.append_assoc] at plain' admitted
  refine holds.exists_write proper relative plain plain' ?_ content
  rw [path_eq, join_append plain.slashes (by decide) (root_ne_empty holds.found)]
  exact admitted

/-- In a directory with a path that is not too long, changes with short labels succeed. -/
theorem succeeds_of_short {changes : List Change} (holds : directory.Holds tree entries writes)
    (relative : isAbsolute directory.root = false)
    (short : (Bytes.ofString directory.root).length + 200 < FileTree.pathLimit)
    (labels : ∀ number label key, .writeKey number (some label) key ∈ changes → IsShort label) :
    directory.Succeeds tree changes := by
  induction changes generalizing tree entries writes with
  | nil => trivial
  | cons change changes ih =>
      have success : change.isAdmitted = true → (directory.change tree change).2 = .ok () := by
        intro proper
        cases change with
        | writePackage package =>
            obtain ⟨middle, body, step⟩ := @Holds.exists_write_of_short _ _
              (.body package.number) _ _ holds relative short rfl nofun package.body
            obtain ⟨after, key, _⟩ := @Holds.exists_write_of_short _ _
              (.key package.number none) _ _ step relative short rfl nofun
              (Record.encode package.key)
            rw [Directory.change, writePackage_of_ok body]
            exact congrArg Prod.snd key
        | writeKey number label key =>
            have labels' : ∀ text ∈ (Target.key number label).label?, IsShort text := by
              rintro text rfl
              exact labels number text key List.mem_cons_self
            obtain ⟨after, written, _⟩ := @Holds.exists_write_of_short _ _
              (.key number label) _ _ holds relative short proper labels' key
            have admitted : label.all isLabel = true := proper
            rw [Directory.change, writeKey_of_isLabel admitted]
            exact congrArg Prod.snd written
      rcases holds.change change success with ⟨others, step⟩
      refine ⟨success, ih step ?_⟩
      intro number label key member
      exact labels number label key (List.mem_cons_of_mem _ member)

end Missive.Directory
