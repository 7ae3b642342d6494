import Mathlib.Data.List.Nodup
import Missive.Proofs.Store.Changes
import Missive.Proofs.Text.Order

/-!
# What a directory shows after changes

A reader of a directory sees names, in whatever order the system lists them, and what stands
under them. From the names come the numbers of the messages and the keys of each message; the
keys are sorted, the one without a label first, so the order of the listing is lost again
(`Directory.Holds.candidates`).
-/

namespace Missive

/-- Files that show what other files do, but may list the entries of a folder in another order. -/
def Files.Reorders (files other : Files) : Prop :=
  ∀ path, files.find path = other.find path ∨
    ∃ entries others, files.find path = .ok (.folder entries) ∧
      other.find path = .ok (.folder others) ∧ entries.Perm others

namespace Directory

open FileTree (join checkPath Plain)

/-! ### The order of candidates -/

theorem precedes_some_iff {first second name name' : String} :
    precedes (some first, name) (some second, name') = true ↔
      first < second ∨ first = second ∧ name ≤ name' := by
  simp only [precedes, Bool.or_eq_true, Bool.and_eq_true, decide_eq_true_iff]

theorem precedes_none_iff {name name' : String} :
    precedes (none, name) (none, name') = true ↔ name ≤ name' :=
  decide_eq_true_iff

theorem precedes_trans (first second third : Option String × String)
    (before : precedes first second = true) (before' : precedes second third = true) :
    precedes first third = true := by
  rcases first with ⟨_ | first, name⟩
  · rcases third with ⟨_ | third, name''⟩
    · rcases second with ⟨_ | second, name'⟩
      · rw [precedes_none_iff] at before before' ⊢
        exact String.le_trans before before'
      · cases before'
    · rfl
  · rcases second with ⟨_ | second, name'⟩
    · cases before
    · rcases third with ⟨_ | third, name''⟩
      · cases before'
      · rw [precedes_some_iff] at before before' ⊢
        rcases before with less | ⟨rfl, names⟩
        · rcases before' with less' | ⟨rfl, _⟩
          · exact .inl (String.lt_trans less less')
          · exact .inl less
        · rcases before' with less' | ⟨rfl, names'⟩
          · exact .inl less'
          · exact .inr ⟨rfl, String.le_trans names names'⟩

theorem precedes_total (first second : Option String × String) :
    (precedes first second || precedes second first) = true := by
  rw [Bool.or_eq_true]
  match first, second with
  | (none, name), (none, name') =>
      rw [precedes_none_iff, precedes_none_iff]
      exact String.le_total name name'
  | (none, _), (some _, _) => exact .inl rfl
  | (some _, _), (none, _) => exact .inr rfl
  | (some first, name), (some second, name') =>
      rw [precedes_some_iff, precedes_some_iff]
      by_cases less : first < second
      · exact .inl (.inl less)
      · by_cases more : second < first
        · exact .inr (.inl more)
        · cases String.le_antisymm (String.not_lt.mp more) (String.not_lt.mp less)
          rcases String.le_total name name' with names | names
          · exact .inl (.inr ⟨rfl, names⟩)
          · exact .inr (.inr ⟨rfl, names⟩)

theorem lt_of_precedes {first second : Option String} {name name' : String}
    (before : precedes (first, name) (second, name') = true) (different : first ≠ second) :
    first < second := by
  match first, second with
  | none, none => exact absurd rfl different
  | none, some _ => exact Option.none_lt_some
  | some first, some second =>
      rcases precedes_some_iff.mp before with less | ⟨rfl, _⟩
      · exact Option.some_lt_some.mpr less
      · exact absurd rfl different

/-- In ascending order the missing label comes first, and then come the texts. -/
theorem exists_texts_of_sorted {labels : List (Option String)} (sorted : labels.Pairwise (· < ·)) :
    ∃ texts : List String, texts.Pairwise (· < ·) ∧
      (labels = texts.map some ∨ labels = none :: texts.map some) := by
  have given : ∀ rest : List (Option String), (∀ label ∈ rest, none < label) →
      ∃ texts : List String, rest = texts.map some := by
    intro rest above
    induction rest with
    | nil => exact ⟨[], rfl⟩
    | cons label rest ih =>
        rw [List.forall_mem_cons] at above
        cases label with
        | none => exact absurd above.1 Option.not_lt_none
        | some text =>
            rcases ih above.2 with ⟨texts, rfl⟩
            exact ⟨text :: texts, rfl⟩
  cases labels with
  | nil => exact ⟨[], .nil, .inl rfl⟩
  | cons label rest =>
      rcases List.pairwise_cons.mp sorted with ⟨above, sorted'⟩
      cases label with
      | none =>
          rcases given rest above with ⟨texts, rfl⟩
          rw [List.pairwise_map] at sorted'
          exact ⟨texts, sorted'.imp Option.some_lt_some.mp, .inr rfl⟩
      | some text =>
          have filled : ∀ label ∈ rest, none < label := by
            intro label member
            have more := above label member
            cases label with
            | none => exact absurd more Option.not_lt_none
            | some _ => exact Option.none_lt_some
          rcases given rest filled with ⟨texts, rfl⟩
          rw [← List.map_cons (f := some), List.pairwise_map] at sorted
          exact ⟨text :: texts, sorted.imp Option.some_lt_some.mp, .inl rfl⟩

/-- Keys with distinct labels are sorted by these alone. -/
theorem exists_mergeSort_precedes {labels : List (Option String)} (distinct : labels.Nodup)
    (nameOf : Option String → String) :
    ∃ sorted : List (Option String),
      (labels.map fun label => (label, nameOf label)).mergeSort precedes =
        sorted.map (fun label => (label, nameOf label)) ∧
      sorted.Perm labels ∧ sorted.Pairwise (· < ·) := by
  let pairs := labels.map fun label => (label, nameOf label)
  have rearranged : (pairs.mergeSort precedes).Perm pairs := List.mergeSort_perm _ _
  have same : ((pairs.mergeSort precedes).map Prod.fst).Perm labels := by
    have firsts := rearranged.map Prod.fst
    rw [List.map_map] at firsts
    exact firsts.trans (List.Perm.of_eq (List.map_id labels))
  refine ⟨_, ?_, same, ?_⟩
  · rw [List.map_map]
    conv_lhs => rw [← List.map_id (pairs.mergeSort precedes)]
    apply List.map_congr_left
    intro item member
    rcases List.mem_map.mp (rearranged.mem_iff.mp member) with ⟨label, _, rfl⟩
    rfl
  · have ascending := List.pairwise_mergeSort precedes_trans precedes_total pairs
    have distinct' := same.nodup_iff.mpr distinct
    rw [List.Nodup, List.pairwise_map] at distinct'
    rw [List.pairwise_map]
    exact (ascending.and distinct').imp fun both => lt_of_precedes both.1 both.2

/-- The label of a file that is a key of a message. -/
def Target.labelOf? (number : UInt64) : Target → Option (Option String)
  | body _ => none
  | key other label => if other = number then some label else none

theorem labelOf?_eq_some_iff {number : UInt64} {target : Target} {label : Option String} :
    target.labelOf? number = some label ↔ target = .key number label := by
  cases target with
  | body other => simp [Target.labelOf?]
  | key other label' => simp [Target.labelOf?]

/-- The keys of a message among the files of a directory, in ascending order of their labels. -/
theorem exists_labels_keyNames {targets : List Target}
    (proper : ∀ target ∈ targets, target.isProper = true) (distinct : targets.Nodup)
    (number : UInt64) :
    ∃ labels : List (Option String),
      keyNames number (targets.map Target.fileName) =
        labels.map (fun label => (Target.key number label).fileName) ∧
      labels.Pairwise (· < ·) ∧ ∀ label, label ∈ labels ↔ .key number label ∈ targets := by
  have distinct' : (targets.filterMap (Target.labelOf? number)).Nodup := by
    refine distinct.filterMap ?_
    intro first second label known known'
    rw [labelOf?_eq_some_iff.mp known, labelOf?_eq_some_iff.mp known']
  rcases exists_mergeSort_precedes distinct' (fun label => (Target.key number label).fileName)
    with ⟨labels, sorted, same, ascending⟩
  refine ⟨labels, ?_, ascending, ?_⟩
  · have found : keyNames number (targets.map Target.fileName) =
        (((targets.filterMap (Target.labelOf? number)).map fun label =>
          (label, (Target.key number label).fileName)).mergeSort precedes).map Prod.snd := by
      rw [keyNames, List.filterMap_map, List.map_filterMap]
      refine congrArg (fun found => (List.mergeSort found precedes).map Prod.snd) ?_
      apply List.filterMap_congr
      intro target member
      rw [Function.comp_apply, keyNumber?_fileName (proper target member)]
      cases target with
      | body other => rfl
      | key other label =>
          by_cases same : other = number
          · subst same
            simp [Target.labelOf?]
          · simp [Target.labelOf?, same]
    rw [found, sorted, List.map_map]
    rfl
  · intro label
    rw [same.mem_iff, List.mem_filterMap]
    constructor
    · rintro ⟨target, member, known⟩
      exact labelOf?_eq_some_iff.mp known ▸ member
    · intro member
      exact ⟨_, member, labelOf?_eq_some_iff.mpr rfl⟩

/-! ### Listing and reading -/

section Holds

variable {directory : Directory} {tree : FileTree} {files : Files} {target : Target}
  {number : UInt64} {content : Bytes} {entries : List (String × FileTree)}
  {writes : List (Target × Bytes)}

theorem exists_targets_of_named {names : List String}
    (named : ∀ name ∈ names, ∃ target : Target, target.isProper = true ∧ target.fileName = name) :
    ∃ targets : List Target, names = targets.map Target.fileName ∧
      ∀ target ∈ targets, target.isProper = true := by
  induction names with
  | nil => exact ⟨[], rfl, nofun⟩
  | cons name names ih =>
      rw [List.forall_mem_cons] at named
      rcases named with ⟨⟨target, proper, rfl⟩, named⟩
      rcases ih named with ⟨targets, rfl, others⟩
      exact ⟨target :: targets, rfl, List.forall_mem_cons.mpr ⟨proper, others⟩⟩

/-- Only proper files are written. -/
theorem Holds.isProper (holds : directory.Holds tree entries writes)
    (written : (writes.reverse.lookup target).isSome = true) :
    target.isProper = true ∧ Plain target.fileName ∧
      checkPath (directory.path target) = .ok () := by
  apply holds.admitted
  rw [FileTree.lookup_isSome_iff, List.map_reverse, List.mem_reverse] at written
  exact written

/-- What is listed are the files that were written, each once. -/
theorem Holds.exists_targets (holds : directory.Holds tree entries writes)
    (shows : files.Reorders tree.files) :
    ∃ targets : List Target, directory.names files = .ok (targets.map Target.fileName) ∧
      (∀ target ∈ targets, target.isProper = true) ∧ targets.Nodup ∧
      ∀ target, target ∈ targets ↔ (writes.reverse.lookup target).isSome = true := by
  obtain ⟨listed, found, rearranged⟩ : ∃ listed,
      files.find directory.root = .ok (.folder listed) ∧ listed.Perm entries := by
    have there : tree.files.find directory.root = .ok (.folder entries) := holds.found
    rcases shows directory.root with same | ⟨listed, others, found, found', rearranged⟩
    · exact ⟨entries, same.trans there, .refl _⟩
    · rw [there] at found'
      cases found'
      exact ⟨listed, found, rearranged⟩
  have same : (listed.map Prod.fst).Perm (entries.map Prod.fst) := rearranged.map Prod.fst
  rcases exists_targets_of_named fun name member => holds.named name (same.mem_iff.mp member)
    with ⟨targets, shape, proper⟩
  have distinct := same.nodup_iff.mpr holds.distinct
  rw [shape] at same distinct
  refine ⟨targets, ?_, proper, distinct.of_map, ?_⟩
  · simp only [names, Files.list, found, shape, bind, Except.bind, pure, Except.pure, mapError_ok]
  · intro target
    constructor
    · intro member
      have listed := same.mem_iff.mp (List.mem_map_of_mem member)
      rw [← FileTree.lookup_isSome_iff, holds.stored target (proper target member),
        Option.isSome_map] at listed
      exact listed
    · intro written
      have good := (holds.isProper written).1
      have listed : target.fileName ∈ entries.map Prod.fst := by
        rw [← FileTree.lookup_isSome_iff, holds.stored target good, Option.isSome_map]
        exact written
      rcases List.mem_map.mp (same.mem_iff.mpr listed) with ⟨other, member, names⟩
      exact fileName_injective (proper other member) good names ▸ member

/-- A file is found with what was written to it last. -/
theorem Holds.find (holds : directory.Holds tree entries writes)
    (shows : files.Reorders tree.files) (written : writes.reverse.lookup target = some content) :
    files.find (directory.path target) = .ok (.file content) := by
  rcases holds.isProper (Option.isSome_of_eq_some written) with ⟨proper, plain, admitted⟩
  rw [path_eq] at admitted ⊢
  have there := FileTree.find_join_of_find holds.found plain admitted
  rw [holds.stored target proper, written] at there
  rcases shows (join directory.root target.fileName) with same | ⟨_, _, _, found, _⟩
  · exact same.trans there
  · cases there.symm.trans found

theorem Holds.numbers (holds : directory.Holds tree entries writes)
    (shows : files.Reorders tree.files) :
    ∃ numbers, (directory.source files).numbers = .ok numbers ∧
      ∀ number, number ∈ numbers ↔ (writes.reverse.lookup (.body number)).isSome = true := by
  rcases holds.exists_targets shows with ⟨targets, listed, _, _, written⟩
  refine ⟨(targets.map Target.fileName).filterMap bodyNumber?, ?_, ?_⟩
  · simp only [source, listed, bind, Except.bind, pure, Except.pure]
  · intro number
    rw [← written, List.filterMap_map, List.mem_filterMap]
    constructor
    · rintro ⟨target, member, known⟩
      rw [Function.comp_apply, bodyNumber?_fileName] at known
      cases target with
      | body other =>
          cases known
          exact member
      | key other label => cases known
    · intro member
      exact ⟨_, member, bodyNumber?_fileName _⟩

theorem Holds.bodyLength (holds : directory.Holds tree entries writes)
    (shows : files.Reorders tree.files)
    (written : writes.reverse.lookup (.body number) = some content) :
    (directory.source files).bodyLength number = .ok (some content.length) := by
  have found : files.find (directory.bodyPath number) = .ok (.file content) :=
    holds.find shows written
  simp only [source, found]

theorem Holds.openBody (holds : directory.Holds tree entries writes)
    (shows : files.Reorders tree.files)
    (written : writes.reverse.lookup (.body number) = some content) (position : Nat) :
    (directory.source files).openBody number position =
      if positionLimit ≤ position then .error (.io .invalidArgument)
      else .ok (.ofBytes (content.drop position)) := by
  have found : files.find (directory.bodyPath number) = .ok (.file content) :=
    holds.find shows written
  simp only [source, found, mapError_ok, bind, Except.bind, pure, Except.pure]
  by_cases far : positionLimit ≤ position
  · rw [if_pos far, if_pos far]
    rfl
  · rw [if_neg far, if_neg far]

/-- A message to which no body was written has none. -/
theorem Holds.bodyLength_of_none (holds : directory.Holds tree entries writes)
    (shows : files.Reorders tree.files) (missing : writes.reverse.lookup (.body number) = none)
    (admitted : checkPath (directory.bodyPath number) = .ok ()) :
    (directory.source files).bodyLength number = .ok none := by
  have stored : entries.lookup (bodyName number) = none := by
    have known := holds.stored (.body number) rfl
    rw [missing] at known
    exact known
  have there := FileTree.find_join_of_find holds.found (plain_bodyName number) admitted
  rw [stored] at there
  have found : files.find (directory.bodyPath number) = .error .missing := by
    rcases shows (directory.bodyPath number) with same | ⟨_, _, _, found, _⟩
    · exact same.trans there
    · cases there.symm.trans found
  simp only [source, found]
  rfl

/-- The keys of a message are read in order: the one without a label, and then the others. -/
theorem Holds.candidates (holds : directory.Holds tree entries writes)
    (shows : files.Reorders tree.files) (number : UInt64) :
    ∃ texts : List String, texts.Pairwise (· < ·) ∧
      (∀ text, text ∈ texts ↔ (writes.reverse.lookup (.key number (some text))).isSome = true) ∧
      (directory.source files).candidates number =
        .ok ((writes.reverse.lookup (.key number none)).toList ++
          texts.filterMap fun text => writes.reverse.lookup (.key number (some text))) := by
  rcases holds.exists_targets shows with ⟨targets, listed, proper, distinct, written⟩
  rcases exists_labels_keyNames proper distinct number with ⟨labels, names, sorted, known⟩
  have stored : ∀ label ∈ labels, ∃ content,
      writes.reverse.lookup (.key number label) = some content ∧
      directory.readKey files (Target.key number label).fileName = .ok content := by
    intro label member
    rcases Option.isSome_iff_exists.mp ((written _).mp ((known label).mp member))
      with ⟨content, last⟩
    have found := holds.find shows last
    rw [path_eq] at found
    refine ⟨content, last, ?_⟩
    simp only [readKey, Files.read, found, mapError_ok, bind, Except.bind, pure, Except.pure]
  have read : (directory.source files).candidates number =
      .ok (labels.filterMap fun label => writes.reverse.lookup (.key number label)) := by
    simp only [source, listed, names, List.mapM_map, bind, Except.bind]
    exact mapM_eq_ok_filterMap stored
  have filled : ∀ label, label ∈ labels ↔
      (writes.reverse.lookup (.key number label)).isSome = true :=
    fun label => (known label).trans (written _)
  rcases exists_texts_of_sorted sorted with ⟨texts, ascending, rfl | rfl⟩
  · refine ⟨texts, ascending, ?_, ?_⟩
    · intro text
      simp [← filled]
    · have nothing : writes.reverse.lookup (.key number none) = none := by
        rw [← Option.not_isSome_iff_eq_none, ← filled]
        simp
      rw [read, nothing, List.filterMap_map]
      rfl
  · refine ⟨texts, ascending, ?_, ?_⟩
    · intro text
      simp [← filled]
    · have first := (filled none).mp List.mem_cons_self
      rcases Option.isSome_iff_exists.mp first with ⟨content, last⟩
      rw [read, last, List.filterMap_cons, last, List.filterMap_map]
      rfl

end Holds

end Directory

end Missive
