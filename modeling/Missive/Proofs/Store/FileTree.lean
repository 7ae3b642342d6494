import Missive.Proofs.Outcome
import Missive.Proofs.Text
import Missive.Store.FileTree

/-!
# Changes in a folder

What a path leads to is told by two things: the places that it passes, which must be folders
(`FileTree.Leads`), and what stands at the last of them (`FileTree.standing`). A change of an
entry that is no folder leaves all places as they are. So a folder that is found by some path,
which `FileTree.Shows` says, is found by it again after a file in it has been written or removed.
The path is relative, since no other leads into a tree.
-/

namespace Missive.FileTree

/-! ### Entries -/

theorem lookup_isSome_iff {α β : Type} [BEq α] [LawfulBEq α] {key : α} {entries : List (α × β)} :
    (entries.lookup key).isSome = true ↔ key ∈ entries.map Prod.fst := by
  rw [List.lookup_isSome_iff, List.mem_map]
  constructor
  · rintro ⟨entry, member, same⟩
    exact ⟨entry, member, (eq_of_beq same).symm⟩
  · rintro ⟨entry, member, rfl⟩
    exact ⟨entry, member, beq_self_eq_true _⟩

@[simp]
theorem lookup_putEntry_some (name : String) (entry : FileTree)
    (entries : List (String × FileTree)) :
    (putEntry name (some entry) entries).lookup name = some entry := by
  induction entries with
  | nil => simp [putEntry]
  | cons first entries ih =>
      rcases first with ⟨other, kept⟩
      by_cases same : other = name
      · simp [putEntry, same]
      · rw [putEntry, if_neg same, List.lookup_cons, beq_eq_false_iff_ne.mpr (Ne.symm same)]
        exact ih

theorem lookup_putEntry_of_ne {name other : String} (different : other ≠ name)
    (entry : Option FileTree) (entries : List (String × FileTree)) :
    (putEntry name entry entries).lookup other = entries.lookup other := by
  have skipped : ∀ rest : List (String × FileTree),
      ((entry.map fun entry => (name, entry)).toList ++ rest).lookup other =
        rest.lookup other := by
    intro rest
    cases entry with
    | none => rfl
    | some entry =>
        rw [Option.map_some, Option.toList_some, List.singleton_append, List.lookup_cons,
          beq_eq_false_iff_ne.mpr different]
  induction entries with
  | nil =>
      have nothing := skipped []
      rw [List.append_nil] at nothing
      exact nothing
  | cons first entries ih =>
      rcases first with ⟨kept, value⟩
      by_cases same : kept = name
      · rw [putEntry, if_pos same, skipped, List.lookup_cons, same,
          beq_eq_false_iff_ne.mpr different]
      · rw [putEntry, if_neg same, List.lookup_cons, List.lookup_cons, ih]

/-- An entry that is added and taken away again leaves nothing behind. -/
theorem putEntry_none_putEntry {name : String} {entries : List (String × FileTree)}
    (fresh : entries.lookup name = none) (entry : FileTree) :
    putEntry name none (putEntry name (some entry) entries) = entries := by
  induction entries with
  | nil => simp [putEntry]
  | cons first entries ih =>
      rcases first with ⟨other, kept⟩
      rw [List.lookup_cons] at fresh
      by_cases same : other = name
      · rw [same, beq_self_eq_true] at fresh
        cases fresh
      · rw [beq_eq_false_iff_ne.mpr (Ne.symm same)] at fresh
        rw [putEntry, if_neg same, putEntry, if_neg same, ih fresh]

/-! ### Places -/

/-- What stands at a place. -/
def standing : (place : List String) → FileTree → Option FileTree
  | [], here => some here
  | _ :: _, file _ => none
  | step :: place, folder entries => (entries.lookup step).bind (standing place)

/-- Whether there is a folder at a place. -/
def HasFolder (tree : FileTree) (place : List String) : Prop :=
  ∃ entries, standing place tree = some (folder entries)

theorem standing_append (place : List String) (name : String) (tree : FileTree) :
    standing (place ++ [name]) tree = (standing place tree).bind (standing [name]) := by
  induction place generalizing tree with
  | nil => rfl
  | cons step place ih =>
      cases tree with
      | file content => rfl
      | folder entries =>
          simp only [List.cons_append, standing]
          cases entries.lookup step with
          | none => rfl
          | some next => exact ih next

theorem exists_folder_of_hasFolder {tree : FileTree} {place : List String}
    (there : tree.HasFolder place) : ∃ entries, tree = folder entries := by
  rcases there with ⟨entries, found⟩
  cases tree with
  | folder entries => exact ⟨entries, rfl⟩
  | file content =>
      cases place with
      | nil => cases found
      | cons step place => cases found

theorem standing_put {tree : FileTree} {place : List String} {entries : List (String × FileTree)}
    (there : standing place tree = some (folder entries)) (name : String)
    (entry : Option FileTree) :
    standing place (put name entry place tree) = some (folder (putEntry name entry entries)) := by
  induction place generalizing tree with
  | nil =>
      cases there
      rfl
  | cons step place ih =>
      cases tree with
      | file content => cases there
      | folder others =>
          cases below : others.lookup step with
          | none => simp [standing, below] at there
          | some next =>
              simp only [standing, below, Option.bind_some] at there
              simp only [put, below, standing, lookup_putEntry_some, Option.bind_some, ih there]

/-- A change of an entry that is no folder leaves all folders at their places. -/
theorem HasFolder.put {tree : FileTree} {place other : List String} {name : String}
    (there : tree.HasFolder other)
    (plain : ∀ entries, standing (place ++ [name]) tree ≠ some (folder entries))
    (entry : Option FileTree) : (tree.put name entry place).HasFolder other := by
  induction other generalizing tree place with
  | nil =>
      rcases exists_folder_of_hasFolder there with ⟨entries, rfl⟩
      cases place with
      | nil => exact ⟨_, rfl⟩
      | cons step place =>
          simp only [FileTree.put]
          cases entries.lookup step with
          | none => exact ⟨_, rfl⟩
          | some below => exact ⟨_, rfl⟩
  | cons down other ih =>
      rcases exists_folder_of_hasFolder there with ⟨entries, rfl⟩
      rcases there with ⟨found, stands⟩
      cases next : entries.lookup down with
      | none => simp [standing, next] at stands
      | some below =>
          simp only [standing, next, Option.bind_some] at stands
          cases place with
          | nil =>
              -- The changed entry does not lie on the way, since it is no folder.
              have different : down ≠ name := by
                rintro rfl
                rcases exists_folder_of_hasFolder ⟨found, stands⟩ with ⟨inner, rfl⟩
                exact plain inner (by simp [standing, next])
              refine ⟨found, ?_⟩
              simp only [FileTree.put, standing, lookup_putEntry_of_ne different, next, stands,
                Option.bind_some]
          | cons step place =>
              simp only [FileTree.put]
              cases changed : entries.lookup step with
              | none => exact ⟨found, by simp only [standing, next, stands, Option.bind_some]⟩
              | some inner =>
                  by_cases same : down = step
                  · subst same
                    rw [changed] at next
                    cases next
                    have kept : ∀ entries, standing (place ++ [name]) below ≠
                        some (folder entries) := by
                      intro others stands
                      exact plain others (by simp [standing, changed, stands])
                    rcases ih ⟨found, stands⟩ kept with ⟨others, final⟩
                    refine ⟨others, ?_⟩
                    simp only [standing, lookup_putEntry_some, Option.bind_some, final]
                  · refine ⟨found, ?_⟩
                    simp only [standing, lookup_putEntry_of_ne same, next, stands, Option.bind_some]

/-! ### Paths through folders -/

/-- Names that lead from one place to another, through folders alone. -/
inductive Leads (tree : FileTree) : (place names target : List String) → Prop where
  | arrive {place : List String} : Leads tree place [] place
  | stay {place names target : List String} {name : String} (same : name = "" ∨ name = ".")
    (rest : Leads tree place names target) : Leads tree place (name :: names) target
  | up {place names target : List String} (rest : Leads tree place.dropLast names target) :
    Leads tree place (".." :: names) target
  | down {place names target : List String} {name : String} (named : ¬(name = "" ∨ name = "."))
    (proper : name ≠ "..") (short : (Bytes.ofString name).length ≤ nameLimit)
    (there : tree.HasFolder (place ++ [name])) (rest : Leads tree (place ++ [name]) names target) :
    Leads tree place (name :: names) target

theorem Leads.mono {tree other : FileTree} {place names target : List String}
    (leads : Leads tree place names target)
    (kept : ∀ place, tree.HasFolder place → other.HasFolder place) :
    Leads other place names target := by
  induction leads with
  | arrive => exact .arrive
  | stay same _ ih => exact .stay same ih
  | up _ ih => exact .up ih
  | down named proper short there _ ih => exact .down named proper short (kept _ there) ih

/-- The folders that were passed on the way to a place. -/
inductive Passed (tree : FileTree) : (above : List (String × FileTree)) → FileTree → Prop where
  | root : Passed tree [] tree
  | down {above : List (String × FileTree)} {entries : List (String × FileTree)} {name : String}
    {next : FileTree} (passed : Passed tree above (folder entries))
    (found : entries.lookup name = some next) :
    Passed tree ((name, folder entries) :: above) next

theorem Passed.standing {tree here : FileTree} {above : List (String × FileTree)}
    (passed : Passed tree above here) :
    FileTree.standing (above.map Prod.fst).reverse tree = some here := by
  induction passed with
  | root => rfl
  | down _ found ih =>
      simp only [List.map_cons, List.reverse_cons, standing_append, ih, FileTree.standing, found,
        Option.bind_some]

theorem walk_folder (above : List (String × FileTree)) (entries : List (String × FileTree))
    (name : String) (names : List String) :
    walk above (folder entries) (name :: names) =
      if name = "" ∨ name = "." then walk above (folder entries) names
      else if name = ".." then
        match above with
        | [] => walk [] (folder entries) names
        | (_, parent) :: above => walk above parent names
      else
        match (folder entries).child name with
        | .ok next => walk ((name, folder entries) :: above) next names
        | .error fault => .error fault := by
  cases above <;> rfl

theorem exists_folder_of_walk {above : List (String × FileTree)} {here : FileTree}
    {names place : List String} {entries : List (String × FileTree)}
    (found : walk above here names = .ok (place, folder entries)) :
    ∃ entries, here = folder entries := by
  cases here with
  | folder others => exact ⟨others, rfl⟩
  | file content => cases names <;> cases found

theorem leads_of_walk {tree here : FileTree} {above : List (String × FileTree)}
    {names place : List String} {entries : List (String × FileTree)}
    (passed : Passed tree above here)
    (found : walk above here names = .ok (place, folder entries)) :
    Leads tree (above.map Prod.fst).reverse names place ∧
      standing place tree = some (folder entries) := by
  induction names generalizing above here with
  | nil =>
      cases found
      exact ⟨.arrive, passed.standing⟩
  | cons name names ih =>
      rcases exists_folder_of_walk found with ⟨others, rfl⟩
      rw [walk_folder] at found
      split at found
      · rename_i same
        rcases ih passed found with ⟨leads, stands⟩
        exact ⟨.stay same leads, stands⟩
      · rename_i named
        split at found
        · rename_i upwards
          subst upwards
          cases passed with
          | root =>
              rcases ih .root found with ⟨leads, stands⟩
              exact ⟨.up leads, stands⟩
          | down passed _ =>
              rcases ih passed found with ⟨leads, stands⟩
              refine ⟨.up ?_, stands⟩
              simpa using leads
        · rename_i proper
          split at found
          · rename_i next reached
            simp only [child] at reached
            split at reached
            · cases reached
            · rename_i short
              split at reached
              · rename_i entry listed
                cases reached
                have further : Passed tree ((name, folder others) :: above) next :=
                  .down passed listed
                rcases ih further found with ⟨leads, stands⟩
                rcases exists_folder_of_walk found with ⟨inner, rfl⟩
                have there := further.standing
                simp only [List.map_cons, List.reverse_cons] at leads there
                exact ⟨.down named proper (Nat.not_lt.mp short) ⟨inner, there⟩ leads, stands⟩
              · cases reached
          · cases found

theorem walk_of_leads {tree here : FileTree} {above : List (String × FileTree)}
    {names place target : List String} {entries : List (String × FileTree)}
    (leads : Leads tree place names target) (stands : standing target tree = some (folder entries))
    (passed : Passed tree above here) (start : (above.map Prod.fst).reverse = place)
    (inside : ∃ others, here = folder others) :
    walk above here names = .ok (target, folder entries) := by
  induction leads generalizing above here with
  | arrive =>
      rw [← start, passed.standing] at stands
      cases stands
      rw [walk, start]
  | stay same _ ih =>
      rcases inside with ⟨others, rfl⟩
      rw [walk_folder, if_pos same]
      exact ih stands passed start ⟨others, rfl⟩
  | up _ ih =>
      rcases inside with ⟨others, rfl⟩
      rw [walk_folder, if_neg (by decide), if_pos rfl]
      cases passed with
      | root =>
          subst start
          exact ih stands .root rfl ⟨others, rfl⟩
      | down passed _ =>
          subst start
          exact ih stands passed (by simp) ⟨_, rfl⟩
  | @down _ _ _ name named proper short there _ ih =>
      rcases inside with ⟨others, rfl⟩
      rcases there with ⟨inner, there⟩
      subst start
      rw [standing_append, passed.standing, Option.bind_some, standing] at there
      rw [walk_folder, if_neg named, if_neg proper, child, if_neg (Nat.not_lt.mpr short)]
      cases listed : others.lookup name with
      | none => rw [listed] at there; cases there
      | some next =>
          rw [listed] at there
          cases there
          exact ih stands (.down passed listed) (by simp) ⟨_, rfl⟩

/-! ### Names below a path -/

theorem go_append_slash (first second : List Char) :
    namesOf.go (first ++ '/' :: second) = namesOf.go first ++ namesOf.go second := by
  have filled : ∀ characters, namesOf.go characters ≠ [] := by
    intro characters
    fun_cases namesOf.go characters <;> simp
  induction first with
  | nil =>
      rcases List.exists_cons_of_ne_nil (filled second) with ⟨name, names, shape⟩
      simp [namesOf.go, shape]
  | cons character first ih =>
      rcases List.exists_cons_of_ne_nil (filled first) with ⟨name, names, shape⟩
      simp only [List.cons_append, namesOf.go, ih, shape]
      split <;> rfl

theorem go_of_not_mem {characters : List Char} (plain : '/' ∉ characters) :
    namesOf.go characters = [characters] := by
  induction characters with
  | nil => rfl
  | cons character characters ih =>
      rw [List.mem_cons, not_or] at plain
      rw [namesOf.go, ih plain.2]
      exact if_neg (Ne.symm plain.1)

/-- A name that an entry of a folder can have, other than the dots. -/
structure Plain (name : String) : Prop where
  slashes : '/' ∉ name.toList
  named : ¬(name = "" ∨ name = ".")
  proper : name ≠ ".."
  short : (Bytes.ofString name).length ≤ nameLimit

theorem checkPath_eq_ok_iff {path : String} :
    checkPath path = .ok () ↔ '\x00' ∉ path.toList ∧ path ≠ "" ∧
      (Bytes.ofString path).length < pathLimit := by
  simp only [checkPath, guard_eq_ok_iff, guard_eq_ok_iff', List.contains_iff_mem, Nat.not_le, ne_eq]

section Join

variable {root name : String}

theorem relative_of_not_mem (slashes : '/' ∉ name.toList) : isAbsolute name = false := by
  cases shape : name.toList with
  | nil => simp [isAbsolute, shape]
  | cons character rest =>
      have other : character ≠ '/' := by
        rintro rfl
        exact slashes (shape ▸ List.mem_cons_self)
      simpa [isAbsolute, shape] using other

theorem join_eq_of_not_mem (slashes : '/' ∉ name.toList) (given : root ≠ "") :
    join root name =
      if root.toList.getLast? = some '/' then root ++ name else root ++ "/" ++ name := by
  simp [join, relative_of_not_mem slashes, given]

theorem namesOf_join_of_not_mem (slashes : '/' ∉ name.toList) (given : root ≠ "") :
    ∃ names, namesOf (join root name) = names ++ [name] ∧
      (namesOf root = names ∨ namesOf root = names ++ [""]) := by
  rw [join_eq_of_not_mem slashes given]
  split
  · rename_i slashed
    rcases List.getLast?_eq_some_iff.mp slashed with ⟨front, shape⟩
    refine ⟨(namesOf.go front).map String.ofList, ?_, .inr ?_⟩
    · rw [namesOf, String.toList_append, shape, List.append_assoc, List.singleton_append,
        go_append_slash, go_of_not_mem slashes, List.map_append, List.map_singleton,
        String.ofList_toList]
    · rw [namesOf, shape, go_append_slash, List.map_append]
      rfl
  · refine ⟨namesOf root, ?_, .inl rfl⟩
    have parts : (root ++ "/" ++ name).toList = root.toList ++ '/' :: name.toList := by simp
    rw [namesOf, parts, go_append_slash, go_of_not_mem slashes, List.map_append,
      List.map_singleton, String.ofList_toList]
    rfl

theorem backwards_namesOf {path : String} {names : List String}
    (parts : namesOf path = names ++ [name]) (filled : name ≠ "") :
    (namesOf path).reverse.dropWhile (· = "") = name :: names.reverse := by
  rw [parts, List.reverse_append, List.reverse_singleton, List.singleton_append,
    List.dropWhile_cons_of_neg (by simpa using filled)]

theorem Plain.join_eq (plain : Plain name) (given : root ≠ "") :
    join root name =
      if root.toList.getLast? = some '/' then root ++ name else root ++ "/" ++ name :=
  join_eq_of_not_mem plain.slashes given

theorem Plain.namesOf_join (plain : Plain name) (given : root ≠ "") :
    ∃ names, namesOf (join root name) = names ++ [name] ∧
      (namesOf root = names ∨ namesOf root = names ++ [""]) :=
  namesOf_join_of_not_mem plain.slashes given

theorem Plain.isAbsolute_join (plain : Plain name) (given : root ≠ "") :
    isAbsolute (join root name) = isAbsolute root := by
  have filled : root.toList ≠ [] := by simpa using given
  have front : ∀ rest, isAbsolute (root ++ rest) = isAbsolute root := by
    intro rest
    rw [isAbsolute, isAbsolute, String.toList_append, List.head?_append, Option.or_of_isSome]
    exact List.isSome_head?.mpr filled
  rw [plain.join_eq given]
  split
  · exact front name
  · rw [String.append_assoc]
    exact front ("/" ++ name)

theorem Plain.not_slashed_join (plain : Plain name) (given : root ≠ "") :
    (join root name).toList.getLast? ≠ some '/' := by
  have filled : name.toList ≠ [] := by
    intro empty
    exact plain.named (.inl (by simpa using empty))
  have back : ∀ rest : String, (rest ++ name).toList.getLast? = name.toList.getLast? := by
    intro rest
    rw [String.toList_append, List.getLast?_append, Option.or_of_isSome]
    exact List.getLast?_isSome.mpr filled
  intro slashed
  refine plain.slashes (List.mem_of_getLast? ?_)
  rw [plain.join_eq given] at slashed
  split at slashed
  · rwa [back] at slashed
  · rwa [back] at slashed

end Join

/-! ### A folder and its entries -/

/-- A folder that is found by a relative path, at a place and with some entries. -/
structure Shows (tree : FileTree) (root : String) (place : List String)
    (entries : List (String × FileTree)) : Prop where
  relative : isAbsolute root = false
  valid : checkPath root = .ok ()
  leads : Leads tree [] (namesOf root) place
  stands : standing place tree = some (folder entries)

theorem leads_of_append_empty {tree : FileTree} {place names target : List String} {last : String}
    (empty : last = "") (leads : Leads tree place (names ++ [last]) target) :
    Leads tree place names target := by
  induction names generalizing place with
  | nil =>
      cases leads with
      | stay _ rest =>
          cases rest
          exact .arrive
      | up => exact absurd empty (by decide)
      | down named => exact absurd (.inl empty) named
  | cons name names ih =>
      cases leads with
      | stay same rest => exact .stay same (ih rest)
      | up rest => exact .up (ih rest)
      | down named proper short there rest => exact .down named proper short there (ih rest)

theorem walk_append {above : List (String × FileTree)} {here : FileTree}
    {names place : List String} {entries : List (String × FileTree)} {name : String}
    (plain : Plain name) (found : walk above here names = .ok (place, folder entries)) :
    walk above here (names ++ [name]) =
      ((folder entries).child name).map fun next => (place ++ [name], next) := by
  induction names generalizing above here with
  | nil =>
      cases found
      rw [List.nil_append, walk_folder, if_neg plain.named, if_neg plain.proper]
      cases (folder entries).child name with
      | error fault => rfl
      | ok next => simp [walk, Except.map]
  | cons step names ih =>
      rcases exists_folder_of_walk found with ⟨others, rfl⟩
      rw [List.cons_append, walk_folder]
      rw [walk_folder] at found
      split at found
      · rename_i same
        rw [if_pos same]
        exact ih found
      · rename_i named
        rw [if_neg named]
        split at found
        · rename_i upwards
          rw [if_pos upwards]
          cases above with
          | nil => exact ih found
          | cons parent above => exact ih found
        · rename_i proper
          rw [if_neg proper]
          cases reached : (folder others).child step with
          | error fault =>
              rw [reached] at found
              cases found
          | ok next =>
              rw [reached] at found
              exact ih found

theorem child_folder {name : String} (plain : Plain name) (entries : List (String × FileTree)) :
    (folder entries).child name =
      match entries.lookup name with
      | some entry => .ok entry
      | none => .error .missing := by
  have short : ¬nameLimit < (Bytes.ofString name).length := Nat.not_lt.mpr plain.short
  cases listed : entries.lookup name with
  | none => simp only [child, if_neg short, listed]
  | some entry => simp only [child, if_neg short, listed]

theorem exists_shows_of_find {tree : FileTree} {root : String}
    {entries : List (String × FileTree)} (relative : isAbsolute root = false)
    (found : tree.find root = .ok (folder entries)) : ∃ place, tree.Shows root place entries := by
  rw [find, bind_unit_eq_ok_iff, relative] at found
  rcases found with ⟨valid, found⟩
  rcases bind_eq_ok_iff.mp found with ⟨⟨place, here⟩, walked, found⟩
  cases found
  rcases leads_of_walk .root walked with ⟨leads, stands⟩
  exact ⟨place, relative, valid, leads, stands⟩

namespace Shows

variable {tree : FileTree} {root name : String} {place : List String}
  {entries : List (String × FileTree)}

theorem given (shown : tree.Shows root place entries) : root ≠ "" :=
  (checkPath_eq_ok_iff.mp shown.valid).2.1

theorem exists_folder (shown : tree.Shows root place entries) : ∃ others, tree = folder others :=
  exists_folder_of_hasFolder ⟨entries, shown.stands⟩

theorem find (shown : tree.Shows root place entries) : tree.find root = .ok (folder entries) := by
  have walked := walk_of_leads shown.leads shown.stands .root rfl shown.exists_folder
  simp only [FileTree.find, shown.valid, shown.relative, walked, bind, Except.bind, pure,
    Except.pure]
  rfl

theorem walk_names (shown : tree.Shows root place entries) (plain : Plain name) :
    ∃ names, namesOf (join root name) = names ++ [name] ∧
      walk [] tree names = .ok (place, folder entries) := by
  rcases plain.namesOf_join shown.given with ⟨names, parts, whole⟩
  have leads := shown.leads
  refine ⟨names, parts, walk_of_leads ?_ shown.stands .root rfl shown.exists_folder⟩
  rcases whole with same | slashed
  · exact same ▸ leads
  · rw [slashed] at leads
    exact leads_of_append_empty rfl leads

/-- What is found below a shown folder are its entries. -/
theorem find_join (shown : tree.Shows root place entries) (plain : Plain name)
    (admitted : checkPath (join root name) = .ok ()) :
    tree.find (join root name) =
      match entries.lookup name with
      | some entry => .ok entry
      | none => .error .missing := by
  rcases shown.walk_names plain with ⟨names, parts, walked⟩
  simp only [FileTree.find, admitted, plain.isAbsolute_join shown.given, shown.relative, parts,
    walk_append plain walked, child_folder plain, bind, Except.bind, pure, Except.pure]
  cases entries.lookup name <;> rfl

theorem locate_join (shown : tree.Shows root place entries) (plain : Plain name)
    (admitted : checkPath (join root name) = .ok ()) :
    tree.locate (join root name) = .ok (.entry place name false (entries.lookup name)) := by
  rcases shown.walk_names plain with ⟨names, parts, walked⟩
  have unslashed := plain.not_slashed_join shown.given
  have backwards := backwards_namesOf parts fun empty => plain.named (.inl empty)
  simp only [FileTree.locate, admitted, plain.isAbsolute_join shown.given, shown.relative,
    backwards, List.tail_cons, List.reverse_reverse, List.head?_cons, walked, bind, Except.bind,
    pure, Except.pure, Bool.false_eq_true, if_false]
  have notDot : name ≠ "." := fun same => plain.named (.inr same)
  split
  · contradiction
  · contradiction
  · rename_i same
    cases same
    exact absurd rfl notDot
  · rename_i same
    cases same
    exact absurd rfl plain.proper
  · rename_i last
    cases last
    rw [child_folder plain, decide_eq_false unslashed]
    cases entries.lookup name with
    | some entry => rfl
    | none => rfl

theorem put (shown : tree.Shows root place entries)
    (unfilled : ∀ inner, entries.lookup name ≠ some (folder inner)) (entry : Option FileTree) :
    (tree.put name entry place).Shows root place (putEntry name entry entries) := by
  have kept : ∀ inner, standing (place ++ [name]) tree ≠ some (folder inner) := by
    intro inner stands
    rw [standing_append, shown.stands, Option.bind_some, standing] at stands
    cases listed : entries.lookup name with
    | none => simp [listed] at stands
    | some next =>
        rw [listed] at stands
        cases stands
        exact unfilled inner listed
  exact ⟨shown.relative, shown.valid, shown.leads.mono fun _ there => there.put kept entry,
    standing_put shown.stands name entry⟩

theorem write_join (shown : tree.Shows root place entries) (plain : Plain name)
    (admitted : checkPath (join root name) = .ok ())
    (unfilled : ∀ inner, entries.lookup name ≠ some (folder inner)) (content : Bytes) :
    tree.write (join root name) content = .ok (tree.put name (some (file content)) place) := by
  rw [FileTree.write, shown.locate_join plain admitted]
  cases listed : entries.lookup name with
  | none => rfl
  | some entry =>
      cases entry with
      | file _ => rfl
      | folder inner => exact absurd listed (unfilled inner)

theorem removeFile_join (shown : tree.Shows root place entries) (plain : Plain name)
    (admitted : checkPath (join root name) = .ok ()) {content : Bytes}
    (listed : entries.lookup name = some (file content)) :
    tree.removeFile (join root name) = .ok (tree.put name none place) := by
  rw [FileTree.removeFile, shown.locate_join plain admitted, listed]
  rfl

/-- A file in a shown folder is moved to another name there. -/
theorem exists_rename_join {source target : String} (shown : tree.Shows root place entries)
    (plain : Plain source) (plain' : Plain target)
    (admitted : checkPath (join root source) = .ok ())
    (admitted' : checkPath (join root target) = .ok ()) {content : Bytes}
    (listed : entries.lookup source = some (file content))
    (unfilled : ∀ inner, (putEntry source none entries).lookup target ≠ some (folder inner)) :
    ∃ renamed, tree.rename (join root source) (join root target) = .ok renamed ∧
      renamed.Shows root place
        (putEntry target (some (file content)) (putEntry source none entries)) := by
  have unfilled' : ∀ inner, entries.lookup source ≠ some (folder inner) := by simp [listed]
  have removed := shown.put unfilled' none
  refine ⟨_, ?_, removed.put unfilled (some (file content))⟩
  simp only [FileTree.rename, shown.find_join plain admitted, listed,
    shown.removeFile_join plain admitted listed, removed.write_join plain' admitted' unfilled, bind,
    Except.bind, pure, Except.pure]

end Shows

/-- A name under which a file can be written is not too long. -/
theorem short_of_write {tree after : FileTree} {root name : String} {content : Bytes}
    (slashes : '/' ∉ name.toList) (filled : name ≠ "") (given : root ≠ "")
    (written : tree.write (join root name) content = .ok after) :
    (Bytes.ofString name).length ≤ nameLimit := by
  rcases namesOf_join_of_not_mem slashes given with ⟨names, parts, _⟩
  have backwards := backwards_namesOf parts filled
  rcases bind_eq_ok_iff.mp written with ⟨spot, located, written⟩
  rw [locate, bind_unit_eq_ok_iff] at located
  rcases located with ⟨_, located⟩
  split at located
  · rcases bind_unit_eq_ok_iff.mp located with ⟨_, located⟩
    cases located
    cases written
  · dsimp only at located
    rw [backwards] at located
    rcases bind_eq_ok_iff.mp located with ⟨⟨place, parent⟩, _, located⟩
    apply Nat.not_lt.mp
    intro long
    have refused : ∀ entries, child name (folder entries) = .error .nameTooLong := by
      intro entries
      rw [child, if_pos long]
    -- Whatever the folder is, it has no place for the name: the path leads to no entry.
    split at located
    · cases located
    · cases located
      cases written
    · cases located
      cases written
    · cases located
      cases written
    · rename_i last
      cases last
      rename_i inside _ _
      rw [inside, refused] at located
      cases located

section Found

variable {tree : FileTree} {root name : String} {entries : List (String × FileTree)}

theorem steps_join (plain : Plain name) (given : root ≠ "") :
    name ∈ steps (join root name) := by
  rcases plain.namesOf_join given with ⟨names, parts, _⟩
  have named := plain.named
  rw [not_or] at named
  simp [steps, parts, named]

/--
What is found below a folder are its entries. An absolute path may lead to a folder, too, but
nothing is found below it.
-/
theorem find_join_of_find (found : tree.find root = .ok (folder entries)) (plain : Plain name)
    (admitted : checkPath (join root name) = .ok ()) :
    tree.find (join root name) =
      match entries.lookup name with
      | some entry => .ok entry
      | none => .error .missing := by
  cases absolute : isAbsolute root with
  | false =>
      rcases exists_shows_of_find absolute found with ⟨place, shown⟩
      exact shown.find_join plain admitted
  | true =>
      rw [find, bind_unit_eq_ok_iff, if_pos absolute, bind_unit_eq_ok_iff] at found
      rcases found with ⟨valid, _, found⟩
      cases found
      have given := (checkPath_eq_ok_iff.mp valid).2.1
      have refused : checkRoot (join root name) = .error .missing := by
        rw [checkRoot, if_neg]
        intro upwards
        have last := List.all_eq_true.mp upwards name (steps_join plain given)
        exact plain.proper (of_decide_eq_true last)
      simp only [find, admitted, plain.isAbsolute_join given, absolute, refused, bind, Except.bind,
        if_true]
      rfl

end Found

end Missive.FileTree
