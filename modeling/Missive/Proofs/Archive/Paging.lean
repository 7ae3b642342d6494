import Mathlib.Data.Finset.Card
import Mathlib.Data.Finset.Dedup
import Mathlib.Data.List.TakeWhile
import Missive.Proofs.Archive.Acceptance

/-!
# Paging through a history

A reader who wants all message numbers asks for a page, and then for the next one below the last
number of the page before, until a page is not full. `Paging` is such a run. Both enumerations
that go downwards serve it (`Archive.paging_complete`): the run ends, it takes no page more than
needed, and its pages are the history, cut into pieces.

A run needs one thing of an enumeration: below a number of the history it goes on with what
comes after this number (`exists_paging`).
-/

namespace Missive

/--
The pages that a reader gets, the first of which is given: a full page is followed by the page
below its last number. A request that fails belongs to no run.
-/
inductive Paging (next : UInt64 → Except Error (List UInt64)) (count : Nat) :
    (page : Except Error (List UInt64)) → (pages : List (List UInt64)) → Prop where
  | last {page : List UInt64} (short : page.length < count) : Paging next count (.ok page) [page]
  | more {page : List UInt64} {number : UInt64} {pages : List (List UInt64)}
    (full : count ≤ page.length) (lowest : page.getLast? = some number)
    (rest : Paging next count (next number) pages) : Paging next count (.ok page) (page :: pages)

namespace Paging

variable {next : UInt64 → Except Error (List UInt64)} {count : Nat}

theorem unique {page : Except Error (List UInt64)} {pages others : List (List UInt64)}
    (run : Paging next count page pages) (other : Paging next count page others) :
    pages = others := by
  induction run generalizing others with
  | last short =>
      cases other with
      | last _ => rfl
      | more full _ _ => omega
  | more full lowest _ ih =>
      cases other with
      | last short => omega
      | more _ lowest' rest =>
          rw [lowest] at lowest'
          cases lowest'
          rw [ih rest]

/--
A run over numbers in a row. Whatever part of them is left, the pages from there on are that
part, as many as there are full pages in it and one more.
-/
theorem exists_paging {numbers : List UInt64} (positive : 0 < count)
    (following : ∀ front number back, numbers = front ++ number :: back →
      next number = .ok (back.take count)) (front back : List UInt64)
    (whole : numbers = front ++ back) :
    ∃ pages, Paging next count (.ok (back.take count)) pages ∧
      pages.length = back.length / count + 1 ∧ pages.flatten = back := by
  by_cases short : back.length < count
  · refine ⟨[back], ?_, ?_, by simp⟩
    · rw [List.take_of_length_le (Nat.le_of_lt short)]
      exact last short
    · simp [Nat.div_eq_of_lt short]
  · have long : count ≤ back.length := Nat.not_lt.mp short
    have full : (back.take count).length = count := List.length_take_of_le long
    cases lowest : (back.take count).getLast? with
    | none =>
        rw [List.getLast?_eq_none_iff] at lowest
        simp [lowest] at full
        omega
    | some number =>
        rcases List.getLast?_eq_some_iff.mp lowest with ⟨earlier, page⟩
        have shape : numbers = (front ++ earlier) ++ number :: back.drop count := by
          rw [whole]
          nth_rewrite 1 [← List.take_append_drop count back]
          simp [page]
        have shape' : numbers = (front ++ back.take count) ++ back.drop count := by
          simp [whole]
        rcases exists_paging positive following (front ++ back.take count) (back.drop count) shape'
          with ⟨pages, run, counted, rest⟩
        refine ⟨back.take count :: pages, ?_, ?_, ?_⟩
        · apply more (Nat.le_of_eq full.symm) lowest
          rw [following _ _ _ shape]
          exact run
        · rw [List.length_cons, counted, List.length_drop, Nat.div_eq_sub_div positive long]
        · rw [List.flatten_cons, rest, List.take_append_drop]
  termination_by back.length
  decreasing_by
    rw [List.length_drop]
    omega

end Paging

/-! ### The enumerations -/

namespace History

variable {history : History} {front back : List UInt64} {number : UInt64}

theorem split_descending (whole : history.numbers = front ++ number :: back) :
    (∀ earlier ∈ front, number < earlier) ∧ ∀ later ∈ back, later < number := by
  have descending := history.descending
  rw [whole, List.pairwise_append, List.pairwise_cons] at descending
  rcases descending with ⟨_, ⟨after, _⟩, across⟩
  exact ⟨fun earlier member => across earlier member number List.mem_cons_self, after⟩

theorem below_of_split (whole : history.numbers = front ++ number :: back) :
    history.below number false = back := by
  rcases split_descending whole with ⟨earlier, later⟩
  have skipped : ∀ other ∈ front ++ [number], (!isBelow number false other) = true := by
    intro other member
    simp only [isBelow, Bool.false_and, Bool.or_false, Bool.not_eq_true', decide_eq_false_iff_not]
    rcases List.mem_append.mp member with before | same
    · exact UInt64.lt_asymm (earlier other before)
    · rw [List.mem_singleton.mp same]
      exact UInt64.lt_irrefl number
  have kept : back.dropWhile (fun other => !isBelow number false other) = back := by
    rw [List.dropWhile_eq_self_iff]
    intro nonempty
    simp [isBelow, later _ (List.getElem_mem nonempty)]
  have shape : history.numbers = (front ++ [number]) ++ back := by simp [whole]
  rw [below, shape, List.dropWhile_append_of_pos skipped, kept]

/-- The highest number that a message can have. -/
def highest : UInt64 := 18446744073709551615

theorem below_highest (history : History) : history.below highest true = history.numbers := by
  rw [below, List.dropWhile_eq_self_iff]
  intro nonempty
  have bound : history.numbers[0] ≤ highest := by
    rw [UInt64.le_iff_toNat_le]
    have small := (history.numbers[0]).toNat_lt
    simp only [highest, UInt64.reduceToNat]
    omega
  rcases UInt64.lt_or_eq_of_le bound with less | same
  · simp [isBelow, less]
  · simp [isBelow, same]

/-- The numbers from one on that are not below a bound. -/
theorem within_of_split {low : UInt64}
    (whole : history.numbers.takeWhile (isAbove low true) = front ++ number :: back) :
    history.within ⟨number, false, low, true, true⟩ = back := by
  rcases List.takeWhile_prefix (isAbove low true) (l := history.numbers) with ⟨beyond, shape⟩
  rw [whole, List.append_assoc, List.cons_append] at shape
  rw [within, below_of_split shape.symm]
  have above : ∀ other ∈ front ++ [number], isAbove low true other = true := by
    intro other member
    apply List.mem_takeWhile_imp
    rw [whole, List.append_cons]
    exact List.mem_append_left back member
  have cut := whole
  rw [← shape, List.append_cons, List.takeWhile_append_of_pos above, ← List.append_cons] at cut
  simpa using cut

theorem takeWhile_isAbove (history : History) (low : UInt64) :
    history.numbers.takeWhile (isAbove low true) = history.numbers.filter (low ≤ ·) := by
  rcases history with ⟨numbers, descending⟩
  dsimp only
  induction numbers with
  | nil => rfl
  | cons first rest ih =>
      rw [List.pairwise_cons] at descending
      have above : isAbove low true first = decide (low ≤ first) := by
        simp only [isAbove, Bool.true_and, UInt64.le_iff_lt_or_eq, Bool.decide_or, eq_comm]
      by_cases inside : low ≤ first
      · simp [above, inside, ih descending.2]
      · have beyond : ∀ later ∈ rest, ¬low ≤ later := by
          intro later member below
          exact inside (UInt64.le_of_lt (UInt64.lt_of_le_of_lt below (descending.1 later member)))
        simp only [List.takeWhile_cons, above, inside, decide_false, Bool.false_eq_true, if_false]
        symm
        rw [List.filter_eq_nil_iff, List.forall_mem_cons]
        simpa [inside] using beyond

end History

namespace Paging

variable {next : UInt64 → Except Error (List UInt64)} {count : Nat}
  {first : Except Error (List UInt64)}

/--
The pages of the only run there is: every one of some numbers once, in descending order, and as
many pages as can be filled with them and one more.
-/
structure Exhausts (next : UInt64 → Except Error (List UInt64)) (count : Nat)
    (first : Except Error (List UInt64)) (numbers : Finset UInt64)
    (pages : List (List UInt64)) : Prop where
  run : Paging next count first pages
  only : ∀ others, Paging next count first others → others = pages
  length : pages.length = numbers.card / count + 1
  descending : pages.flatten.Pairwise fun earlier later => later < earlier
  members : ∀ number, number ∈ pages.flatten ↔ number ∈ numbers

theorem exists_exhausts {numbers : List UInt64} (positive : 0 < count)
    (descending : numbers.Pairwise fun earlier later => later < earlier)
    (start : first = .ok (numbers.take count))
    (following : ∀ front number back, numbers = front ++ number :: back →
      next number = .ok (back.take count)) {listed : Finset UInt64}
    (members : ∀ number, number ∈ numbers ↔ number ∈ listed) :
    ∃ pages, Exhausts next count first listed pages := by
  rcases exists_paging positive following [] numbers rfl with ⟨pages, run, counted, whole⟩
  rw [← start] at run
  have distinct : numbers.Nodup := by
    refine descending.imp ?_
    rintro earlier _ less rfl
    exact UInt64.lt_irrefl earlier less
  have same : listed = numbers.toFinset := by
    ext number
    rw [List.mem_toFinset, members]
  refine ⟨pages, run, fun others other => other.unique run, ?_, ?_, ?_⟩
  · rw [counted, same, List.toFinset_card_of_nodup distinct]
  · rw [whole]
    exact descending
  · rw [whole]
    exact members

end Paging

namespace Archive

variable {source : Source} {engines : Engines} {settings : ContentSettings} {archive : Archive}
  {listed : List UInt64} {count : Nat}

theorem mem_history_of_ofSource (opened : ofSource source engines settings = .ok archive)
    (known : source.numbers = .ok listed) (number : UInt64) :
    number ∈ archive.history.numbers ↔ number ∈ listed := by
  rcases ofSource_eq_ok_iff.mp opened with ⟨_, numbers, known', rfl⟩
  rw [known] at known'
  cases known'
  simp only [History.ofNumbers, History.mem_foldl_insert]
  simp [History.empty]

/--
Paging downwards gives every message once, and ends with the first page that is not full. This
holds from the newest message on, and also above any lowest number. The numbers of the source
may be in any order, and numbers that it repeats count once.
-/
theorem paging_complete (opened : ofSource source engines settings = .ok archive)
    (known : source.numbers = .ok listed) (positive : 0 < count)
    (admitted : History.checkPage settings.maxPageSize count = .ok ()) :
    (∃ pages, Paging.Exhausts (fun number => archive.before number count false) count
      (archive.tail count) listed.toFinset pages) ∧
    ∀ low, ∃ pages, Paging.Exhausts
      (fun number => archive.between ⟨number, false, low, true, true⟩ count) count
      (archive.between ⟨History.highest, true, low, true, true⟩ count)
      (listed.toFinset.filter (low ≤ ·)) pages := by
  have members := mem_history_of_ofSource opened known
  have admitted' : History.checkPage archive.settings.maxPageSize count = .ok () := by
    rcases ofSource_eq_ok_iff.mp opened with ⟨_, _, _, rfl⟩
    exact admitted
  constructor
  · apply Paging.exists_exhausts positive archive.history.descending
    · simp only [tail, admitted', bind, Except.bind, pure, Except.pure, History.tail]
    · intro front number back whole
      simp only [before, admitted', bind, Except.bind, pure, Except.pure, History.before,
        History.below_of_split whole]
    · simpa using members
  · intro low
    have above := archive.history.takeWhile_isAbove low
    have descending : (archive.history.numbers.takeWhile (History.isAbove low true)).Pairwise
        fun earlier later => later < earlier :=
      archive.history.descending.sublist (List.takeWhile_sublist _)
    apply Paging.exists_exhausts positive descending
    · simp only [between, admitted', bind, Except.bind, pure, Except.pure, History.between,
        History.within, History.below_highest, if_true]
    · intro front number back whole
      simp only [between, admitted', bind, Except.bind, pure, Except.pure, History.between,
        History.within_of_split whole, if_true]
    · simp [above, members]

/-- Four messages, two a page, as many as the settings admit: the third page is empty. -/
theorem paging_complete_twos :
    ∃ (store : MemoryStore) (archive : Archive),
      ofSource store.source .standard { maxPageSize := some 2 } = .ok archive ∧
      store.source.numbers = .ok [0, 18446744073709551615, 7, 3] ∧ (0 < 2) ∧
      History.checkPage (some 2) 2 = .ok () ∧
      (∃ pages, Paging.Exhausts (fun number => archive.before number 2 false) 2 (archive.tail 2)
        {0, 18446744073709551615, 7, 3} pages ∧ pages.length = 3) ∧
      ∃ pages, Paging.Exhausts (fun number => archive.between ⟨number, false, 3, true, true⟩ 2) 2
        (archive.between ⟨History.highest, true, 3, true, true⟩ 2)
        {18446744073709551615, 7, 3} pages ∧ pages.length = 2 := by
  let store : MemoryStore :=
    ⟨[0, 18446744073709551615, 7, 3].map fun number => (number, ⟨[], []⟩)⟩
  have opened : ∃ archive, ofSource store.source .standard { maxPageSize := some 2 } =
      .ok archive := ⟨_, rfl⟩
  rcases opened with ⟨archive, opened⟩
  have positive : 0 < 2 := by decide
  rcases paging_complete opened rfl positive rfl with ⟨⟨pages, whole⟩, above⟩
  rcases above 3 with ⟨part, upper⟩
  have three : pages.length = 3 := whole.length.trans (by decide)
  have two : part.length = 2 := upper.length.trans (by decide)
  exact ⟨store, archive, opened, rfl, positive, rfl, ⟨pages, whole, three⟩, part, upper, two⟩

end Archive

end Missive
