import Mathlib.Data.Finset.Sort
import Missive.Proofs.Archive.Paging

/-!
# What an enumeration gives

An enumeration is a piece of a sorted set. The numbers that lie within the bounds are put in
order, and as many as were asked for are taken from the preferred end (`selection`). This holds
of all bounds, also of those that leave no room for a number. A count above the page limit is
refused, and so an answer is short only if nothing has been left out (`Enumerates`).

An ordered set has no answer for some pairs of bounds (`History.range?`). Such pairs are sorted
out in advance, and a few more for which the answer is known to be empty, so every lookup that is
made has one (`History.lookup?_eq`).
-/

namespace Missive

/-- So many numbers from one end of a set, the highest one first. -/
def selection (matching : Finset UInt64) (count : Nat) (latest : Bool) : List UInt64 :=
  if latest then (matching.sort (· ≥ ·)).take count
  else ((matching.sort (· ≤ ·)).take count).reverse

/-- What an enumeration of the matching numbers answers under a page limit. -/
structure Enumerates (limit : Option Nat) (matching : Finset UInt64) (count : Nat)
    (latest : Bool) (answer : Except Error (List UInt64)) : Prop where
  selected : (∀ bound ∈ limit, count ≤ bound) → answer = .ok (selection matching count latest)
  refused : ∀ bound ∈ limit, bound < count → answer = .error (.pageSize count bound)
  length : ∀ numbers, answer = .ok numbers → numbers.length = min count matching.card
  exhausted : ∀ numbers, answer = .ok numbers → numbers.length < count →
    ∀ number, number ∈ numbers ↔ number ∈ matching

section

variable {matching : Finset UInt64} {numbers : List UInt64} {count : Nat} {latest : Bool}

theorem pairwise_sort_descending (matching : Finset UInt64) :
    (matching.sort (· ≥ ·)).Pairwise fun earlier later => later < earlier := by
  apply ((matching.pairwise_sort (· ≥ ·)).and (matching.sort_nodup (· ≥ ·))).imp
  rintro earlier later ⟨above, different⟩
  exact UInt64.lt_of_le_of_ne above different.symm

/-- Numbers in descending order are the sorted ones of any set with the same members. -/
theorem eq_sort_of_descending (matching : Finset UInt64)
    (descending : numbers.Pairwise fun earlier later => later < earlier)
    (members : ∀ number, number ∈ numbers ↔ number ∈ matching) :
    numbers = matching.sort (· ≥ ·) := by
  have : Std.Irrefl fun earlier later : UInt64 => later < earlier := ⟨UInt64.lt_irrefl⟩
  have : Std.Antisymm fun earlier later : UInt64 => later < earlier :=
    ⟨fun _ _ below above => absurd above (UInt64.lt_asymm below)⟩
  apply descending.eq_of_mem_iff (pairwise_sort_descending matching)
  simpa using members

theorem sort_ascending (matching : Finset UInt64) :
    matching.sort (· ≤ ·) = (matching.sort (· ≥ ·)).reverse := by
  have descending : (matching.sort (· ≤ ·)).reverse.Pairwise
      fun earlier later => later < earlier := by
    apply List.pairwise_reverse.mpr
    apply ((matching.pairwise_sort (· ≤ ·)).and (matching.sort_nodup (· ≤ ·))).imp
    rintro earlier later ⟨below, different⟩
    exact UInt64.lt_of_le_of_ne below different
  have same := eq_sort_of_descending matching descending (by simp)
  simpa using congrArg List.reverse same

theorem length_selection (matching : Finset UInt64) (count : Nat) (latest : Bool) :
    (selection matching count latest).length = min count matching.card := by
  cases latest <;> simp [selection]

theorem mem_selection_of_short (short : (selection matching count latest).length < count)
    (number : UInt64) : number ∈ selection matching count latest ↔ number ∈ matching := by
  have few : matching.card ≤ count := by
    rw [length_selection] at short
    omega
  cases latest <;> simp [selection, List.take_of_length_le, few]

/-- From either end, the numbers are cut off a descending list. -/
theorem selection_eq (ordered : numbers = matching.sort (· ≥ ·)) (count : Nat) (latest : Bool) :
    (if latest then numbers.take count else numbers.drop (numbers.length - count)) =
      selection matching count latest := by
  cases latest with
  | true => simp [selection, ordered]
  | false => simp [selection, ordered, sort_ascending, List.take_reverse]

theorem enumerates_of_eq_selection {limit : Option Nat}
    (found : numbers = selection matching count latest) :
    Enumerates limit matching count latest (do
      History.checkPage limit count
      return numbers) := by
  have answered : ∀ page, (do History.checkPage limit count; return numbers) = .ok page →
      page = selection matching count latest := by
    intro page given
    rcases bind_unit_eq_ok_iff.mp given with ⟨_, same⟩
    exact (Except.ok.inj same).symm.trans found
  refine ⟨?_, ?_, ?_, ?_⟩
  · intro admitted
    have passed : History.checkPage limit count = .ok () := by
      cases limit with
      | none => rfl
      | some bound => simpa [History.checkPage] using admitted bound rfl
    simp [passed, found, bind, Except.bind, pure, Except.pure]
  · intro bound known above
    cases known
    simp [History.checkPage, above, bind, Except.bind]
  · intro page given
    rw [answered page given, length_selection]
  · intro page given short
    rw [answered page given] at short ⊢
    exact mem_selection_of_short short

end

namespace History

/-- Whether a number is under a bound, or at it if the bound is included. -/
def Under (bound : UInt64) (inclusive : Bool) (number : UInt64) : Prop :=
  if inclusive then number ≤ bound else number < bound

/-- Whether a number is over a bound, or at it if the bound is included. -/
def Over (bound : UInt64) (inclusive : Bool) (number : UInt64) : Prop :=
  if inclusive then bound ≤ number else bound < number

/-- Whether a number lies within bounds. -/
def Span.Admits (span : Span) (number : UInt64) : Prop :=
  Under span.high span.includesHigh number ∧ Over span.low span.includesLow number

instance (bound : UInt64) (inclusive : Bool) : DecidablePred (Under bound inclusive) :=
  fun number => inferInstanceAs (Decidable (if inclusive then number ≤ bound else number < bound))

instance (bound : UInt64) (inclusive : Bool) : DecidablePred (Over bound inclusive) :=
  fun number => inferInstanceAs (Decidable (if inclusive then bound ≤ number else bound < number))

instance (span : Span) : DecidablePred span.Admits := fun number =>
  inferInstanceAs (Decidable
    (Under span.high span.includesHigh number ∧ Over span.low span.includesLow number))

/--
The numbers within bounds in ascending order, as an ordered set looks them up. It has no answer
for bounds that stand the wrong way round, nor for equal bounds that are both excluded.
-/
def range? (history : History) (span : Span) : Option (List UInt64) :=
  if span.high < span.low ∨
      span.low = span.high ∧ span.includesLow = false ∧ span.includesHigh = false then none
  else
    some (history.numbers.reverse.filter fun number =>
      isAbove span.low span.includesLow number && isBelow span.high span.includesHigh number)

/-- A lookup that does not ask for bounds between which there is no room. -/
def lookup? (history : History) (span : Span) : Option (List UInt64) :=
  if span.high < span.low ∨
      span.low = span.high ∧ ¬(span.includesLow = true ∧ span.includesHigh = true) then some []
  else history.range? span

/-! ### Bounds in a descending list -/

section

variable {numbers : List UInt64} {holds : UInt64 → Bool}

theorem takeWhile_eq_filter (descending : numbers.Pairwise fun earlier later => later < earlier)
    (upward : ∀ number other, holds number = true → number < other → holds other = true) :
    numbers.takeWhile holds = numbers.filter holds := by
  induction numbers with
  | nil => rfl
  | cons first rest ih =>
      rcases List.pairwise_cons.mp descending with ⟨below, ordered⟩
      by_cases inside : holds first = true
      · simp [inside, ih ordered]
      · have outside : ∀ later ∈ rest, ¬holds later = true := fun later member kept =>
          inside (upward later first kept (below later member))
        simp [inside, List.filter_eq_nil_iff.mpr outside]

theorem dropWhile_eq_filter (descending : numbers.Pairwise fun earlier later => later < earlier)
    (downward : ∀ number other, holds number = true → other < number → holds other = true) :
    numbers.dropWhile (fun number => !holds number) = numbers.filter holds := by
  induction numbers with
  | nil => rfl
  | cons first rest ih =>
      rcases List.pairwise_cons.mp descending with ⟨below, ordered⟩
      by_cases inside : holds first = true
      · have kept : ∀ later ∈ rest, holds later = true := fun later member =>
          downward first later inside (below later member)
        simp [inside, List.filter_eq_self.mpr kept]
      · simp [inside, ih ordered]

end

theorem isBelow_eq_true_iff {bound : UInt64} {inclusive : Bool} {number : UInt64} :
    isBelow bound inclusive number = true ↔ Under bound inclusive number := by
  cases inclusive <;> simp [isBelow, Under, UInt64.le_iff_lt_or_eq]

theorem isAbove_eq_true_iff {bound : UInt64} {inclusive : Bool} {number : UInt64} :
    isAbove bound inclusive number = true ↔ Over bound inclusive number := by
  cases inclusive <;> simp [isAbove, Over, UInt64.le_iff_lt_or_eq, eq_comm (a := number)]

theorem Under.le {bound : UInt64} {inclusive : Bool} {number : UInt64}
    (under : Under bound inclusive number) : number ≤ bound := by
  cases inclusive with
  | true => exact under
  | false => exact UInt64.le_of_lt under

theorem Over.le {bound : UInt64} {inclusive : Bool} {number : UInt64}
    (beyond : Over bound inclusive number) : bound ≤ number := by
  cases inclusive with
  | true => exact beyond
  | false => exact UInt64.le_of_lt beyond

theorem Under.of_lt {bound : UInt64} {inclusive : Bool} {number other : UInt64}
    (under : Under bound inclusive number) (less : other < number) :
    Under bound inclusive other := by
  have below : other < bound := UInt64.lt_of_lt_of_le less under.le
  cases inclusive with
  | true => exact UInt64.le_of_lt below
  | false => exact below

theorem Over.of_lt {bound : UInt64} {inclusive : Bool} {number other : UInt64}
    (beyond : Over bound inclusive number) (less : number < other) :
    Over bound inclusive other := by
  have above : bound < other := UInt64.lt_of_le_of_lt beyond.le less
  cases inclusive with
  | true => exact UInt64.le_of_lt above
  | false => exact above

theorem below_eq_filter (history : History) (bound : UInt64) (inclusive : Bool) :
    history.below bound inclusive = history.numbers.filter (isBelow bound inclusive) := by
  apply dropWhile_eq_filter history.descending
  intro number other under less
  rw [isBelow_eq_true_iff] at under ⊢
  exact under.of_lt less

theorem isAbove_and_isBelow (span : Span) (number : UInt64) :
    (isAbove span.low span.includesLow number && isBelow span.high span.includesHigh number) =
      decide (span.Admits number) := by
  rw [Bool.eq_iff_iff]
  simp [isBelow_eq_true_iff, isAbove_eq_true_iff, Span.Admits, and_comm]

theorem within_eq_filter (history : History) (span : Span) :
    history.within span = history.numbers.filter fun number => decide (span.Admits number) := by
  have descending := history.descending.sublist
    (List.filter_sublist (p := isBelow span.high span.includesHigh))
  rw [within, below_eq_filter, takeWhile_eq_filter descending, List.filter_filter]
  · simp only [isAbove_and_isBelow]
  · intro number other beyond less
    rw [isAbove_eq_true_iff] at beyond ⊢
    exact beyond.of_lt less

/-- Bounds that are not looked up have no number between them. -/
theorem Span.not_admits {span : Span} (narrow : span.high < span.low ∨
      span.low = span.high ∧ ¬(span.includesLow = true ∧ span.includesHigh = true))
    (number : UInt64) : ¬span.Admits number := by
  rintro ⟨under, beyond⟩
  rcases narrow with inverted | ⟨same, excluded⟩
  · exact UInt64.not_lt.mpr (UInt64.le_trans beyond.le under.le) inverted
  · have only : number = span.high := UInt64.le_antisymm under.le (same ▸ beyond.le)
    simp_all [Under, Over, UInt64.lt_irrefl]

/-- Every lookup has an answer, the numbers within the bounds. -/
theorem lookup?_eq (history : History) (span : Span) :
    history.lookup? span = some (history.within span).reverse := by
  rw [lookup?, within_eq_filter]
  split
  · rename_i narrow
    have none : history.numbers.filter (fun number => decide (span.Admits number)) = [] := by
      rw [List.filter_eq_nil_iff]
      intro number _
      simpa using Span.not_admits narrow number
    rw [none, List.reverse_nil]
  · rename_i wide
    have answered : ¬(span.high < span.low ∨
        span.low = span.high ∧ span.includesLow = false ∧ span.includesHigh = false) := by
      rintro (inverted | ⟨same, low, high⟩)
      · exact wide (.inl inverted)
      · exact wide (.inr ⟨same, by simp [low]⟩)
    simp only [range?, if_neg answered, isAbove_and_isBelow, List.filter_reverse]

end History

namespace Archive

open History (Under)

variable {source : Source} {engines : Engines} {settings : ContentSettings} {archive : Archive}
  {listed : List UInt64}

theorem filter_history_eq_sort (opened : ofSource source engines settings = .ok archive)
    (known : source.numbers = .ok listed) (admits : UInt64 → Prop) [DecidablePred admits] :
    archive.history.numbers.filter (fun number => decide (admits number)) =
      (listed.toFinset.filter admits).sort (· ≥ ·) := by
  apply eq_sort_of_descending _ (archive.history.descending.sublist List.filter_sublist)
  simp [mem_history_of_ofSource opened known]

/--
Every enumeration gives a selection of the numbers of the source that lie within its bounds, up to
the page limit. All bounds are looked up with success: a lookup gives the numbers within them, and
the enumeration takes its own from the preferred end.
-/
theorem enumerates_selection (opened : ofSource source engines settings = .ok archive)
    (known : source.numbers = .ok listed) :
    (∀ count, Enumerates settings.maxPageSize listed.toFinset count true (archive.tail count)) ∧
    (∀ bound inclusive count,
      Enumerates settings.maxPageSize (listed.toFinset.filter (Under bound inclusive)) count true
        (archive.before bound count inclusive)) ∧
    (∀ span count,
      Enumerates settings.maxPageSize (listed.toFinset.filter span.Admits) count
        span.prefersLatest (archive.between span count)) ∧
    ∀ span, ∃ found, archive.history.lookup? span = some found ∧
      found = (listed.toFinset.filter span.Admits).sort (· ≤ ·) ∧
      ∀ count, archive.history.between span count =
        if span.prefersLatest then found.reverse.take count else (found.take count).reverse := by
  have limit : archive.settings.maxPageSize = settings.maxPageSize := by
    rcases ofSource_eq_ok_iff.mp opened with ⟨_, _, _, rfl⟩
    rfl
  have within : ∀ span, archive.history.within span =
      (listed.toFinset.filter span.Admits).sort (· ≥ ·) := by
    intro span
    rw [History.within_eq_filter]
    exact filter_history_eq_sort opened known span.Admits
  rw [← limit]
  refine ⟨?_, ?_, ?_, ?_⟩
  · intro count
    have ordered := eq_sort_of_descending listed.toFinset archive.history.descending
      (by simp [mem_history_of_ofSource opened known])
    exact enumerates_of_eq_selection (selection_eq ordered count true)
  · intro bound inclusive count
    have ordered : archive.history.below bound inclusive =
        (listed.toFinset.filter (Under bound inclusive)).sort (· ≥ ·) := by
      rw [History.below_eq_filter, ← filter_history_eq_sort opened known]
      apply List.filter_congr
      intro number _
      rw [Bool.eq_iff_iff]
      simp [History.isBelow_eq_true_iff]
    exact enumerates_of_eq_selection (selection_eq ordered count true)
  · intro span count
    exact enumerates_of_eq_selection (selection_eq (within span) count span.prefersLatest)
  · intro span
    refine ⟨(archive.history.within span).reverse, History.lookup?_eq _ _, ?_, ?_⟩
    · rw [within, sort_ascending]
    · intro count
      simp [History.between, List.take_reverse]

/--
The two lowest numbers up to seven, a count above the limit, and bounds that an ordered set has no
answer for.
-/
theorem enumerates_selection_lowest :
    ∃ (store : MemoryStore) (archive : Archive),
      ofSource store.source .standard { maxPageSize := some 2 } = .ok archive ∧
      store.source.numbers = .ok [0, 18446744073709551615, 7, 3] ∧
      Enumerates (some 2) {0, 3, 7} 2 false (archive.between ⟨7, true, 0, true, false⟩ 2) ∧
      archive.between ⟨7, true, 0, true, false⟩ 2 = .ok [3, 0] ∧
      archive.tail 3 = .error (.pageSize 3 2) ∧
      archive.history.range? ⟨7, false, 7, false, true⟩ = none ∧
      archive.history.lookup? ⟨7, false, 7, false, true⟩ = some [] := by
  let store : MemoryStore :=
    ⟨[0, 18446744073709551615, 7, 3].map fun number => (number, ⟨[], []⟩)⟩
  have opened : ∃ archive, ofSource store.source .standard { maxPageSize := some 2 } =
      .ok archive ∧ archive.between ⟨7, true, 0, true, false⟩ 2 = .ok [3, 0] := ⟨_, rfl, by decide⟩
  rcases opened with ⟨archive, opened, lowest⟩
  have known : store.source.numbers = .ok [0, 18446744073709551615, 7, 3] := rfl
  rcases enumerates_selection opened known with ⟨tail, _, between, lookup⟩
  have matching : ([0, 18446744073709551615, 7, 3] : List UInt64).toFinset.filter
      (History.Span.Admits ⟨7, true, 0, true, false⟩) = {0, 3, 7} := by decide
  have two := between ⟨7, true, 0, true, false⟩ 2
  rw [matching] at two
  rcases lookup ⟨7, false, 7, false, true⟩ with ⟨found, answered, nothing, _⟩
  have none : ([0, 18446744073709551615, 7, 3] : List UInt64).toFinset.filter
      (History.Span.Admits ⟨7, false, 7, false, true⟩) = ∅ := by decide
  rw [none, Finset.sort_empty] at nothing
  refine ⟨store, archive, opened, known, two, lowest, (tail 3).refused 2 rfl (by decide), ?_, ?_⟩
  · simp [History.range?]
  · rw [answered, nothing]

end Archive

end Missive
