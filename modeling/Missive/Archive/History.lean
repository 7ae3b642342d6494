import Missive.Error

/-!
# Histories

The messages of an archive form a history: their numbers in strictly descending order. An
enumeration takes a page of it, from the newest number on or within bounds, and gives at most as
many numbers as were asked for; a page limit bounds what may be asked for.
-/

namespace Missive

/-- Message numbers, the highest one first. -/
structure History where
  numbers : List UInt64
  descending : numbers.Pairwise fun earlier later => later < earlier

namespace History

/-- Puts a number into its place; a number that is already there stays once. -/
def place (number : UInt64) : List UInt64 → List UInt64
  | [] => [number]
  | other :: others =>
    if other < number then number :: other :: others
    else if other = number then other :: others
    else other :: place number others

/-- Placing a number adds it. -/
theorem mem_place {number other : UInt64} {numbers : List UInt64} :
    other ∈ place number numbers ↔ other = number ∨ other ∈ numbers := by
  induction numbers with
  | nil => simp [place]
  | cons first rest ih =>
    rw [place]
    split
    · simp
    · split
      · rename_i same
        subst same
        simp
      · simp only [List.mem_cons, ih]
        constructor
        · rintro (same | same | rest)
          · exact .inr (.inl same)
          · exact .inl same
          · exact .inr (.inr rest)
        · rintro (same | same | rest)
          · exact .inr (.inl same)
          · exact .inl same
          · exact .inr (.inr rest)

/-- Placing a number keeps the order. -/
theorem descending_place {number : UInt64} {numbers : List UInt64}
    (descending : numbers.Pairwise fun earlier later => later < earlier) :
    (place number numbers).Pairwise fun earlier later => later < earlier := by
  induction numbers with
  | nil => simp [place]
  | cons first rest ih =>
    obtain ⟨above, ordered⟩ := List.pairwise_cons.mp descending
    rw [place]
    split
    · rename_i highest
      refine List.pairwise_cons.mpr ⟨fun other present => ?_, descending⟩
      rcases List.mem_cons.mp present with same | later
      · exact same ▸ highest
      · exact UInt64.lt_trans (above other later) highest
    · rename_i notHighest
      split
      · exact descending
      · rename_i different
        refine List.pairwise_cons.mpr ⟨fun other present => ?_, ih ordered⟩
        rcases mem_place.mp present with same | later
        · subst same
          exact UInt64.lt_of_le_of_ne (UInt64.not_lt.mp notHighest) (Ne.symm different)
        · exact above other later

/-- A history without messages. -/
def empty : History := ⟨[], .nil⟩

/-- Adds a number. -/
def insert (history : History) (number : UInt64) : History :=
  ⟨place number history.numbers, descending_place history.descending⟩

/-- The history of the given numbers. -/
def ofNumbers (numbers : List UInt64) : History :=
  numbers.foldl insert empty

/-- Whether a message belongs to the history. -/
def contains (history : History) (number : UInt64) : Bool :=
  number ∈ history.numbers

/-- The highest numbers. -/
def tail (history : History) (count : Nat) : List UInt64 :=
  history.numbers.take count

/-- Whether a number lies below a bound, or at it if the bound is included. -/
def isBelow (bound : UInt64) (inclusive : Bool) (number : UInt64) : Bool :=
  number < bound || (inclusive && number = bound)

/-- Whether a number lies above a bound, or at it if the bound is included. -/
def isAbove (bound : UInt64) (inclusive : Bool) (number : UInt64) : Bool :=
  bound < number || (inclusive && number = bound)

/-- The numbers below a bound. -/
def below (history : History) (bound : UInt64) (inclusive : Bool) : List UInt64 :=
  history.numbers.dropWhile fun number => !isBelow bound inclusive number

/-- The highest numbers below a bound. -/
def before (history : History) (bound : UInt64) (count : Nat) (inclusive : Bool) :
    List UInt64 :=
  (history.below bound inclusive).take count

/-- The bounds of an enumeration, and which end of it is preferred. -/
structure Span where
  high : UInt64
  includesHigh : Bool
  low : UInt64
  includesLow : Bool
  prefersLatest : Bool
  deriving DecidableEq, Repr

/-- The numbers within bounds. -/
def within (history : History) (span : Span) : List UInt64 :=
  (history.below span.high span.includesHigh).takeWhile (isAbove span.low span.includesLow)

/-- The highest or the lowest numbers within bounds, in descending order either way. -/
def between (history : History) (span : Span) (count : Nat) : List UInt64 :=
  let found := history.within span
  if span.prefersLatest then found.take count else found.drop (found.length - count)

/-- Refuses to enumerate more numbers than the page limit admits. -/
def checkPage (limit : Option Nat) (count : Nat) : Except Error Unit :=
  match limit with
  | some limit => if limit < count then .error (.pageSize count limit) else .ok ()
  | none => .ok ()

end History

end Missive
