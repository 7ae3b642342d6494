import Missive.Bytes.Basic

/-!
# Random bytes

Key data is drawn from a generator that is given from outside, one byte after another. Drawing
twice takes consecutive bytes: `draw_add`.
-/

namespace Missive

/-- A generator of bytes, as a step on its own state. -/
structure Generator (σ : Type) where
  next : σ → UInt8 × σ

namespace Generator

variable {σ : Type}

/-- The next `count` bytes, and the state after them. -/
def draw (generator : Generator σ) : (count : Nat) → σ → Bytes × σ
  | 0, state => ([], state)
  | count + 1, state =>
    let (byte, state) := generator.next state
    let (bytes, state) := generator.draw count state
    (byte :: bytes, state)

@[simp]
theorem length_draw (generator : Generator σ) (count : Nat) (state : σ) :
    (generator.draw count state).1.length = count := by
  induction count generalizing state with
  | zero => rfl
  | succ count ih => simp [draw, ih]

/-- Two draws in a row take the bytes of one longer draw. -/
theorem draw_add (generator : Generator σ) (first second : Nat) (state : σ) :
    generator.draw (first + second) state =
      ((generator.draw first state).1 ++
          (generator.draw second (generator.draw first state).2).1,
        (generator.draw second (generator.draw first state).2).2) := by
  induction first generalizing state with
  | zero => simp [draw]
  | succ first ih =>
    rw [Nat.add_right_comm]
    simp [draw, ih]

end Generator

end Missive
