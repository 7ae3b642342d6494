import Missive.Bytes.Basic

/-!
# Arithmetic of positions

Positions in a body, a section or a text are words of 64 bits. `Position.add?`, `Position.sub?`
and `Position.mul?` are the operations of the machine where they are exact; where the exact value
is no word they have no result. A program written with them has a result just if no sum,
difference or product of it leaves the range of a word, and then the result is that of the
program on natural numbers.
-/

namespace Missive

namespace Position

variable {left right : UInt64}

/-- A sum of two words, if it is exact. -/
def add? (left right : UInt64) : Option UInt64 :=
  if left.toNat + right.toNat < UInt64.size then some (left + right) else none

/-- A difference of two words, if it is exact. -/
def sub? (left right : UInt64) : Option UInt64 :=
  if right.toNat ≤ left.toNat then some (left - right) else none

/-- A product of two words, if it is exact. -/
def mul? (left right : UInt64) : Option UInt64 :=
  if left.toNat * right.toNat < UInt64.size then some (left * right) else none

/-- A difference of two words that stops at zero. -/
def monus (left right : UInt64) : UInt64 :=
  if left < right then 0 else left - right

/-- A number of things as a word, if it is one. -/
def ofNat? (count : Nat) : Option UInt64 :=
  if count < UInt64.size then some (UInt64.ofNat count) else none

theorem exists_add? (fits : left.toNat + right.toNat < UInt64.size) :
    ∃ sum, add? left right = some sum ∧ sum.toNat = left.toNat + right.toNat := by
  refine ⟨left + right, if_pos fits, ?_⟩
  rw [UInt64.toNat_add]
  exact Nat.mod_eq_of_lt fits

theorem exists_sub? (ordered : right.toNat ≤ left.toNat) :
    ∃ difference, sub? left right = some difference ∧
      difference.toNat = left.toNat - right.toNat := by
  refine ⟨left - right, if_pos ordered, ?_⟩
  exact UInt64.toNat_sub_of_le _ _ (UInt64.le_iff_toNat_le.mpr ordered)

theorem exists_mul? (fits : left.toNat * right.toNat < UInt64.size) :
    ∃ product, mul? left right = some product ∧
      product.toNat = left.toNat * right.toNat := by
  refine ⟨left * right, if_pos fits, ?_⟩
  rw [UInt64.toNat_mul]
  exact Nat.mod_eq_of_lt fits

theorem toNat_monus : (monus left right).toNat = left.toNat - right.toNat := by
  rw [monus]
  split
  · rename_i less
    rw [UInt64.lt_iff_toNat_lt] at less
    simp only [UInt64.toNat_ofNat, Nat.zero_mod]
    omega
  · rename_i ordered
    exact UInt64.toNat_sub_of_le _ _ (UInt64.not_lt.mp ordered)

theorem toNat_min : (min left right).toNat = min left.toNat right.toNat := by
  have smaller : min left right = if left ≤ right then left else right := rfl
  rw [smaller, Nat.min_def]
  simp only [UInt64.le_iff_toNat_le]
  split
  · rfl
  · rfl

theorem exists_ofNat? {count : Nat} (fits : count < UInt64.size) :
    ∃ word, ofNat? count = some word ∧ word.toNat = count := by
  refine ⟨UInt64.ofNat count, if_pos fits, ?_⟩
  exact UInt64.toNat_ofNat_of_lt fits

end Position

/-- The bytes between two positions; there are none if one of them lies past the end. -/
def Bytes.between? (bytes : Bytes) (start stop : UInt64) : Option Bytes :=
  if start.toNat ≤ stop.toNat ∧ stop.toNat ≤ bytes.length then
    some (bytes.slice start.toNat (stop.toNat - start.toNat))
  else none

/-- Outcomes can be compared where results and errors can. -/
instance decidableEqOutcome {ε α : Type} [DecidableEq ε] [DecidableEq α] : DecidableEq (Except ε α)
  | .ok left, .ok right => decidable_of_iff (left = right) (by rw [Except.ok.injEq])
  | .error left, .error right => decidable_of_iff (left = right) (by rw [Except.error.injEq])
  | .ok _, .error _ => isFalse nofun
  | .error _, .ok _ => isFalse nofun

/-- A computation that may fail, and that has no result if a position is not exact. -/
abbrev Exact (ε : Type) : Type → Type :=
  ExceptT ε Option

namespace Exact

variable {ε α β : Type}

/-- A computation with a result. -/
def of (step : Except ε α) : Exact ε α :=
  ExceptT.mk (some step)

@[simp]
theorem of_bind (step : Except ε α) (next : α → Exact ε β) :
    (of step >>= next) =
      match step with
      | .ok value => next value
      | .error error => of (.error error) := by
  cases step <;> rfl

/-- Two rows of steps agree if they begin with the same step and agree after it. -/
theorem of_bind_eq {step : Except ε α} {next? : α → Exact ε β} {next : α → Except ε β}
    (later : ∀ value, step = .ok value → next? value = of (next value)) :
    (of step >>= next?) = of (step >>= next) := by
  cases step with
  | ok value => exact later value rfl
  | error error => rfl

/-- Two rows of steps agree if they begin with the same check and agree after it. -/
theorem guard_eq {refused : Prop} [Decidable refused] {fault : ε} {later? : α → Exact ε β}
    {next? : Exact ε β} {next : Except ε β} (passed : ¬refused → next? = of next) :
    (if refused then throw fault >>= later? else next?) =
      of (if refused then .error fault else next) := by
  by_cases met : refused
  · rw [if_pos met, if_pos met]
    rfl
  · rw [if_neg met, if_neg met, passed met]

@[simp]
theorem liftM_some_bind (value : α) (next : α → Exact ε β) :
    ((liftM (some value) : Exact ε α) >>= next) = next value := rfl

@[simp]
theorem pure_eq_of (value : α) : (pure value : Exact ε α) = of (.ok value) := rfl

@[simp]
theorem throw_eq_of (error : ε) : (throw error : Exact ε α) = of (.error error) := rfl

@[simp]
theorem run_of (step : Except ε α) : (of step).run = some step := rfl

end Exact

end Missive
