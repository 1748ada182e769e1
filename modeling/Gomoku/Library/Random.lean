import Mathlib.Data.Int.Basic
import Mathlib.Tactic.Common

/-!
# Random draws as an explicit input

A generator is the stream of numbers it is going to deliver. A statement about every
generator is then a statement about every outcome of the draws, and `Rng.push` builds a
generator with chosen outcomes.
-/

namespace Random

/-- The numbers a generator delivers, in order. -/
structure Rng where
  draw : Nat → Nat

/-- The generator after one number has been taken. -/
def Rng.tail (rng : Rng) : Rng := ⟨fun n => rng.draw (n + 1)⟩

/-- The generator that delivers `value` before everything else. -/
def Rng.push (value : Nat) (rng : Rng) : Rng where
  draw
    | 0 => value
    | n + 1 => rng.draw n

@[simp] theorem Rng.push_draw_zero (value : Nat) (rng : Rng) : (rng.push value).draw 0 = value :=
  rfl

@[simp] theorem Rng.tail_push (value : Nat) (rng : Rng) : (rng.push value).tail = rng := rfl

/-- The generator after some numbers have been taken. -/
def Rng.skip (rng : Rng) (count : Nat) : Rng := ⟨fun n => rng.draw (n + count)⟩

theorem Rng.skip_skip (rng : Rng) (count count' : Nat) :
    (rng.skip count).skip count' = rng.skip (count + count') := by
  simp only [Rng.skip, Nat.add_comm count, Nat.add_assoc]

/-- `std::uniform_int_distribution<int>(low, high)`: one number, brought into the range. -/
def uniformInt (low high : Int) (rng : Rng) : Int × Rng :=
  (low + (rng.draw 0 : Int) % (high - low + 1), rng.tail)

/-- Only values between the bounds are drawn. -/
theorem uniformInt_mem {high : Int} (hhigh : 0 ≤ high) (rng : Rng) :
    0 ≤ (uniformInt 0 high rng).1 ∧ (uniformInt 0 high rng).1 ≤ high := by
  have hnonneg := Int.emod_nonneg (rng.draw 0) (show high - 0 + 1 ≠ 0 by omega)
  have hlt := Int.emod_lt_of_pos (rng.draw 0) (show 0 < high - 0 + 1 by omega)
  simp only [uniformInt]
  omega

/-- Every value between the bounds can be drawn. -/
theorem uniformInt_push {high : Int} {value : Nat} (hle : (value : Int) ≤ high) (rng : Rng) :
    uniformInt 0 high (rng.push value) = ((value : Int), rng) := by
  simp only [uniformInt, Rng.push_draw_zero, Rng.tail_push, Int.zero_add, Int.sub_zero]
  rw [Int.emod_eq_of_lt (by omega) (by omega)]

end Random
