import Gomoku.Library.Execution
import Mathlib.Data.Fintype.Card

/-!
# Fixed-size bit sets

The operations of `std::bitset` on a `BitVec`: reading and assigning one bit by a signed
index, where an index outside the set is a fault, and the number of set bits. Each
operation has one lemma for its value inside the range, and `count_write` says what an
assignment does to the number of set bits.
-/

namespace Bitset

open Execution

variable {w : Nat}

/-- The value of `bits[index]`. -/
def test (bits : BitVec w) (index : Int) : Result Bool :=
  if 0 ≤ index ∧ index < w then .ok (bits.getLsbD index.toNat) else .error .outOfRange

/-- The set with the bit at position `i` made equal to `value`. -/
def write (bits : BitVec w) (i : Nat) (value : Bool) : BitVec w :=
  if value then bits ||| BitVec.twoPow w i else bits &&& ~~~BitVec.twoPow w i

/-- The effect of `bits[index] = value`. -/
def assign (bits : BitVec w) (index : Int) (value : Bool) : Result (BitVec w) :=
  if 0 ≤ index ∧ index < w then .ok (write bits index.toNat value) else .error .outOfRange

/-- The positions whose bit is set. -/
def support (bits : BitVec w) : Finset (Fin w) :=
  Finset.univ.filter fun i => bits.getLsbD i

/-- The number of set bits. -/
def count (bits : BitVec w) : Nat := (support bits).card

/-- Reading at a position of the set. -/
theorem test_of_lt (bits : BitVec w) {i : Nat} (hi : i < w) :
    test bits i = .ok (bits.getLsbD i) := by
  have hrange : (0 : Int) ≤ i ∧ (i : Int) < w := by omega
  simp [test, hrange]

/-- Only positions of the set can be read. -/
theorem range_of_test {bits : BitVec w} {index : Int} {value : Bool}
    (h : test bits index = .ok value) : 0 ≤ index ∧ index < w := by
  unfold test at h
  split at h
  · assumption
  · cases h

/-- Assigning at a position of the set. -/
theorem assign_of_lt (bits : BitVec w) {i : Nat} (hi : i < w) (value : Bool) :
    assign bits i value = .ok (write bits i value) := by
  have hrange : (0 : Int) ≤ i ∧ (i : Int) < w := by omega
  simp [assign, hrange]

/-- An assignment changes the bit at its position and no other. -/
theorem getLsbD_write (bits : BitVec w) {i : Nat} (hi : i < w) (value : Bool) (j : Nat) :
    (write bits i value).getLsbD j = if j = i then value else bits.getLsbD j := by
  unfold write
  by_cases hj : j = i
  · subst hj
    cases value <;> simp [hi]
  · have hne : ¬ i = j := fun h => hj h.symm
    cases value with
    | true => simp [hj, hne]
    | false =>
        by_cases hlt : j < w
        · simp [hj, hlt]
        · simp [hj, BitVec.getLsbD_of_ge bits j (by omega)]

/-- Membership in the support is the bit itself. -/
@[simp] theorem mem_support (bits : BitVec w) (i : Fin w) :
    i ∈ support bits ↔ bits.getLsbD i = true := by
  simp [support]

/-- Setting a clear bit inserts its position. -/
theorem support_write_true (bits : BitVec w) (i : Fin w) :
    support (write bits i true) = insert i (support bits) := by
  ext j
  simp only [mem_support, getLsbD_write bits i.isLt, Finset.mem_insert, Fin.ext_iff]
  by_cases hj : j.val = i.val <;> simp [hj]

/-- Clearing a bit erases its position. -/
theorem support_write_false (bits : BitVec w) (i : Fin w) :
    support (write bits i false) = (support bits).erase i := by
  ext j
  simp only [mem_support, getLsbD_write bits i.isLt, Finset.mem_erase, ne_eq, Fin.ext_iff]
  by_cases hj : j.val = i.val <;> simp [hj]

/-- Setting a clear bit adds one to the number of set bits. -/
theorem count_write_true (bits : BitVec w) {i : Nat} (hi : i < w)
    (hclear : bits.getLsbD i = false) : count (write bits i true) = count bits + 1 := by
  have hsupport := support_write_true bits ⟨i, hi⟩
  have hnot : (⟨i, hi⟩ : Fin w) ∉ support bits := by simp [hclear]
  unfold count
  rw [hsupport, Finset.card_insert_of_notMem hnot]

/-- Clearing a set bit takes one from the number of set bits. -/
theorem count_write_false (bits : BitVec w) {i : Nat} (hi : i < w)
    (hset : bits.getLsbD i = true) : count (write bits i false) + 1 = count bits := by
  have hsupport := support_write_false bits ⟨i, hi⟩
  have hmem : (⟨i, hi⟩ : Fin w) ∈ support bits := by simp [hset]
  unfold count
  rw [hsupport, Finset.card_erase_add_one hmem]

/-- The empty set has no set bits. -/
@[simp] theorem count_zero : count 0#w = 0 := by
  simp [count, support]

end Bitset
