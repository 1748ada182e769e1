import Gomoku.Library.Bytes
import Mathlib.Logic.Function.Iterate

/-!
# Cyclic redundancy checks

The remainder of a message, computed from the least significant bit on. `bit` divides by one bit,
`feed` by one byte, `feedAll` by a whole message. The division is linear in exclusive or, and a
polynomial whose last coefficient is one makes every step invertible. From this follow the
two ways to compute a remainder quickly, a table for every byte (`divide_eq`) and several bytes
at once (`iterate_divide_succ`), and what a check detects: two messages that differ only inside
a window as wide as the remainder have different remainders (`eq_of_feedAll_eq`).
-/

namespace Crc

open Bytes

variable {w : Nat}

/-- One bit of the division: the remainder is shifted down, and the polynomial is subtracted if a
one is shifted out. -/
def bit (polynomial remainder : BitVec w) : BitVec w :=
  if remainder.getLsbD 0 then (remainder >>> 1) ^^^ polynomial else remainder >>> 1

/-- Eight bits of the division. -/
def divide (polynomial remainder : BitVec w) : BitVec w := (bit polynomial)^[8] remainder

/-- The remainder after another byte of the message. -/
def feed (polynomial remainder : BitVec w) (byte : Byte) : BitVec w :=
  divide polynomial (remainder ^^^ byte.setWidth w)

/-- The remainder after some bytes of the message. -/
def feedAll (polynomial remainder : BitVec w) (message : List Byte) : BitVec w :=
  message.foldl (feed polynomial) remainder

theorem feedAll_append (polynomial remainder : BitVec w) (message later : List Byte) :
    feedAll polynomial remainder (message ++ later) =
      feedAll polynomial (feedAll polynomial remainder message) later :=
  List.foldl_append

section Division

variable {polynomial : BitVec w}

/-! ## The division is linear -/

theorem bit_xor (left right : BitVec w) :
    bit polynomial (left ^^^ right) = bit polynomial left ^^^ bit polynomial right := by
  unfold bit
  rw [BitVec.getLsbD_xor, BitVec.ushiftRight_xor_distrib]
  cases left.getLsbD 0 <;> cases right.getLsbD 0 <;> ext i hi <;> simp <;> grind

theorem iterate_bit_xor (n : Nat) (left right : BitVec w) :
    (bit polynomial)^[n] (left ^^^ right) =
      (bit polynomial)^[n] left ^^^ (bit polynomial)^[n] right := by
  induction n generalizing left right with
  | zero => rfl
  | succ n ih => rw [Function.iterate_succ_apply, bit_xor, ih]; rfl

theorem divide_xor (left right : BitVec w) :
    divide polynomial (left ^^^ right) = divide polynomial left ^^^ divide polynomial right :=
  iterate_bit_xor 8 left right

theorem iterate_divide_xor (n : Nat) (left right : BitVec w) :
    (divide polynomial)^[n] (left ^^^ right) =
      (divide polynomial)^[n] left ^^^ (divide polynomial)^[n] right := by
  induction n generalizing left right with
  | zero => rfl
  | succ n ih => rw [Function.iterate_succ_apply, divide_xor, ih]; rfl

/-- Zeros are shifted out without a subtraction. -/
theorem iterate_bit_of_low {n : Nat} {remainder : BitVec w}
    (hlow : ∀ i < n, remainder.getLsbD i = false) :
    (bit polynomial)^[n] remainder = remainder >>> n := by
  induction n with
  | zero => simp
  | succ n ih =>
      rw [Function.iterate_succ_apply', ih fun i hi => hlow i (by omega)]
      have hbit : (remainder >>> n).getLsbD 0 = false := by
        simpa using hlow n (by omega)
      unfold bit
      rw [if_neg (by simp [hbit]), BitVec.shiftRight_add]

/-- A remainder whose low byte is zero is shifted down. -/
theorem divide_shiftLeft {remainder : BitVec w}
    (hhigh : ∀ i, w ≤ i + 8 → remainder.getLsbD i = false) :
    divide polynomial (remainder <<< 8) = remainder := by
  unfold divide
  rw [iterate_bit_of_low fun i hi => by simp [hi]]
  ext i hi
  simp
  grind

/-- The low byte and the rest of a remainder. -/
theorem split_low (remainder : BitVec w) :
    remainder = (remainder.setWidth 8).setWidth w ^^^ (remainder >>> 8) <<< 8 := by
  ext i hi
  by_cases h : i < 8
  · simp [h, hi]
  · simp [h, hi, show 8 + (i - 8) = i by omega]

/-- A byte of the division, with the division of the low byte taken from a table. -/
theorem divide_eq (remainder : BitVec w) :
    divide polynomial remainder =
      divide polynomial ((remainder.setWidth 8).setWidth w) ^^^ remainder >>> 8 := by
  conv_lhs => rw [split_low remainder]
  rw [divide_xor, divide_shiftLeft]
  intro i hi
  simp
  grind

/-- Several bytes of the division, with those of the low byte taken from a table. -/
theorem iterate_divide_succ (n : Nat) (remainder : BitVec w) :
    (divide polynomial)^[n + 1] remainder =
      (divide polynomial)^[n + 1] ((remainder.setWidth 8).setWidth w) ^^^
        (divide polynomial)^[n] (remainder >>> 8) := by
  rw [Function.iterate_succ_apply, divide_eq, iterate_divide_xor, ← Function.iterate_succ_apply]

/-! ## Several bytes at once -/

/-- A message that fits into the remainder is added to it before the division. -/
theorem feedAll_eq_word (remainder : BitVec w) {message : List Byte}
    (hlength : 8 * message.length ≤ w) :
    feedAll polynomial remainder message =
      (divide polynomial)^[message.length] (remainder ^^^ word w message) := by
  induction message generalizing remainder with
  | nil => simp [feedAll, word]
  | cons byte rest ih =>
      rw [List.length_cons] at hlength
      have hrest : divide polynomial (word w rest <<< 8) = word w rest :=
        divide_shiftLeft fun i hi => getLsbD_word_of_ge (by omega)
      show feedAll polynomial (divide polynomial (remainder ^^^ byte.setWidth w)) rest = _
      rw [ih _ (by omega), List.length_cons, Function.iterate_succ_apply, word_cons,
        ← BitVec.xor_assoc, divide_xor (remainder ^^^ byte.setWidth w), hrest]

/-! ## A wider register -/

variable {v : Nat}

theorem bit_setWidth (hle : w ≤ v) (remainder : BitVec w) :
    bit (polynomial.setWidth v) (remainder.setWidth v) = (bit polynomial remainder).setWidth v := by
  have hlow : (remainder.setWidth v).getLsbD 0 = remainder.getLsbD 0 := by
    rw [BitVec.getLsbD_setWidth]
    by_cases hwidth : 0 < v
    · simp [hwidth]
    · simp [hwidth, BitVec.getLsbD_of_ge remainder 0 (by omega)]
  have hshift : remainder.setWidth v >>> 1 = (remainder >>> 1).setWidth v := by
    ext i hi
    simp only [BitVec.getElem_ushiftRight, BitVec.getLsbD_setWidth, BitVec.getElem_setWidth,
      BitVec.getLsbD_ushiftRight]
    by_cases hnext : 1 + i < v
    · simp [hnext]
    · simp [hnext, BitVec.getLsbD_of_ge remainder (1 + i) (by omega)]
  unfold bit
  rw [hlow, hshift]
  split
  · exact BitVec.setWidth_xor.symm
  · rfl

/-- The division in a wider register is the same division. -/
theorem feedAll_setWidth (hle : w ≤ v) (hbyte : 8 ≤ w) (remainder : BitVec w)
    (message : List Byte) :
    feedAll (polynomial.setWidth v) (remainder.setWidth v) message =
      (feedAll polynomial remainder message).setWidth v := by
  have hiterate : ∀ n (remainder : BitVec w),
      (bit (polynomial.setWidth v))^[n] (remainder.setWidth v) =
        ((bit polynomial)^[n] remainder).setWidth v := by
    intro n
    induction n with
    | zero => exact fun _ => rfl
    | succ n ih =>
        intro remainder
        rw [Function.iterate_succ_apply, Function.iterate_succ_apply, bit_setWidth hle, ih]
  induction message generalizing remainder with
  | nil => rfl
  | cons byte rest ih =>
      have hwide : (byte.setWidth w).setWidth v = byte.setWidth v := by
        ext i hi
        by_cases hlow : i < w
        · simp [hlow]
        · simp [hlow, BitVec.getLsbD_of_ge byte i (by omega)]
      have hadd : remainder.setWidth v ^^^ byte.setWidth v =
          (remainder ^^^ byte.setWidth w).setWidth v := by
        rw [BitVec.setWidth_xor, hwide]
      show feedAll _ (divide _ (remainder.setWidth v ^^^ byte.setWidth v)) rest = _
      rw [hadd]
      unfold divide
      rw [hiterate]
      exact ih _

/-! ## A message in blocks -/

/-- `while (e - p >= size) step`: take blocks of a size from the front of a message as long as there
are enough bytes. -/
def blocks (size : Nat) (step : BitVec w → List Byte → BitVec w) :
    Nat → BitVec w → List Byte → BitVec w × List Byte
  | 0, remainder, message => (remainder, message)
  | fuel + 1, remainder, message =>
      if size ≤ message.length then
        blocks size step fuel (step remainder (message.take size)) (message.drop size)
      else (remainder, message)

/-- If a step divides by a block, the remainder of the message is the same after some blocks. -/
theorem feedAll_blocks {size : Nat} {step : BitVec w → List Byte → BitVec w}
    (hstep : ∀ remainder block, block.length = size →
      step remainder block = feedAll polynomial remainder block)
    (fuel : Nat) (remainder : BitVec w) (message : List Byte) :
    feedAll polynomial (blocks size step fuel remainder message).1
        (blocks size step fuel remainder message).2 =
      feedAll polynomial remainder message := by
  induction fuel generalizing remainder message with
  | zero => rfl
  | succ fuel ih =>
      rw [blocks]
      split
      · rename_i hsize
        rw [ih, hstep _ _ (List.length_take_of_le hsize), ← feedAll_append, List.take_append_drop]
      · rfl

/-- Steps that do on images of remainders what other steps do on the remainders take the same
blocks. -/
theorem blocks_map {size : Nat} {step : BitVec w → List Byte → BitVec w}
    {step' : BitVec v → List Byte → BitVec v} (image : BitVec w → BitVec v)
    (hstep : ∀ remainder block, block.length = size →
      step' (image remainder) block = image (step remainder block))
    (fuel : Nat) (remainder : BitVec w) (message : List Byte) :
    blocks size step' fuel (image remainder) message =
      (image (blocks size step fuel remainder message).1,
        (blocks size step fuel remainder message).2) := by
  induction fuel generalizing remainder message with
  | zero => rfl
  | succ fuel ih =>
      rw [blocks, blocks]
      split
      · rename_i hsize
        rw [hstep _ _ (List.length_take_of_le hsize), ih]
      · rfl

end Division

/-! ## What a check detects -/

section Detection

variable {polynomial : BitVec w} (hpolynomial : polynomial.msb = true)
include hpolynomial

/-- A polynomial whose last coefficient is one tells which bit was shifted out. -/
theorem bit_injective : Function.Injective (bit polynomial) := by
  intro left right hbit
  have hlow : left.getLsbD 0 = right.getLsbD 0 := by
    have hmsb := congrArg BitVec.msb hbit
    unfold bit at hmsb
    cases hleft : left.getLsbD 0 <;> cases hright : right.getLsbD 0 <;> simp_all
  have hshift : left >>> 1 = right >>> 1 := by
    unfold bit at hbit
    rw [hlow] at hbit
    split at hbit
    · exact (BitVec.xor_left_inj polynomial).mp hbit
    · exact hbit
  apply BitVec.eq_of_getLsbD_eq
  intro i hi
  cases i with
  | zero => exact hlow
  | succ i =>
      have hnext := congrArg (fun word : BitVec w => word.getLsbD i) hshift
      simpa [Nat.add_comm] using hnext

theorem divide_injective : Function.Injective (divide polynomial) :=
  (bit_injective hpolynomial).iterate 8

/-- Different remainders stay different, whatever follows. -/
theorem feedAll_injective (message : List Byte) :
    Function.Injective fun remainder => feedAll polynomial remainder message := by
  induction message with
  | nil => exact Function.injective_id
  | cons byte rest ih =>
      intro left right h
      exact (BitVec.xor_left_inj _).mp (divide_injective hpolynomial (ih h))

/-- Two messages with the same remainder that differ only inside a window as wide as the remainder
are the same. -/
theorem eq_of_feedAll_eq {remainder : BitVec w} {before window window' after : List Byte}
    (hlength : window.length = window'.length) (hwidth : 8 * window.length ≤ w)
    (h : feedAll polynomial remainder (before ++ window ++ after) =
      feedAll polynomial remainder (before ++ window' ++ after)) : window = window' := by
  simp only [feedAll_append] at h
  have hwindow := feedAll_injective hpolynomial after h
  have hwidth' : 8 * window'.length ≤ w := by rwa [← hlength]
  rw [feedAll_eq_word _ hwidth, feedAll_eq_word _ hwidth', hlength] at hwindow
  have hword := (divide_injective hpolynomial).iterate _ hwindow
  exact word_injective hlength hwidth ((BitVec.xor_right_inj _).mp hword)

end Detection

end Crc
