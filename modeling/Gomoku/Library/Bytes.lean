import Mathlib.Logic.Function.Basic
import Mathlib.Tactic.Common

/-!
# Words and their bytes

`word` puts bytes together to a word, the first byte lowest, and `split` takes a word apart. They
are inverse to each other as long as the bytes fit (`word_split`, `split_word`).
-/

namespace Bytes

/-- Eight bits. -/
abbrev Byte := BitVec 8

variable {w : Nat}

/-- The word with the given bytes, the first one lowest. -/
def word (w : Nat) : List Byte → BitVec w
  | [] => 0
  | byte :: rest => byte.setWidth w ||| word w rest <<< 8

/-- The lowest `n` bytes of a word, the lowest one first. -/
def split : Nat → BitVec w → List Byte
  | 0, _ => []
  | n + 1, value => value.setWidth 8 :: split n (value >>> 8)

@[simp] theorem length_split (n : Nat) (value : BitVec w) : (split n value).length = n := by
  induction n generalizing value with
  | zero => rfl
  | succ n ih => rw [split, List.length_cons, ih]

/-- Above its bytes a word is zero. -/
theorem getLsbD_word_of_ge {bytes : List Byte} {i : Nat} (hi : 8 * bytes.length ≤ i) :
    (word w bytes).getLsbD i = false := by
  induction bytes generalizing i with
  | nil => simp [word]
  | cons byte rest ih =>
      rw [List.length_cons] at hi
      have hrest := ih (i := i - 8) (by omega)
      have hbyte : byte.getLsbD i = false := BitVec.getLsbD_of_ge byte i (by omega)
      simp [word, hrest, hbyte]

/-- A wider word has the same bytes. -/
theorem setWidth_word {v : Nat} {bytes : List Byte} (hbytes : 8 * bytes.length ≤ w) :
    (word w bytes).setWidth v = word v bytes := by
  induction bytes with
  | nil => simp [word]
  | cons byte rest ih =>
      rw [List.length_cons] at hbytes
      apply BitVec.eq_of_getLsbD_eq
      intro i hi
      have hrest := congrArg (fun value : BitVec v => value.getLsbD (i - 8)) (ih (by omega))
      simp only [BitVec.getLsbD_setWidth] at hrest
      simp only [word, BitVec.getLsbD_setWidth, BitVec.getLsbD_or, BitVec.getLsbD_shiftLeft, hi,
        decide_true, Bool.true_and, ← hrest, show i - 8 < v by omega]
      by_cases hlow : i < w
      · simp [hlow]
      · simp [hlow, BitVec.getLsbD_of_ge byte i (by omega),
          getLsbD_word_of_ge (w := w) (show 8 * rest.length ≤ i - 8 by omega)]

/-- The second of two byte sequences stands above the first. -/
theorem word_append (bytes bytes' : List Byte) :
    word w (bytes ++ bytes') = word w bytes ||| word w bytes' <<< (8 * bytes.length) := by
  induction bytes with
  | nil => simp [word]
  | cons byte rest ih =>
      rw [List.cons_append, word, word, ih, BitVec.shiftLeft_or_distrib, ← BitVec.shiftLeft_add,
        BitVec.or_assoc, List.length_cons, Nat.mul_succ]

/-- The bytes of a word do not overlap, so they can be added as well. -/
theorem word_cons (byte : Byte) (rest : List Byte) :
    word w (byte :: rest) = byte.setWidth w ^^^ word w rest <<< 8 := by
  ext i hi
  by_cases h : i < 8
  · simp [word, h]
  · have hbyte : byte.getLsbD i = false := BitVec.getLsbD_of_ge byte i (by omega)
    simp [word, h, hbyte]

theorem getLsbD_word_split (n : Nat) (value : BitVec w) (i : Nat) :
    (word w (split n value)).getLsbD i = (decide (i < 8 * n) && value.getLsbD i) := by
  induction n generalizing value i with
  | zero => simp [split, word]
  | succ n ih =>
      simp only [split, word, BitVec.getLsbD_or, BitVec.getLsbD_setWidth, BitVec.getLsbD_shiftLeft,
        ih, BitVec.getLsbD_ushiftRight]
      by_cases hwidth : i < w
      · by_cases hlow : i < 8
        · simp [hwidth, hlow, show i < 8 * (n + 1) by omega]
        · simp [hwidth, hlow, show 8 + (i - 8) = i by omega,
            show i - 8 < 8 * n ↔ i < 8 * (n + 1) by omega]
      · simp [hwidth, BitVec.getLsbD_of_ge value i (by omega)]

/-- A word is put together from all of its bytes. -/
theorem word_split {n : Nat} (h : w ≤ 8 * n) (value : BitVec w) :
    word w (split n value) = value := by
  ext i hi
  rw [← BitVec.getLsbD_eq_getElem, getLsbD_word_split, decide_eq_true (by omega), Bool.true_and,
    BitVec.getLsbD_eq_getElem]

/-- Bytes that fit into a word are taken from it again. -/
theorem split_word {bytes : List Byte} (h : 8 * bytes.length ≤ w) :
    split bytes.length (word w bytes) = bytes := by
  induction bytes with
  | nil => rfl
  | cons byte rest ih =>
      rw [List.length_cons] at h
      have hbyte : (word w (byte :: rest)).setWidth 8 = byte := by
        ext i hi
        simp [word, hi, show i < w by omega]
      have hrest : word w (byte :: rest) >>> 8 = word w rest := by
        ext i hi
        by_cases hhigh : 8 + i < w
        · simp [word, hhigh]
        · have hzero : (word w rest).getLsbD i = false := getLsbD_word_of_ge (by omega)
          rw [BitVec.getLsbD_eq_getElem hi] at hzero
          rw [BitVec.getElem_ushiftRight, BitVec.getLsbD_of_ge _ (8 + i) (by omega), hzero]
      rw [List.length_cons, split, hbyte, hrest, ih (by omega)]

theorem word_injective {bytes bytes' : List Byte} (hlength : bytes.length = bytes'.length)
    (hwidth : 8 * bytes.length ≤ w) (h : word w bytes = word w bytes') : bytes = bytes' := by
  rw [← split_word hwidth, h, hlength, split_word (by omega)]

end Bytes
