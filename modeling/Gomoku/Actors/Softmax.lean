import Gomoku.Actors.McCell
import Mathlib.Algebra.BigOperators.Group.List.Basic
import Mathlib.Data.Rat.Cast.Order

/-!
# Softmax sampling

`SampleWeightMatrix` of `core/feature.cc` and `SampleSoftmax` of `actors/mc_cell.cc`, for a board
of any size. The exponential function and `std::discrete_distribution` are parameters: the
distribution takes the weights and the generator and returns an index into the weights.
-/

namespace Gomoku

open Random

section Sampling

variable {width height : Nat} {K : Type}

/-- `SampleWeightMatrix`. -/
def sampleWeightMatrix (discreteDistribution : List K → Rng → Nat × Rng)
    (weights : Fin width × Fin height → K) (rng : Rng) : Vector2i × Rng :=
  let (index, rng) := discreteDistribution ((storageOrder width height).map weights) rng
  (⟨(index % width : Nat), (index / width : Nat)⟩, rng)

/-- `SampleSoftmax`. -/
def sampleSoftmax [Zero K] [Add K] [Mul K] [Div K] (exp : K → K)
    (discreteDistribution : List K → Rng → Nat × Rng)
    (winProb legalMoves : Fin width × Fin height → K) (temperature : K) (rng : Rng) :
    Vector2i × Rng :=
  let matrix := fun field => exp (winProb field / temperature) * legalMoves field
  let sum := ((storageOrder width height).map matrix).sum
  let weights := fun field => matrix field / sum
  sampleWeightMatrix discreteDistribution weights rng

theorem length_storageOrder (width height : Nat) :
    (storageOrder width height).length = width * height := by
  simp [storageOrder, List.length_flatMap, mul_comm]

/-- An index below the number of weights is the index of a field. -/
theorem sampleWeightMatrix_inside (hwidth : 0 < width) (hheight : 0 < height)
    {discreteDistribution : List K → Rng → Nat × Rng}
    (hdiscrete : ∀ weights rng, weights ≠ [] →
      (discreteDistribution weights rng).1 < weights.length)
    (weights : Fin width × Fin height → K) (rng : Rng) :
    ∃ field : Fin width × Fin height,
      (sampleWeightMatrix discreteDistribution weights rng).1 =
        ⟨(field.1 : Nat), (field.2 : Nat)⟩ := by
  have hlength : ((storageOrder width height).map weights).length = width * height := by
    rw [List.length_map, length_storageOrder]
  have hne : (storageOrder width height).map weights ≠ [] := by
    rw [← List.length_pos_iff, hlength]
    exact Nat.mul_pos hwidth hheight
  have hindex := hdiscrete _ rng hne
  rw [hlength] at hindex
  exact ⟨(⟨_, Nat.mod_lt _ hwidth⟩, ⟨_, Nat.div_lt_of_lt_mul hindex⟩), rfl⟩

end Sampling

/-- The position that `SampleSoftmax` returns is a field. -/
theorem sampleSoftmax_inside {exp : Rat → Rat}
    {discreteDistribution : List Rat → Rng → Nat × Rng}
    (hdiscrete : ∀ weights rng, weights ≠ [] →
      (discreteDistribution weights rng).1 < weights.length)
    (winProb legalMoves : FeatureMatrix Rat) (temperature : Rat) (rng : Rng) :
    Board.Inside
      (sampleSoftmax exp discreteDistribution winProb legalMoves temperature rng).1 := by
  have hwidth : 0 < kWidth := by decide
  have hheight : 0 < kHeight := by decide
  obtain ⟨field, hfield⟩ := sampleWeightMatrix_inside hwidth hheight hdiscrete _ rng
  rw [sampleSoftmax, hfield]
  exact Field.inside_position field

/-! ## A distribution -/

/-- The first index at which the sum of the weights so far exceeds the threshold, or the last. -/
def firstExceeding : List Rat → Rat → Nat
  | [], _ => 0
  | [_], _ => 0
  | weight :: next :: rest, threshold =>
      if threshold < weight then 0 else firstExceeding (next :: rest) (threshold - weight) + 1

/-- A `std::discrete_distribution`: one 64-bit number, taken as a fraction of the sum of the
weights. -/
def inverseTransform (weights : List Rat) (rng : Rng) : Nat × Rng :=
  (firstExceeding weights (((rng.draw 0 % 2 ^ 64 : Nat) : Rat) / 2 ^ 64 * weights.sum), rng.tail)

/-- A positive first weight exceeds the smallest threshold. -/
theorem firstExceeding_zero {weight : Rat} (hweight : 0 < weight) (rest : List Rat) :
    firstExceeding (weight :: rest) 0 = 0 := by
  cases rest with
  | nil => rfl
  | cons next rest => rw [firstExceeding, if_pos hweight]

theorem firstExceeding_lt {weights : List Rat} (hne : weights ≠ []) (threshold : Rat) :
    firstExceeding weights threshold < weights.length := by
  induction weights generalizing threshold with
  | nil => exact absurd rfl hne
  | cons weight rest ih =>
      cases rest with
      | nil => simp [firstExceeding]
      | cons next rest =>
          rw [firstExceeding, List.length_cons]
          split
          · omega
          · have hlt := ih (by simp) (threshold - weight)
            omega

end Gomoku
