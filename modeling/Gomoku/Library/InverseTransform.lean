import Gomoku.Library.Random
import Mathlib.Analysis.SpecificLimits.Basic
import Mathlib.MeasureTheory.Measure.Lebesgue.Basic

/-!
# Picking an index by inverse transform

A number below the sum of some weights picks the index at which the sum of the weights so far
exceeds it. The numbers that pick an index are an interval as long as its weight
(`pick_eq_iff`), so a number that is uniform between 0 and 1, scaled by the sum, picks every
index with a probability proportional to its weight (`measureReal_pick`). A generator that
delivers more and more bits of a number between 0 and 1 determines the number
(`canonical_bits`).
-/

namespace InverseTransform

open MeasureTheory Filter Topology Random

section Pick

variable {K : Type} [Field K] [LinearOrder K] [IsStrictOrderedRing K]

/-- The first index at which the sum of the weights so far exceeds the threshold. -/
def pick : List K → K → Nat
  | [], _ => 0
  | weight :: rest, threshold =>
      if threshold < weight then 0 else pick rest (threshold - weight) + 1

variable {weights : List K} {threshold : K}

/-- The index is one of a positive weight. -/
theorem pick_pos (hlow : 0 ≤ threshold) (hhigh : threshold < weights.sum) :
    ∃ weight, weights[pick weights threshold]? = some weight ∧ 0 < weight := by
  induction weights generalizing threshold with
  | nil => exact absurd hhigh (not_lt.mpr hlow)
  | cons weight rest ih =>
      rw [pick]
      split
      · exact ⟨weight, rfl, lt_of_le_of_lt hlow ‹_›⟩
      · rw [List.sum_cons] at hhigh
        rw [List.getElem?_cons_succ]
        exact ih (by linarith) (by linarith)

/-- The thresholds that pick an index. -/
theorem pick_eq_iff (hnonneg : ∀ weight ∈ weights, 0 ≤ weight) (hlow : 0 ≤ threshold)
    (hhigh : threshold < weights.sum) (i : Nat) :
    pick weights threshold = i ↔
      (weights.take i).sum ≤ threshold ∧ threshold < (weights.take (i + 1)).sum := by
  induction weights generalizing threshold i with
  | nil => exact absurd hhigh (not_lt.mpr hlow)
  | cons weight rest ih =>
      have hrest : ∀ other ∈ rest, 0 ≤ other := fun other hm => hnonneg other (by simp [hm])
      rw [List.sum_cons] at hhigh
      rw [pick]
      by_cases hfirst : threshold < weight
      · rw [if_pos hfirst]
        cases i with
        | zero => simpa using ⟨hlow, hfirst⟩
        | succ j =>
            have hsum : 0 ≤ (rest.take j).sum :=
              List.sum_nonneg fun other hm => hrest other (List.mem_of_mem_take hm)
            rw [List.take_succ_cons, List.sum_cons]
            refine iff_of_false (by omega) fun h => ?_
            linarith [h.1]
      · rw [if_neg hfirst]
        cases i with
        | zero => simpa using fun _ => not_lt.mp hfirst
        | succ j =>
            rw [Nat.add_right_cancel_iff, ih hrest (by linarith) (by linarith) j]
            simp only [List.take_succ_cons, List.sum_cons]
            rw [le_sub_iff_add_le', sub_lt_iff_lt_add']

end Pick

/-! ## Uniform numbers -/

/-- The numbers between 0 and 1 that pick an index are an interval. -/
theorem pick_inter_Ico {weights : List ℝ} (hnonneg : ∀ weight ∈ weights, 0 ≤ weight)
    (hsum : 0 < weights.sum) {uniform : ℝ → ℝ}
    (huniform : ∀ u ∈ Set.Ico (0 : ℝ) 1, uniform u = u) (i : Nat) :
    {u | pick weights (uniform u * weights.sum) = i} ∩ Set.Ico (0 : ℝ) 1 =
      Set.Ico ((weights.take i).sum / weights.sum)
        ((weights.take (i + 1)).sum / weights.sum) := by
  have hlow : 0 ≤ (weights.take i).sum :=
    List.sum_nonneg fun other hm => hnonneg other (List.mem_of_mem_take hm)
  have hhigh : (weights.take (i + 1)).sum ≤ weights.sum := by
    have hlater : 0 ≤ (weights.drop (i + 1)).sum :=
      List.sum_nonneg fun other hm => hnonneg other (List.mem_of_mem_drop hm)
    rw [← List.sum_take_add_sum_drop weights (i + 1)]
    exact le_add_of_nonneg_right hlater
  ext u
  rw [Set.mem_inter_iff, Set.mem_Ico, Set.mem_Ico, div_le_iff₀ hsum, lt_div_iff₀ hsum]
  constructor
  · intro h
    obtain ⟨hpick, hu⟩ := h
    have hscaled : u * weights.sum < weights.sum := by
      simpa using mul_lt_mul_of_pos_right hu.2 hsum
    rw [Set.mem_ofPred_eq, huniform u hu] at hpick
    exact (pick_eq_iff hnonneg (mul_nonneg hu.1 hsum.le) hscaled i).mp hpick
  · intro h
    have hu : u ∈ Set.Ico (0 : ℝ) 1 := by
      refine ⟨le_of_mul_le_mul_right ?_ hsum, lt_of_mul_lt_mul_right ?_ hsum.le⟩
      · linarith [h.1]
      · linarith [h.2]
    refine ⟨?_, hu⟩
    rw [Set.mem_ofPred_eq, huniform u hu]
    exact (pick_eq_iff hnonneg (by linarith [h.1]) (by linarith [h.2]) i).mpr h

/-- A uniform number between 0 and 1 picks an index with a probability proportional to its weight. -/
theorem measureReal_pick {weights : List ℝ} (hnonneg : ∀ weight ∈ weights, 0 ≤ weight)
    (hsum : 0 < weights.sum) {i : Nat} {weight : ℝ} (hweight : weights[i]? = some weight)
    {uniform : ℝ → ℝ} (huniform : ∀ u ∈ Set.Ico (0 : ℝ) 1, uniform u = u) :
    (volume.restrict (Set.Ico (0 : ℝ) 1)).real
        {u | pick weights (uniform u * weights.sum) = i} = weight / weights.sum := by
  have hnext : (weights.take (i + 1)).sum = (weights.take i).sum + weight := by
    rw [List.take_add_one, hweight, List.sum_append]
    simp
  have hle : (weights.take i).sum / weights.sum ≤ (weights.take (i + 1)).sum / weights.sum := by
    have hweight' := hnonneg weight (List.mem_of_getElem? hweight)
    rw [hnext]
    gcongr
    exact le_add_of_nonneg_right hweight'
  calc
    (volume.restrict (Set.Ico (0 : ℝ) 1)).real {u | pick weights (uniform u * weights.sum) = i} =
        (volume (Set.Ico ((weights.take i).sum / weights.sum)
          ((weights.take (i + 1)).sum / weights.sum))).toReal := by
      rw [measureReal_def, Measure.restrict_apply' measurableSet_Ico,
        pick_inter_Ico hnonneg hsum huniform]
    _ = (weights.take (i + 1)).sum / weights.sum - (weights.take i).sum / weights.sum := by
      rw [Real.volume_Ico, ENNReal.toReal_ofReal (sub_nonneg.mpr hle)]
    _ = weight / weights.sum := by
      rw [← sub_div, hnext, add_sub_cancel_left]

/-- A generator that delivers more and more bits of a number. -/
noncomputable def bits (u : ℝ) : Rng := ⟨fun n => ⌊u * 2 ^ n⌋₊⟩

/-- The number between 0 and 1 whose bits a generator delivers. -/
noncomputable def canonical (rng : Rng) : ℝ :=
  let u := limUnder atTop fun n => (rng.draw n : ℝ) / 2 ^ n
  if 0 ≤ u ∧ u < 1 then u else 0

theorem canonical_mem (rng : Rng) : 0 ≤ canonical rng ∧ canonical rng < 1 := by
  unfold canonical
  dsimp only
  split
  · assumption
  · exact ⟨le_refl 0, one_pos⟩

/-- The bits of a number determine it. -/
theorem canonical_bits {u : ℝ} (hu : u ∈ Set.Ico (0 : ℝ) 1) : canonical (bits u) = u := by
  have hlimit : Tendsto (fun n : Nat => ((bits u).draw n : ℝ) / 2 ^ n) atTop (𝓝 u) :=
    (tendsto_nat_floor_mul_div_atTop hu.1).comp (tendsto_pow_atTop_atTop_of_one_lt one_lt_two)
  unfold canonical
  dsimp only
  rw [hlimit.limUnder_eq, if_pos ⟨hu.1, hu.2⟩]

end InverseTransform
