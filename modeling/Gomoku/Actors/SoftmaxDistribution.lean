import Gomoku.Actors.Softmax
import Gomoku.Library.InverseTransform
import Mathlib.Algebra.BigOperators.Fin
import Mathlib.Analysis.SpecialFunctions.Exp

/-!
# The distribution of softmax sampling

`SampleSoftmax` passes the weights of all fields to `std::discrete_distribution`, in the order in
which the matrix is stored, and turns the index that is drawn back into a position.
`storageOrder_getElem?_iff` says that these two agree on a board of any shape. A distribution
that draws every index with a probability proportional to its weight, and no index of weight zero,
then makes `SampleSoftmax` draw every legal move with its softmax probability
(`sampleSoftmax_distribution`).
-/

namespace Gomoku

open Random MeasureTheory InverseTransform

section Storage

variable {width height : Nat}

/-- The element at an index of a grid that is stored row by row. -/
theorem getElem?_grid {α β : Type} (rows : List α) (columns : List β) (hcolumns : columns ≠ [])
    (i : Nat) :
    (rows.flatMap fun y => columns.map fun x => (x, y))[i]? =
      rows[i / columns.length]?.bind fun y => columns[i % columns.length]?.map fun x => (x, y) := by
  have hpos : 0 < columns.length := List.length_pos_iff.mpr hcolumns
  induction rows generalizing i with
  | nil => simp
  | cons row rest ih =>
      rw [List.flatMap_cons]
      by_cases hi : i < columns.length
      · rw [List.getElem?_append_left (by simpa using hi), List.getElem?_map,
          Nat.div_eq_of_lt hi, Nat.mod_eq_of_lt hi]
        rfl
      · obtain ⟨later, rfl⟩ := Nat.exists_eq_add_of_le (Nat.le_of_not_lt hi)
        rw [List.getElem?_append_right (by simp), List.length_map, Nat.add_sub_cancel_left, ih,
          Nat.add_div_left later hpos, Nat.add_mod_left]
        rfl

theorem finRange_getElem?_iff {n i : Nat} {a : Fin n} :
    (List.finRange n)[i]? = some a ↔ i = a := by
  rw [List.getElem?_eq_some_iff]
  constructor
  · intro h
    obtain ⟨hi, rfl⟩ := h
    simp
  · intro h
    subst h
    exact ⟨by simp, by simp⟩

/-- A field is stored at one index, and the remainder and the quotient of the index by the width are
its coordinates. -/
theorem storageOrder_getElem?_iff {i : Nat} {field : Fin width × Fin height} :
    (storageOrder width height)[i]? = some field ↔
      i % width = field.1 ∧ i / width = field.2 := by
  obtain ⟨x, y⟩ := field
  have hcolumns : List.finRange width ≠ [] := by
    rw [← List.length_pos_iff, List.length_finRange]
    exact x.pos
  rw [storageOrder, getElem?_grid _ _ hcolumns, List.length_finRange]
  simp only [Option.bind_eq_some_iff, Option.map_eq_some_iff, finRange_getElem?_iff,
    Prod.mk.injEq]
  constructor
  · intro h
    obtain ⟨y', hy, x', hx, rfl, rfl⟩ := h
    exact ⟨hx, hy⟩
  · intro h
    exact ⟨y, h.2, x, h.1, rfl, rfl⟩

/-- The index at which a field is stored. -/
theorem storageOrder_getElem?_index (field : Fin width × Fin height) :
    (storageOrder width height)[width * field.2 + field.1]? = some field := by
  rw [storageOrder_getElem?_iff, Nat.mul_add_mod, Nat.mod_eq_of_lt field.1.isLt,
    Nat.mul_add_div field.1.pos, Nat.div_eq_of_lt field.1.isLt]
  exact ⟨rfl, rfl⟩

/-- Only the index at which a field is stored is turned into the position of the field. -/
theorem position_eq_iff {i : Nat} (field : Fin width × Fin height) :
    (⟨(i % width : Nat), (i / width : Nat)⟩ : Vector2i) = ⟨(field.1 : Nat), (field.2 : Nat)⟩ ↔
      i = width * field.2 + field.1 := by
  rw [Vector2i.mk.injEq, Int.natCast_inj, Int.natCast_inj]
  constructor
  · intro h
    calc
      i = width * (i / width) + i % width := (Nat.div_add_mod i width).symm
      _ = width * field.2 + field.1 := by rw [h.1, h.2]
  · intro h
    subst h
    exact storageOrder_getElem?_iff.mp (storageOrder_getElem?_index field)

/-- A sum over the stored entries is the sum over all fields. -/
theorem sum_storageOrder {K : Type} [AddCommMonoid K] (entry : Fin width × Fin height → K) :
    ((storageOrder width height).map entry).sum = ∑ field, entry field := by
  rw [storageOrder, List.map_flatMap, List.flatMap_def, List.sum_flatten, List.map_map,
    Fintype.sum_prod_type_right, Fin.sum_univ_def]
  congr 1
  apply List.map_congr_left
  intro y _
  rw [Fin.sum_univ_def, Function.comp_apply, List.map_map]
  rfl

end Storage

section Distribution

variable {width height : Nat} {Ω : Type} [MeasurableSpace Ω]

/-- What `std::discrete_distribution` promises for weights that are not negative and not all zero,
when its generator is random: no index of weight zero is drawn, and an index is drawn with a
probability proportional to its weight. -/
structure IsDiscreteDistribution (P : Measure Ω) (engine : Ω → Rng)
    (discreteDistribution : List ℝ → Rng → Nat × Rng) : Prop where
  positive : ∀ weights : List ℝ, (∀ weight ∈ weights, 0 ≤ weight) → 0 < weights.sum → ∀ rng,
    ∃ weight, weights[(discreteDistribution weights rng).1]? = some weight ∧ weight ≠ 0
  proportional : ∀ weights : List ℝ, (∀ weight ∈ weights, 0 ≤ weight) → 0 < weights.sum →
    ∀ i weight, weights[i]? = some weight →
      P.real {ω | (discreteDistribution weights (engine ω)).1 = i} = weight / weights.sum

section Weights

variable {exp : ℝ → ℝ} {winProb legalMoves : Fin width × Fin height → ℝ} {temperature : ℝ}

/-- The entries of the matrix that is normalised: the exponentials of the legal moves. -/
theorem sum_masked (hlegal : ∀ field, legalMoves field = 0 ∨ legalMoves field = 1) :
    ((storageOrder width height).map fun field =>
        exp (winProb field / temperature) * legalMoves field).sum =
      ∑ field with legalMoves field = 1, exp (winProb field / temperature) := by
  rw [sum_storageOrder, Finset.sum_filter]
  apply Finset.sum_congr rfl
  intro field _
  rcases hlegal field with hzero | hone
  · rw [hzero, mul_zero, if_neg zero_ne_one]
  · rw [hone, mul_one, if_pos rfl]

/-- Some legal move has a positive exponential. -/
theorem sum_masked_pos (hexp : ∀ x, 0 < exp x) (hsome : ∃ field, legalMoves field = 1) :
    0 < ∑ field with legalMoves field = 1, exp (winProb field / temperature) := by
  obtain ⟨field, hfield⟩ := hsome
  apply Finset.sum_pos fun other _ => hexp _
  exact ⟨field, Finset.mem_filter.mpr ⟨Finset.mem_univ field, hfield⟩⟩

end Weights

/-- Weights of the fields that are not negative and add up to 1: the field returned has a weight
that is not zero, and its probability is its weight. -/
theorem sampleWeightMatrix_distribution {P : Measure Ω} {engine : Ω → Rng}
    {discreteDistribution : List ℝ → Rng → Nat × Rng}
    (hdiscrete : IsDiscreteDistribution P engine discreteDistribution)
    (weights : Fin width × Fin height → ℝ) (hnonneg : ∀ field, 0 ≤ weights field)
    (hsum : ((storageOrder width height).map weights).sum = 1) :
    (∀ rng, ∃ field, weights field ≠ 0 ∧
      (sampleWeightMatrix discreteDistribution weights rng).1 =
        ⟨(field.1 : Nat), (field.2 : Nat)⟩) ∧
    ∀ field, P.real {ω | (sampleWeightMatrix discreteDistribution weights (engine ω)).1 =
      ⟨(field.1 : Nat), (field.2 : Nat)⟩} = weights field := by
  have hall : ∀ weight ∈ (storageOrder width height).map weights, 0 ≤ weight := by
    rw [List.forall_mem_map]
    exact fun field _ => hnonneg field
  have hpos : 0 < ((storageOrder width height).map weights).sum := by
    rw [hsum]
    exact one_pos
  refine ⟨fun rng => ?_, fun field => ?_⟩
  · obtain ⟨weight, hindex, hne⟩ := hdiscrete.positive _ hall hpos rng
    rw [List.getElem?_map, Option.map_eq_some_iff] at hindex
    obtain ⟨field, hfield, rfl⟩ := hindex
    obtain ⟨hx, hy⟩ := storageOrder_getElem?_iff.mp hfield
    refine ⟨field, hne, ?_⟩
    show (⟨(_ % width : Nat), (_ / width : Nat)⟩ : Vector2i) = _
    rw [hx, hy]
  · -- the position is the field exactly for the index at which the field is stored
    have hindex : (storageOrder width height)[width * field.2 + field.1]? = some field :=
      storageOrder_getElem?_index field
    have hevent : {ω | (sampleWeightMatrix discreteDistribution weights (engine ω)).1 =
          ⟨(field.1 : Nat), (field.2 : Nat)⟩} =
        {ω | (discreteDistribution ((storageOrder width height).map weights) (engine ω)).1 =
          width * field.2 + field.1} := by
      ext ω
      exact position_eq_iff field
    rw [hevent, hdiscrete.proportional _ hall hpos _ (weights field), hsum, div_one]
    rw [List.getElem?_map, hindex]
    rfl

/-- On a board of any shape, for any estimates, any matrix of legal moves with at least one and any
positive temperature: `SampleSoftmax` returns a legal field, and each of them with the
probability of the softmax over the legal moves. -/
theorem sampleSoftmax_distribution (P : Measure Ω) (engine : Ω → Rng)
    (discreteDistribution : List ℝ → Rng → Nat × Rng)
    (hdiscrete : IsDiscreteDistribution P engine discreteDistribution)
    (exp : ℝ → ℝ) (hexp : ∀ x, 0 < exp x)
    (winProb legalMoves : Fin width × Fin height → ℝ)
    (hlegal : ∀ field, legalMoves field = 0 ∨ legalMoves field = 1)
    (hsome : ∃ field, legalMoves field = 1) (temperature : ℝ) (_htemperature : 0 < temperature) :
    (∀ rng, ∃ field, legalMoves field = 1 ∧
      (sampleSoftmax exp discreteDistribution winProb legalMoves temperature rng).1 =
        ⟨(field.1 : Nat), (field.2 : Nat)⟩) ∧
    ∀ field, legalMoves field = 1 →
      P.real {ω | (sampleSoftmax exp discreteDistribution winProb legalMoves temperature
          (engine ω)).1 = ⟨(field.1 : Nat), (field.2 : Nat)⟩} =
        exp (winProb field / temperature) /
          ∑ other with legalMoves other = 1, exp (winProb other / temperature) := by
  have hpos : 0 < ∑ other with legalMoves other = 1, exp (winProb other / temperature) :=
    sum_masked_pos hexp hsome
  have hmasked : ((storageOrder width height).map fun field =>
      exp (winProb field / temperature) * legalMoves field).sum =
        ∑ other with legalMoves other = 1, exp (winProb other / temperature) :=
    sum_masked hlegal
  have hnonneg : ∀ field, 0 ≤ exp (winProb field / temperature) * legalMoves field /
      ∑ other with legalMoves other = 1, exp (winProb other / temperature) := by
    intro field
    rcases hlegal field with hzero | hone
    · rw [hzero, mul_zero, zero_div]
    · rw [hone, mul_one]
      exact (div_pos (hexp _) hpos).le
  have hsum : ((storageOrder width height).map fun field =>
      exp (winProb field / temperature) * legalMoves field /
        ∑ other with legalMoves other = 1, exp (winProb other / temperature)).sum = 1 := by
    rw [sum_storageOrder, ← Finset.sum_div, ← sum_storageOrder, hmasked, div_self hpos.ne']
  unfold sampleSoftmax
  dsimp only
  rw [hmasked]
  obtain ⟨hinside, hprob⟩ := sampleWeightMatrix_distribution hdiscrete _ hnonneg hsum
  refine ⟨fun rng => ?_, fun field hfield => ?_⟩
  · obtain ⟨field, hne, hposition⟩ := hinside rng
    refine ⟨field, ?_, hposition⟩
    rcases hlegal field with hzero | hone
    · rw [hzero, mul_zero, zero_div] at hne
      exact absurd rfl hne
    · exact hone
  · rw [hprob field, hfield, mul_one]

end Distribution

/-! ## A uniform number -/

/-- A `std::discrete_distribution` that takes the number between 0 and 1 whose bits the generator
delivers as a fraction of the sum of the weights. -/
noncomputable def pickCanonical (weights : List ℝ) (rng : Rng) : Nat × Rng :=
  (pick weights (canonical rng * weights.sum), rng.tail)

/-- A uniform number between 0 and 1 gives the distribution that is promised. -/
theorem isDiscreteDistribution_pickCanonical :
    IsDiscreteDistribution (volume.restrict (Set.Ico (0 : ℝ) 1)) bits pickCanonical where
  positive := by
    intro weights _ hsum rng
    obtain ⟨hlow, hhigh⟩ := canonical_mem rng
    have hscaled : canonical rng * weights.sum < weights.sum := by
      simpa using mul_lt_mul_of_pos_right hhigh hsum
    obtain ⟨weight, hindex, hpos⟩ := pick_pos (mul_nonneg hlow hsum.le) hscaled
    exact ⟨weight, hindex, hpos.ne'⟩
  proportional := by
    intro weights hnonneg hsum i weight hweight
    exact measureReal_pick hnonneg hsum hweight fun u hu => canonical_bits hu

/-- Two fields of a board that is not a square. -/
def twoFields (field : Fin 3 × Fin 2) : ℝ := if field = (2, 0) ∨ field = (0, 1) then 1 else 0

/-- Estimates that prefer the first of them. -/
def preferred (value : ℝ) (field : Fin 3 × Fin 2) : ℝ := if field = (2, 0) then value else 0

/-- The exponential of the first is three times that of the second. -/
theorem sampleSoftmax_distribution_two_fields :
    (volume.restrict (Set.Ico (0 : ℝ) 1)).real
      {u | (sampleSoftmax Real.exp pickCanonical (preferred (2 * Real.log 3)) twoFields 2
        (bits u)).1 = ⟨2, 0⟩} = 3 / 4 := by
  have hlegal : ∀ field, twoFields field = 0 ∨ twoFields field = 1 := by
    intro field
    unfold twoFields
    split
    · exact Or.inr rfl
    · exact Or.inl rfl
  have hfirst : twoFields (2, 0) = 1 := by simp [twoFields]
  have h := (sampleSoftmax_distribution (volume.restrict (Set.Ico (0 : ℝ) 1)) bits pickCanonical
    isDiscreteDistribution_pickCanonical Real.exp Real.exp_pos (preferred (2 * Real.log 3))
    twoFields hlegal ⟨(2, 0), hfirst⟩ 2 two_pos).2 (2, 0) hfirst
  have hfields : (Finset.univ.filter fun field => twoFields field = 1) = {(2, 0), (0, 1)} := by
    ext field
    simp [twoFields, or_iff_not_imp_left]
  have hthree : Real.exp (preferred (2 * Real.log 3) (2, 0) / 2) = 3 := by
    simp [preferred, Real.exp_log]
  have hone : Real.exp (preferred (2 * Real.log 3) (0, 1) / 2) = 1 := by
    simp [preferred]
  rw [hfields, Finset.sum_pair (by decide), hthree, hone] at h
  refine h.trans ?_
  norm_num

end Gomoku
