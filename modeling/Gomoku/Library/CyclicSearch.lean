import Mathlib.Algebra.BigOperators.Group.Finset.Basic
import Mathlib.Algebra.Group.Fin.Basic
import Mathlib.Algebra.Order.BigOperators.Group.Finset
import Mathlib.Data.Fintype.BigOperators
import Mathlib.Data.Fintype.Prod
import Mathlib.Data.Nat.Prime.Basic
import Mathlib.Tactic.Ring

/-!
# Searching around a circle from a random start

A search that starts anywhere on a circle and stops at the first point of a set `S` is a
retraction onto `S`. The number of starts that lead to a point is the `share` of the point.
On a circle of prime size all points of `S` have the same share only if `S` is one point or
everything (`Retracts.equal_share_iff`), and the same is true at both levels of a search that
finds a column first and then a row in it (`equal_product_share_iff`).
-/

namespace CyclicSearch

/-! ## Shares of a retraction -/

section Share

variable {ι : Type} [Fintype ι] [DecidableEq ι] {f : ι → ι} {S : Finset ι} {s t : ι}

/-- `f` leads from everywhere into `S` and stays where it is on `S`. -/
structure Retracts (f : ι → ι) (S : Finset ι) : Prop where
  mem : ∀ i, f i ∈ S
  fixed : ∀ s ∈ S, f s = s

/-- The number of points that `f` leads to `s`. -/
def share (f : ι → ι) (s : ι) : Nat := (Finset.univ.filter fun i => f i = s).card

namespace Retracts

/-- A point of the set is led to itself at least. -/
theorem share_pos (h : Retracts f S) (hs : s ∈ S) : 0 < share f s := by
  apply Finset.card_pos.mpr
  exact ⟨s, by simp [h.fixed s hs]⟩

/-- Every point is led somewhere in the set. -/
theorem sum_share (h : Retracts f S) : ∑ s ∈ S, share f s = Fintype.card ι := by
  rw [← Finset.card_univ]
  exact (Finset.card_eq_sum_card_fiberwise fun i _ => h.mem i).symm

/-- If all shares are equal, the size of the set times the share is the number of points. -/
theorem card_mul_share (h : Retracts f S) (hequal : ∀ t ∈ S, share f t = share f s) :
    S.card * share f s = Fintype.card ι := by
  rw [← h.sum_share]
  exact (Finset.sum_const_nat hequal).symm

/-- A single point has all of the shares. -/
theorem share_of_card_eq_one (h : Retracts f S) (hone : S.card = 1) (hs : s ∈ S) :
    share f s = Fintype.card ι := by
  obtain ⟨a, rfl⟩ := Finset.card_eq_one.mp hone
  rw [Finset.mem_singleton.mp hs, ← h.sum_share, Finset.sum_singleton]

/-- If every point is in the set, every share is 1. -/
theorem share_of_card_eq (h : Retracts f S) (hall : S.card = Fintype.card ι) (s : ι) :
    share f s = 1 := by
  have huniv : S = Finset.univ := Finset.card_eq_iff_eq_univ S |>.mp hall
  have hid : ∀ i, f i = i := fun i => h.fixed i (huniv ▸ Finset.mem_univ i)
  simp only [share, hid, Finset.filter_eq', Finset.mem_univ, if_true, Finset.card_singleton]

/-- Among a prime number of points, all shares are equal exactly when the set is one point or
everything. -/
theorem equal_share_iff (hp : (Fintype.card ι).Prime) (h : Retracts f S) :
    (∀ s ∈ S, ∀ t ∈ S, share f s = share f t) ↔ S.card = 1 ∨ S.card = Fintype.card ι := by
  constructor
  · intro hequal
    have hne : Nonempty ι := Fintype.card_pos_iff.mp hp.pos
    obtain ⟨i⟩ := hne
    have hmul := h.card_mul_share fun t ht => hequal t ht (f i) (h.mem i)
    exact (Nat.dvd_prime hp).mp ⟨_, hmul.symm⟩
  · intro hcard s hs t ht
    rcases hcard with hone | hall
    · rw [h.share_of_card_eq_one hone hs, h.share_of_card_eq_one hone ht]
    · rw [h.share_of_card_eq hall, h.share_of_card_eq hall]

/-- Two points do not have more than all of the shares together. -/
theorem share_add_share_le (h : Retracts f S) (hs : s ∈ S) (ht : t ∈ S) (hne : s ≠ t) :
    share f s + share f t ≤ Fintype.card ι := by
  rw [← h.sum_share, ← Finset.sum_pair hne]
  apply Finset.sum_le_sum_of_subset
  intro i hi
  rcases Finset.mem_insert.mp hi with rfl | hi
  · exact hs
  · exact Finset.mem_singleton.mp hi ▸ ht

end Retracts

end Share

/-! ## Two levels -/

section Product

variable {ι κ : Type} [Fintype ι] [DecidableEq ι] [Fintype κ] [DecidableEq κ]
  {f : ι → ι} {C : Finset ι} {g : ι → κ → κ} {R : ι → Finset κ}

/-- The points that lead to `x` by `f` and to `y` by the search in `x`. -/
theorem card_product_share (f : ι → ι) (g : ι → κ → κ) (x : ι) (y : κ) :
    (Finset.univ.filter fun start : ι × κ => f start.1 = x ∧ g (f start.1) start.2 = y).card =
      share f x * share (g x) y := by
  rw [share, share, ← Finset.card_product]
  congr 1
  ext start
  simp only [Finset.mem_filter, Finset.mem_univ, true_and, Finset.mem_product]
  constructor
  · intro h
    exact ⟨h.1, h.1 ▸ h.2⟩
  · intro h
    exact ⟨h.1, h.1.symm ▸ h.2⟩

omit [Fintype ι] [DecidableEq ι] in
/-- If the columns have one row each or all rows, all rows have the same share. -/
theorem row_share_eq (hg : ∀ x ∈ C, Retracts (g x) (R x))
    (hrows : (∀ x ∈ C, (R x).card = 1) ∨ ∀ x ∈ C, (R x).card = Fintype.card κ) {x x' : ι}
    {y y' : κ} (hx : x ∈ C) (hy : y ∈ R x) (hx' : x' ∈ C) (hy' : y' ∈ R x') :
    share (g x) y = share (g x') y' := by
  rcases hrows with hone | hall
  · rw [(hg x hx).share_of_card_eq_one (hone x hx) hy,
      (hg x' hx').share_of_card_eq_one (hone x' hx') hy']
  · rw [(hg x hx).share_of_card_eq (hall x hx), (hg x' hx').share_of_card_eq (hall x' hx')]

/-- The row of a column with one row has a larger share than the rows of a column with all rows. -/
theorem mixed_share_ne (hcard : Fintype.card κ = Fintype.card ι) (hf : Retracts f C)
    (hg : ∀ x ∈ C, Retracts (g x) (R x)) {x x' : ι} {y y' : κ} (hx : x ∈ C) (hy : y ∈ R x)
    (hx' : x' ∈ C) (hne : x ≠ x') (hone : (R x).card = 1)
    (hall : (R x').card = Fintype.card κ) :
    share f x * share (g x) y ≠ share f x' * share (g x') y' := by
  rw [(hg x hx).share_of_card_eq_one hone hy, (hg x' hx').share_of_card_eq hall, hcard,
    Nat.mul_one]
  have hle := hf.share_add_share_le hx hx' hne
  have hpos := hf.share_pos hx
  have hmul := Nat.le_mul_of_pos_left (Fintype.card ι) hpos
  omega

/-- A search for a column and then for a row, both among a prime number. All found points have
the same share exactly when the columns are one or all, and their rows are one each or all. -/
theorem equal_product_share_iff (hp : (Fintype.card ι).Prime)
    (hcard : Fintype.card κ = Fintype.card ι) (hf : Retracts f C)
    (hg : ∀ x ∈ C, Retracts (g x) (R x)) :
    (∀ x ∈ C, ∀ y ∈ R x, ∀ x' ∈ C, ∀ y' ∈ R x',
        share f x * share (g x) y = share f x' * share (g x') y') ↔
      (C.card = 1 ∨ C.card = Fintype.card ι) ∧
        ((∀ x ∈ C, (R x).card = 1) ∨ ∀ x ∈ C, (R x).card = Fintype.card κ) := by
  have hq : (Fintype.card κ).Prime := hcard ▸ hp
  constructor
  · intro hequal
    -- in one column the rows have equal shares
    have hrows : ∀ x ∈ C, (R x).card = 1 ∨ (R x).card = Fintype.card κ := by
      intro x hx
      apply ((hg x hx).equal_share_iff hq).mp
      intro y hy y' hy'
      exact Nat.eq_of_mul_eq_mul_left (hf.share_pos hx) (hequal x hx y hy x hx y' hy')
    have hsome : ∀ x ∈ C, ∃ y, y ∈ R x := by
      intro x hx
      obtain ⟨y⟩ : Nonempty κ := Fintype.card_pos_iff.mp hq.pos
      exact ⟨g x y, (hg x hx).mem y⟩
    have hcolumns : (∀ x ∈ C, (R x).card = 1) ∨ ∀ x ∈ C, (R x).card = Fintype.card κ := by
      by_cases hone : ∀ x ∈ C, (R x).card = 1
      · exact Or.inl hone
      · push Not at hone
        obtain ⟨x, hx, hnot⟩ := hone
        have hall := (hrows x hx).resolve_left hnot
        refine Or.inr fun x' hx' => (hrows x' hx').resolve_left fun hone' => ?_
        obtain ⟨y, hy⟩ := hsome x hx
        obtain ⟨y', hy'⟩ := hsome x' hx'
        have hne : x' ≠ x := fun heq => hnot (heq ▸ hone')
        exact mixed_share_ne hcard hf hg hx' hy' hx hne hone' hall (hequal x' hx' y' hy' x hx y hy)
    refine ⟨?_, hcolumns⟩
    apply (hf.equal_share_iff hp).mp
    intro x hx x' hx'
    obtain ⟨y, hy⟩ := hsome x hx
    obtain ⟨y', hy'⟩ := hsome x' hx'
    have hshares := hequal x hx y hy x' hx' y' hy'
    rw [row_share_eq hg hcolumns hx hy hx' hy'] at hshares
    exact Nat.eq_of_mul_eq_mul_right ((hg x' hx').share_pos hy') hshares
  · intro hshape x hx y hy x' hx' y' hy'
    obtain ⟨hcolumns, hrows⟩ := hshape
    rw [(hf.equal_share_iff hp).mpr hcolumns x hx x' hx', row_share_eq hg hrows hx hy hx' hy']

end Product

/-! ## The search -/

section Search

variable {n : Nat} [NeZero n] {P : Fin n → Bool} {start : Fin n}

/-- The first point with `P` from `start` on, going around once. -/
def firstFrom (P : Fin n → Bool) (start : Fin n) : Option (Fin n) :=
  ((List.finRange n).map fun i => i + start).find? P

/-- The search passes every point. -/
theorem mem_circle (start point : Fin n) : point ∈ (List.finRange n).map fun i => i + start :=
  List.mem_map.mpr ⟨point - start, List.mem_finRange _, sub_add_cancel point start⟩

/-- The search ends at once if the start has `P`. -/
theorem firstFrom_of_start (h : P start = true) : firstFrom P start = some start := by
  obtain ⟨m, rfl⟩ : ∃ m, n = m + 1 := ⟨n - 1, by have := NeZero.pos n; omega⟩
  rw [firstFrom, List.finRange_succ, List.map_cons, zero_add, List.find?_cons_of_pos h]

/-- Where the search ends; at its start if there is no point with `P`. -/
def endFrom (P : Fin n → Bool) (start : Fin n) : Fin n := (firstFrom P start).getD start

/-- If some point has `P`, the search ends at one. -/
theorem firstFrom_eq_some (h : ∃ point, P point = true) (start : Fin n) :
    firstFrom P start = some (endFrom P start) ∧ P (endFrom P start) = true := by
  obtain ⟨point, hpoint⟩ := h
  unfold endFrom
  cases hfound : firstFrom P start with
  | none =>
      have hnot := List.find?_eq_none.mp hfound point (mem_circle start point)
      exact absurd hpoint hnot
  | some found => exact ⟨rfl, List.find?_some hfound⟩

/-- The search is a retraction onto the points with `P`. -/
theorem retracts_endFrom (h : ∃ point, P point = true) :
    Retracts (endFrom P) (Finset.univ.filter fun point => P point = true) where
  mem := by
    intro start
    simpa using (firstFrom_eq_some h start).2
  fixed := by
    intro point hpoint
    have htrue : P point = true := by simpa using hpoint
    rw [endFrom, firstFrom_of_start htrue, Option.getD_some]

end Search

/-- A search for the first value is a search for the first element that has one. -/
theorem findSome?_eq_bind_find? {α β : Type} (F : α → Option β) (list : List α) :
    list.findSome? F = (list.find? fun item => (F item).isSome).bind F := by
  induction list with
  | nil => rfl
  | cons item rest ih =>
      rw [List.findSome?_cons, List.find?_cons]
      cases hvalue : F item with
      | none => simpa [hvalue] using ih
      | some value => simp [hvalue]

section Grid

variable {n m : Nat} [NeZero m]

/-- A search through the columns of a grid, and through the rows of each, both from a start and
going around once. -/
def grid (start : Fin n × Fin m) : List (Fin n × Fin m) :=
  (List.finRange n).flatMap fun i => (List.finRange m).map fun j => (i + start.1, j + start.2)

/-- The search finds the first column that has a point, and the first point in it. -/
theorem find?_grid (P : Fin n × Fin m → Bool) (start : Fin n × Fin m) :
    (grid start).find? P =
      (firstFrom (fun x => decide (∃ y, P (x, y) = true)) start.1).bind fun x =>
        (firstFrom (fun y => P (x, y)) start.2).map fun y => (x, y) := by
  have hcolumn : ∀ i : Fin n,
      ((List.finRange m).map fun j => (i + start.1, j + start.2)).find? P =
        (firstFrom (fun y => P (i + start.1, y)) start.2).map fun y => (i + start.1, y) := by
    intro i
    rw [firstFrom, List.find?_map, List.find?_map, Option.map_map]
    rfl
  have hsome : ∀ x : Fin n, (firstFrom (fun y => P (x, y)) start.2).isSome =
      decide (∃ y, P (x, y) = true) := by
    intro x
    rw [Bool.eq_iff_iff, decide_eq_true_iff, firstFrom, List.find?_isSome]
    constructor
    · intro h
      obtain ⟨y, _, hy⟩ := h
      exact ⟨y, hy⟩
    · intro h
      obtain ⟨y, hy⟩ := h
      exact ⟨y, mem_circle start.2 y, hy⟩
  rw [grid, List.find?_flatMap, findSome?_eq_bind_find?, firstFrom, List.find?_map,
    Option.bind_map]
  simp only [hcolumn, Option.isSome_map, hsome]
  rfl

end Grid

end CyclicSearch
