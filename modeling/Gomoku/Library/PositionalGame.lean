import Mathlib.Data.Finset.Card
import Mathlib.Data.Finset.Image
import Mathlib.Data.Set.Lattice
import Mathlib.Tactic.Common

/-!
# Positional games and windows on a line

In a positional game the players claim cells in turn, and the first to hold every cell of a
winning set wins. The cells, the players, the order of the turns and the winning sets are
arbitrary here. `completed_append_iff` is the incremental win test: after a move from an
undecided position, some winning set is complete exactly when one through the new cell is
held by the player who moved.

The last section is about winning sets that are windows of consecutive points of a line:
`window_iff` relates a window around a point to the lengths of the two runs leaving it.
-/

namespace PositionalGame

variable {C S : Type}

/-- `Owns turn moves player cell` says that `player` claimed `cell`, where `turn i` is the player
making the move with index `i`. -/
def Owns (turn : Nat → S) (moves : List C) (player : S) (cell : C) : Prop :=
  ∃ i, moves[i]? = some cell ∧ turn i = player

/-- `player` holds every cell of some winning set. -/
def Completed (turn : Nat → S) (winning : Set (Set C)) (moves : List C) (player : S) : Prop :=
  ∃ cells ∈ winning, ∀ cell ∈ cells, Owns turn moves player cell

variable {turn : Nat → S} {winning : Set (Set C)} {moves : List C} {player : S} {cell : C}

/-- Nobody owns a cell before the first move. -/
theorem not_owns_nil : ¬ Owns turn [] player cell := by
  intro h
  obtain ⟨i, hi, _⟩ := h
  simp at hi

/-- One more move adds its own cell to the cells of the player who made it. -/
theorem owns_append_iff {move : C} :
    Owns turn (moves ++ [move]) player cell ↔
      Owns turn moves player cell ∨ cell = move ∧ turn moves.length = player := by
  constructor
  · intro howns
    obtain ⟨i, hi, hturn⟩ := howns
    rcases Nat.lt_trichotomy i moves.length with hlt | rfl | hgt
    · rw [List.getElem?_append_left hlt] at hi
      exact Or.inl ⟨i, hi, hturn⟩
    · simp only [List.getElem?_concat_length, Option.some.injEq] at hi
      exact Or.inr ⟨hi.symm, hturn⟩
    · rw [List.getElem?_eq_none (by simp; omega)] at hi
      cases hi
  · intro howns
    rcases howns with ⟨i, hi, hturn⟩ | ⟨rfl, hturn⟩
    · obtain ⟨hlt, _⟩ := List.getElem?_eq_some_iff.mp hi
      exact ⟨i, by rw [List.getElem?_append_left hlt, hi], hturn⟩
    · exact ⟨moves.length, by simp, hturn⟩

/-- An owned cell is one of the moves. -/
theorem Owns.mem (h : Owns turn moves player cell) : cell ∈ moves := by
  obtain ⟨i, hi, _⟩ := h
  exact List.mem_of_getElem? hi

/-- Every move is owned by someone. -/
theorem exists_owns_of_mem (turn : Nat → S) (h : cell ∈ moves) :
    ∃ player, Owns turn moves player cell := by
  obtain ⟨i, hi⟩ := List.mem_iff_getElem?.mp h
  exact ⟨turn i, i, hi, rfl⟩

/-- Later moves take nothing away. -/
theorem Owns.append (h : Owns turn moves player cell) (later : List C) :
    Owns turn (moves ++ later) player cell := by
  obtain ⟨i, hi, hturn⟩ := h
  obtain ⟨hlt, _⟩ := List.getElem?_eq_some_iff.mp hi
  exact ⟨i, by rw [List.getElem?_append_left hlt, hi], hturn⟩

/-- A completed winning set stays complete. -/
theorem Completed.append (h : Completed turn winning moves player) (later : List C) :
    Completed turn winning (moves ++ later) player := by
  obtain ⟨cells, hwin, hall⟩ := h
  exact ⟨cells, hwin, fun cell hc => (hall cell hc).append later⟩

/-- A winning set completed by the last move contains the last cell and belongs to the player
who moved. -/
theorem Completed.through_last {move : C}
    (h : Completed turn winning (moves ++ [move]) player)
    (hbefore : ¬ Completed turn winning moves player) :
    turn moves.length = player ∧
      ∃ cells ∈ winning, move ∈ cells ∧
        ∀ cell ∈ cells, Owns turn (moves ++ [move]) player cell := by
  obtain ⟨cells, hwin, hall⟩ := h
  have hnew : ∃ cell ∈ cells, ¬ Owns turn moves player cell := by
    by_contra hnone
    push Not at hnone
    exact hbefore ⟨cells, hwin, hnone⟩
  obtain ⟨cell, hc, hnot⟩ := hnew
  rcases owns_append_iff.mp (hall cell hc) with hold | ⟨rfl, hturn⟩
  · exact absurd hold hnot
  · exact ⟨hturn, cells, hwin, hc, hall⟩

/-- The incremental win test. From a position in which nobody has won, a move decides the game
exactly when it completes a winning set through its own cell for the player who made it. -/
theorem completed_append_iff {move : C}
    (hbefore : ∀ player, ¬ Completed turn winning moves player) :
    (∃ player, Completed turn winning (moves ++ [move]) player) ↔
      ∃ cells ∈ winning, move ∈ cells ∧
        ∀ cell ∈ cells, Owns turn (moves ++ [move]) (turn moves.length) cell := by
  constructor
  · intro hdecided
    obtain ⟨player, h⟩ := hdecided
    obtain ⟨rfl, hset⟩ := h.through_last (hbefore player)
    exact hset
  · intro hset
    obtain ⟨cells, hwin, _, hall⟩ := hset
    exact ⟨turn moves.length, cells, hwin, hall⟩

/-- The game in which two players take the cells of their lists in turn. -/
def interleave : List C → List C → List C
  | x :: xs, y :: ys => x :: y :: interleave xs ys
  | [], ys => ys
  | xs, [] => xs

/-- The game has the cells of both lists. -/
theorem interleave_perm (xs ys : List C) : (interleave xs ys).Perm (xs ++ ys) := by
  induction xs, ys using interleave.induct with
  | case1 x xs y ys ih =>
      rw [interleave, List.cons_append]
      exact ((ih.cons y).trans List.perm_middle.symm).cons x
  | case2 ys => simp [interleave]
  | case3 xs _ => cases xs <;> simp [interleave]

/-- The first player makes the moves with even indices, the second player the others. -/
theorem interleave_getElem? {xs ys : List C} (hle : ys.length ≤ xs.length)
    (hle' : xs.length ≤ ys.length + 1) (i : Nat) :
    (interleave xs ys)[i]? = if i % 2 = 0 then xs[i / 2]? else ys[i / 2]? := by
  induction xs generalizing ys i with
  | nil =>
      obtain rfl : ys = [] := List.eq_nil_of_length_eq_zero (by simpa using hle)
      simp [interleave]
  | cons x xs ih =>
      cases ys with
      | nil =>
          obtain rfl : xs = [] := List.eq_nil_of_length_eq_zero (by simpa using hle')
          match i with
          | 0 => simp [interleave]
          | 1 => simp [interleave]
          | i + 2 => simp [interleave]
      | cons y ys =>
          match i with
          | 0 => simp [interleave]
          | 1 => simp [interleave]
          | i + 2 => simpa [interleave] using ih (by simpa using hle) (by simpa using hle') i

/-- Every owner of a cell in such a game took it from its own list. -/
theorem Owns.of_interleave {xs ys : List C} (hle : ys.length ≤ xs.length)
    (hle' : xs.length ≤ ys.length + 1) (h : Owns turn (interleave xs ys) player cell) :
    ∃ i, turn i = player ∧ (i % 2 = 0 ∧ cell ∈ xs ∨ i % 2 = 1 ∧ cell ∈ ys) := by
  obtain ⟨i, hi, hturn⟩ := h
  rw [interleave_getElem? hle hle'] at hi
  refine ⟨i, hturn, ?_⟩
  rcases Nat.mod_two_eq_zero_or_one i with heven | hodd
  · rw [if_pos heven] at hi
    exact Or.inl ⟨heven, List.mem_of_getElem? hi⟩
  · rw [if_neg (by omega)] at hi
    exact Or.inr ⟨hodd, List.mem_of_getElem? hi⟩

/-- A player who holds a set of `k` cells has made at least `k` moves. -/
theorem card_le_of_owns [DecidableEq C] [DecidableEq S] {cells : Finset C}
    (h : ∀ cell ∈ cells, Owns turn moves player cell) :
    cells.card ≤ ((Finset.range moves.length).filter fun i => turn i = player).card := by
  have hsub : cells.image some ⊆
      ((Finset.range moves.length).filter fun i => turn i = player).image (moves[·]?) := by
    intro entry hentry
    obtain ⟨cell, hc, rfl⟩ := Finset.mem_image.mp hentry
    obtain ⟨i, hi, hturn⟩ := h cell hc
    obtain ⟨hlt, _⟩ := List.getElem?_eq_some_iff.mp hi
    exact Finset.mem_image.mpr ⟨i, by simp [hlt, hturn], hi⟩
  calc cells.card = (cells.image some).card :=
        (Finset.card_image_of_injective _ (Option.some_injective C)).symm
    _ ≤ _ := Finset.card_le_card hsub
    _ ≤ _ := Finset.card_image_le

/-! ## Windows on a line -/

/-- `count` is the length of the run of points with `P` from index 0 on. -/
def RunLength (P : Nat → Prop) (count : Nat) : Prop :=
  (∀ j < count, P j) ∧ ¬ P count

/-- Around a point with `P`, a window of `n + 1` consecutive points with `P` exists exactly when
the runs on its two sides together have at least `n` points. -/
theorem window_iff {P : Int → Prop} (hzero : P 0) {forward backward : Nat}
    (hforward : RunLength (fun j => P (j + 1)) forward)
    (hbackward : RunLength (fun j => P (-(j + 1))) backward) (n : Nat) :
    n ≤ forward + backward ↔ ∃ k ≤ n, ∀ j ≤ n, P (j - k : Int) := by
  obtain ⟨hfwd, hfwdEnd⟩ := hforward
  obtain ⟨hbwd, hbwdEnd⟩ := hbackward
  constructor
  · intro hle
    refine ⟨min backward n, by omega, fun j hj => ?_⟩
    rcases Nat.lt_trichotomy j (min backward n) with hlt | rfl | hgt
    · have hpoint := hbwd (min backward n - j - 1) (by omega)
      have heq : (j - (min backward n : Nat) : Int) =
          -(((min backward n - j - 1 : Nat) : Int) + 1) := by omega
      rw [heq]
      exact hpoint
    · simpa using hzero
    · have hpoint := hfwd (j - min backward n - 1) (by omega)
      have heq : (j - (min backward n : Nat) : Int) =
          ((j - min backward n - 1 : Nat) : Int) + 1 := by omega
      rw [heq]
      exact hpoint
  · intro hwindow
    obtain ⟨k, hk, hall⟩ := hwindow
    -- a window reaching past either end of the runs would contain a point without `P`
    have hback : k ≤ backward := by
      by_contra hlt
      have hpoint := hall (k - (backward + 1)) (by omega)
      have heq : (((k - (backward + 1) : Nat) : Int) - k) = -((backward : Int) + 1) := by omega
      rw [heq] at hpoint
      exact hbwdEnd hpoint
    have hfront : n - k ≤ forward := by
      by_contra hlt
      have hpoint := hall (k + (forward + 1)) (by omega)
      have heq : (((k + (forward + 1) : Nat) : Int) - k) = (forward : Int) + 1 := by omega
      rw [heq] at hpoint
      exact hfwdEnd hpoint
    omega

end PositionalGame
