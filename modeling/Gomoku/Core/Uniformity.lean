import Gomoku.Core.Feature
import Gomoku.Core.Sampling
import Gomoku.Library.CyclicSearch

/-!
# The sampler is not uniform

`Board::UniformlySampleLegalMove` finds the first column with an empty field from its first
offset on, and then the first empty field in that column from its second offset on
(`uniformlySampleLegalMove_grid`). The number of offsets that lead to a field is the product
of two shares. Both sides of the board are prime, so these are equal for all empty fields only
in four kinds of positions: `uniform_iff`.
-/

namespace Gomoku.Board

open Execution Random CyclicSearch

variable {board : Board} {field : Field}

/-- The field holds no stone. -/
def isOpen (board : Board) (field : Field) : Bool := board.owner field.position == .none

/-- The columns with an empty field. -/
def openColumns (board : Board) : Finset (Fin kWidth) :=
  Finset.univ.filter fun x => ∃ y : Fin kHeight, board.isOpen (x, y) = true

/-- The rows of the empty fields of a column. -/
def openRows (board : Board) (x : Fin kWidth) : Finset (Fin kHeight) :=
  Finset.univ.filter fun y => board.isOpen (x, y) = true

/-- The pairs of offsets for which the sampler returns a position. -/
def offsetsFor (build : Build) (board : Board) (position : Vector2i) : Finset Field :=
  Finset.univ.filter fun offsets =>
    (uniformlySampleLegalMove build board (drawing offsets.1 offsets.2 ⟨fun _ => 0⟩)).map
      Prod.fst = .ok position

/-- The sampler is uniform on a board if every field without a stone is what it returns for the
same number of pairs of offsets. -/
def Uniform (build : Build) (board : Board) : Prop :=
  ∀ p q, Inside p → Inside q →
    stoneAt build board p = .ok .none → stoneAt build board q = .ok .none →
    (offsetsFor build board p).card = (offsetsFor build board q).card

/-! ## The search of the sampler -/

/-- The column in which the search ends. -/
def searchColumn (board : Board) (xOffset : Fin kWidth) : Fin kWidth :=
  endFrom (fun x => decide (∃ y : Fin kHeight, board.isOpen (x, y) = true)) xOffset

/-- The row in which the search in a column ends. -/
def searchRow (board : Board) (x : Fin kWidth) (yOffset : Fin kHeight) : Fin kHeight :=
  endFrom (fun y => board.isOpen (x, y)) yOffset

/-- The nested loops go through the grid of fields. -/
theorem scan_eq_grid (offsets : Field) :
    scan offsets.1.val offsets.2.val = (grid offsets).map Field.position := by
  simp only [scan, grid, ← List.map_coe_finRange_eq_range, List.map_flatMap, List.flatMap_map,
    List.map_map]
  rfl

/-- The sampler searches the grid from the offsets it draws. -/
theorem uniformlySampleLegalMove_drawing (build : Build) (board : Board) (offsets : Field)
    (rng : Rng) :
    uniformlySampleLegalMove build board (drawing offsets.1 offsets.2 rng) =
      match ((grid offsets).find? board.isOpen).map Field.position with
      | some move => .ok (move, rng)
      | none => .error (.fatal "All legal moves exhausted") := by
  have hx : ((offsets.1 : Nat) : Int) ≤ 18 := by
    have hlt : (offsets.1 : Nat) < 19 := offsets.1.isLt
    omega
  have hy : ((offsets.2 : Nat) : Int) ≤ 18 := by
    have hlt : (offsets.2 : Nat) < 19 := offsets.2.isLt
    omega
  have hfind : (scan offsets.1.val offsets.2.val).find? (fun move => board.owner move == .none) =
      ((grid offsets).find? board.isOpen).map Field.position := by
    rw [scan_eq_grid, List.find?_map]
    rfl
  have hsample := uniformlySampleLegalMove_eq build board (drawing offsets.1 offsets.2 rng)
  rw [drawing, uniformInt_push hx, Rng.tail_push, uniformInt_push hy, Rng.tail_push, hfind]
    at hsample
  exact hsample

/-- The sampler finds a column with an empty field and then an empty field in that column. -/
theorem uniformlySampleLegalMove_grid (h : ∃ field, board.isOpen field = true) (build : Build)
    (offsets : Field) (rng : Rng) :
    uniformlySampleLegalMove build board (drawing offsets.1 offsets.2 rng) =
      .ok (Field.position (board.searchColumn offsets.1,
        board.searchRow (board.searchColumn offsets.1) offsets.2), rng) := by
  obtain ⟨⟨x, y⟩, hopen⟩ := h
  obtain ⟨hcolumn, hrow⟩ := firstFrom_eq_some
    (P := fun x => decide (∃ y : Fin kHeight, board.isOpen (x, y) = true))
    ⟨x, by simpa using ⟨y, hopen⟩⟩ offsets.1
  obtain ⟨hfield, _⟩ := firstFrom_eq_some
    (P := fun y => board.isOpen (board.searchColumn offsets.1, y))
    (by simpa [searchColumn] using hrow) offsets.2
  rw [uniformlySampleLegalMove_drawing, find?_grid, hcolumn, Option.bind_some]
  show (match ((firstFrom (fun y => board.isOpen (board.searchColumn offsets.1, y)) offsets.2).map
    fun y => (board.searchColumn offsets.1, y)).map Field.position with
    | some move => Except.ok (move, rng)
    | none => _) = _
  rw [hfield]
  rfl

/-- The columns in which the search can end are those with an empty field. -/
theorem retracts_searchColumn (h : ∃ field, board.isOpen field = true) :
    Retracts board.searchColumn board.openColumns := by
  obtain ⟨⟨x, y⟩, hopen⟩ := h
  have hretracts := retracts_endFrom
    (P := fun x => decide (∃ y : Fin kHeight, board.isOpen (x, y) = true))
    ⟨x, by simpa using ⟨y, hopen⟩⟩
  simp only [decide_eq_true_eq] at hretracts
  exact hretracts

/-- The rows in which the search in a column can end are those of its empty fields. -/
theorem retracts_searchRow {x : Fin kWidth} (hx : x ∈ board.openColumns) :
    Retracts (board.searchRow x) (board.openRows x) :=
  retracts_endFrom (by simpa [openColumns] using hx)

/-- The number of pairs of offsets that lead to a field. -/
theorem card_offsetsFor (h : ∃ field, board.isOpen field = true) (build : Build) (field : Field) :
    (offsetsFor build board field.position).card =
      share board.searchColumn field.1 * share (board.searchRow field.1) field.2 := by
  rw [← card_product_share]
  congr 1
  ext offsets
  simp only [offsetsFor, Finset.mem_filter, Finset.mem_univ, true_and,
    uniformlySampleLegalMove_grid h, Except.map, Except.ok.injEq, Field.position_injective.eq_iff,
    Prod.ext_iff]

/-! ## Uniform boards -/

theorem isOpen_iff (build : Build) :
    board.isOpen field = true ↔ stoneAt build board field.position = .ok .none := by
  rw [stoneAt_of_inside build board field.inside_position, isOpen, beq_iff_eq, Except.ok.injEq]

/-- Uniformity in terms of the shares. -/
theorem uniform_iff_shares (h : ∃ field, board.isOpen field = true) (build : Build) :
    Uniform build board ↔
      ∀ x ∈ board.openColumns, ∀ y ∈ board.openRows x,
        ∀ x' ∈ board.openColumns, ∀ y' ∈ board.openRows x',
          share board.searchColumn x * share (board.searchRow x) y =
            share board.searchColumn x' * share (board.searchRow x') y' := by
  have hmem : ∀ {x y}, board.isOpen (x, y) = true →
      x ∈ board.openColumns ∧ y ∈ board.openRows x := by
    intro x y hopen
    exact ⟨by simpa [openColumns] using ⟨y, hopen⟩, by simpa [openRows] using hopen⟩
  constructor
  · intro huniform x _ y hy x' _ y' hy'
    have hopen : board.isOpen (x, y) = true := by simpa [openRows] using hy
    have hopen' : board.isOpen (x', y') = true := by simpa [openRows] using hy'
    have hcard := huniform _ _ (Field.inside_position (x, y)) (Field.inside_position (x', y'))
      ((isOpen_iff build).mp hopen) ((isOpen_iff build).mp hopen')
    rw [card_offsetsFor h, card_offsetsFor h] at hcard
    exact hcard
  · intro hshares p q hp hq hpempty hqempty
    obtain ⟨⟨x, y⟩, rfl⟩ := Field.exists_position hp
    obtain ⟨⟨x', y'⟩, rfl⟩ := Field.exists_position hq
    obtain ⟨hx, hy⟩ := hmem ((isOpen_iff build).mpr hpempty)
    obtain ⟨hx', hy'⟩ := hmem ((isOpen_iff build).mpr hqempty)
    rw [card_offsetsFor h, card_offsetsFor h]
    exact hshares x hx y hy x' hx' y' hy'

/-- On a board that is not full the sampler is uniform exactly when one column or all columns have
an empty field, and either each of these has just one or each of these has no stone at all. -/
theorem uniform_iff (build : Build) (board : Board)
    (hnotfull : ∃ position, Inside position ∧ stoneAt build board position = .ok .none) :
    Uniform build board ↔
      (board.openColumns.card = 1 ∨ board.openColumns.card = kWidth) ∧
        ((∀ x ∈ board.openColumns, (board.openRows x).card = 1) ∨
          ∀ x ∈ board.openColumns, (board.openRows x).card = kHeight) := by
  have hopen : ∃ field, board.isOpen field = true := by
    obtain ⟨position, hposition, hempty⟩ := hnotfull
    obtain ⟨field, rfl⟩ := Field.exists_position hposition
    exact ⟨field, (isOpen_iff build).mpr hempty⟩
  have hprime : (Fintype.card (Fin kWidth)).Prime := by
    rw [Fintype.card_fin]
    decide
  rw [uniform_iff_shares hopen, equal_product_share_iff hprime (by simp [kWidth, kHeight])
    (retracts_searchColumn hopen) fun x hx => retracts_searchRow hx, Fintype.card_fin]

/-- The sampler is uniform when all columns but the last are full of stones and the last is empty. -/
theorem uniform_iff_last_column :
    Uniform .debug (after ((allFields.filter fun field => field.1 ≠ 18).map Field.position)) := by
  have hlegal : Legal ((allFields.filter fun field => field.1 ≠ 18).map Field.position) := by
    refine ⟨fun move hmove => ?_, (nodup_allFields.filter _).map Field.position_injective⟩
    obtain ⟨field, _, rfl⟩ := List.mem_map.mp hmove
    exact field.inside_position
  have hopen : ∀ field : Field,
      (after ((allFields.filter fun field => field.1 ≠ 18).map Field.position)).isOpen field =
        decide (field.1 = 18) := by
    intro field
    rw [isOpen, Bool.eq_iff_iff, beq_iff_eq, (represents_after hlegal).owner_eq_none_iff,
      List.mem_map_of_injective Field.position_injective]
    simp [mem_allFields]
  have hempty : ∃ position, Inside position ∧ stoneAt .debug
      (after ((allFields.filter fun field => field.1 ≠ 18).map Field.position)) position =
        .ok .none :=
    ⟨_, Field.inside_position (18, 0), (isOpen_iff .debug).mp (by rw [hopen]; rfl)⟩
  rw [uniform_iff .debug _ hempty]
  generalize after ((allFields.filter fun field => field.1 ≠ 18).map Field.position) = board
    at hopen
  refine ⟨Or.inl ?_, Or.inr fun x hx => ?_⟩
  · simp only [openColumns, hopen, decide_eq_true_eq]
    decide
  · obtain rfl : x = 18 := by simpa [openColumns, hopen] using hx
    simp [openRows, hopen]

/-- After a move in the corner, the field next to it in its column is what the sampler returns for
twice as many offsets as the field in the next column. -/
theorem not_uniform_one_move :
    Reachable .debug (after [⟨0, 0⟩]) ∧
      stoneAt .debug (after [⟨0, 0⟩]) ⟨0, 1⟩ = .ok .none ∧
      stoneAt .debug (after [⟨0, 0⟩]) ⟨1, 0⟩ = .ok .none ∧
      (offsetsFor .debug (after [⟨0, 0⟩]) ⟨0, 1⟩).card = 2 ∧
      (offsetsFor .debug (after [⟨0, 0⟩]) ⟨1, 0⟩).card = 1 ∧
      ¬ Uniform .debug (after [⟨0, 0⟩]) := by
  have hlegal : Legal [⟨0, 0⟩] := by decide
  have hrep := represents_after hlegal
  have hfirst : stoneAt .debug (after [⟨0, 0⟩]) ⟨0, 1⟩ = .ok .none := by
    rw [stoneAt_of_inside .debug _ (by decide), (hrep.owner_eq_none_iff _).mpr (by decide)]
  have hsecond : stoneAt .debug (after [⟨0, 0⟩]) ⟨1, 0⟩ = .ok .none := by
    rw [stoneAt_of_inside .debug _ (by decide), (hrep.owner_eq_none_iff _).mpr (by decide)]
  have htwo : (offsetsFor .debug (after [⟨0, 0⟩]) ⟨0, 1⟩).card = 2 := by decide +kernel
  have hone : (offsetsFor .debug (after [⟨0, 0⟩]) ⟨1, 0⟩).card = 1 := by decide +kernel
  refine ⟨(replay_eq_after .debug hlegal).2, hfirst, hsecond, htwo, hone, fun huniform => ?_⟩
  have hcard := huniform ⟨0, 1⟩ ⟨1, 0⟩ (by decide) (by decide) hfirst hsecond
  omega

end Gomoku.Board
