import Gomoku.Core.Stones
import Mathlib.Algebra.BigOperators.Group.Finset.Basic
import Mathlib.Algebra.Order.BigOperators.Group.Finset
import Mathlib.Algebra.Group.Int.Even
import Mathlib.Logic.Relation

/-!
# The representation invariant of the board

The bit set, the turn and the move counter describe one position: `Valid` is the invariant
that relates them, and `Reachable.valid` shows that every board reached from the starting
board by resets, moves and reverts on fields satisfies it, in whatever order they come and
whichever stone of the last player a revert takes back.
-/

namespace Gomoku

open Execution

/-- A field of the board as a pair of bounded coordinates. -/
abbrev Field := Fin kWidth × Fin kHeight

namespace Field

/-- The position of a field. -/
def position (field : Field) : Vector2i := ⟨field.1, field.2⟩

theorem inside_position (field : Field) : Board.Inside field.position := by
  have hx := field.1.isLt
  have hy := field.2.isLt
  simp only [kWidth, kHeight] at hx hy
  simp only [Board.Inside, position]
  omega

theorem position_injective : Function.Injective position := by
  intro f g h
  simp only [position, Vector2i.mk.injEq, Nat.cast_inj] at h
  exact Prod.ext (Fin.ext h.1) (Fin.ext h.2)

/-- Every position inside the board is the position of a field. -/
theorem exists_position {p : Vector2i} (h : Board.Inside p) :
    ∃ field : Field, field.position = p := by
  obtain ⟨hx, hx', hy, hy'⟩ := h
  refine ⟨(⟨p.x.toNat, ?_⟩, ⟨p.y.toNat, ?_⟩), ?_⟩
  · simp only [kWidth]
    omega
  · simp only [kHeight]
    omega
  · exact Vector2i.ext (Int.toNat_of_nonneg hx) (Int.toNat_of_nonneg hy)

end Field

namespace Board

/-! ## Counting stones -/

/-- The number of fields that hold a stone of `player`; of empty fields for `Player.none`. -/
def stones (board : Board) (player : Player) : Nat :=
  (Finset.univ.filter fun field : Field => board.owner field.position = player).card

variable {build : Build} {board next : Board} {move : Vector2i}

theorem stones_eq_sum (board : Board) (player : Player) :
    board.stones player =
      ∑ field : Field, if board.owner field.position = player then 1 else 0 := by
  simp [stones]

/-- Changing the owner of one field moves that field from one count to another. -/
theorem stones_update {owner : Player} (h : Inside move)
    (hupdate : ∀ position, next.owner position =
      if position = move then owner else board.owner position) (player : Player) :
    next.stones player + (if board.owner move = player then 1 else 0) =
      board.stones player + (if owner = player then 1 else 0) := by
  obtain ⟨field, rfl⟩ := Field.exists_position h
  have hrest : ∑ other ∈ Finset.univ.erase field,
        (if next.owner other.position = player then 1 else 0) =
      ∑ other ∈ Finset.univ.erase field,
        (if board.owner other.position = player then 1 else 0) := by
    apply Finset.sum_congr rfl
    intro other hother
    have hne : other.position ≠ field.position :=
      fun heq => Finset.ne_of_mem_erase hother (Field.position_injective heq)
    rw [hupdate, if_neg hne]
  have hnext : next.owner field.position = owner := by rw [hupdate, if_pos rfl]
  rw [stones_eq_sum, stones_eq_sum, ← Finset.add_sum_erase _ _ (Finset.mem_univ field),
    ← Finset.add_sum_erase Finset.univ
      (fun f : Field => if board.owner f.position = player then 1 else 0) (Finset.mem_univ field),
    hrest, hnext]
  omega

/-- Every field is counted once. -/
theorem stones_total (board : Board) :
    board.stones .first + board.stones .second + board.stones .none = 361 := by
  rw [stones_eq_sum, stones_eq_sum, stones_eq_sum, ← Finset.sum_add_distrib,
    ← Finset.sum_add_distrib]
  have hone : ∀ field : Field,
      ((if board.owner field.position = .first then 1 else 0) +
        (if board.owner field.position = .second then 1 else 0) +
        (if board.owner field.position = .none then 1 else 0)) = 1 := by
    intro field
    cases board.owner field.position <;> simp
  rw [Finset.sum_congr rfl fun field _ => hone field]
  simp [kWidth, kHeight]

/-- There is an empty field exactly when some field is counted as empty. -/
theorem stones_none_eq_zero_iff (board : Board) :
    board.stones .none = 0 ↔ ∀ position, Inside position → board.owner position ≠ .none := by
  rw [stones, Finset.card_eq_zero, Finset.filter_eq_empty_iff]
  constructor
  · intro h position hposition
    obtain ⟨field, rfl⟩ := Field.exists_position hposition
    exact h (Finset.mem_univ field)
  · intro h field _
    exact h field.position field.inside_position

/-! ## The invariant -/

/-- The bit set, the turn and the counter agree with one another. -/
structure Valid (board : Board) : Prop where
  exclusive : ∀ position, Inside position →
    board.fields.getLsbD (slot position) = true →
    board.fields.getLsbD (slot position + 1) = false
  count_fields : board.movesMade = Bitset.count board.fields
  count_stones : board.movesMade = (board.stones .first + board.stones .second : Nat)
  balance : board.currentPlayer = .first ∧ board.stones .first = board.stones .second ∨
    board.currentPlayer = .second ∧ board.stones .first = board.stones .second + 1

namespace Valid

/-- Somebody is to move. -/
theorem currentPlayer_ne_none (h : board.Valid) : board.currentPlayer ≠ .none := by
  rcases h.balance with ⟨hp, _⟩ | ⟨hp, _⟩ <;> simp [hp]

/-- The starting board is valid. -/
theorem reset (board : Board) : board.reset.Valid := by
  have hempty : ∀ position, board.reset.owner position = .none := by
    intro position
    simp [owner, Board.reset]
  have hstones : ∀ player, player ≠ .none → board.reset.stones player = 0 := by
    intro player hplayer
    rw [stones, Finset.card_eq_zero, Finset.filter_eq_empty_iff]
    intro field _ heq
    exact hplayer ((hempty field.position).symm.trans heq).symm
  refine ⟨?_, ?_, ?_, ?_⟩
  · intro position _ hbit
    simp [Board.reset] at hbit
  · simp [Board.reset]
  · rw [hstones .first (by simp), hstones .second (by simp)]
    rfl
  · left
    exact ⟨rfl, by rw [hstones .first (by simp), hstones .second (by simp)]⟩

/-- A stone placed on an empty field keeps the board valid. -/
theorem place (h : board.Valid) (hmove : Inside move) (hempty : board.owner move = .none) :
    (board.place move).Valid := by
  have hplayer := h.currentPlayer_ne_none
  obtain ⟨hclear, hclear'⟩ := (owner_eq_none_iff hmove).mp hempty
  have hstones := stones_update hmove (owner_place hmove hempty hplayer)
  have hfirst := hstones .first
  have hsecond := hstones .second
  simp only [hempty] at hfirst hsecond
  refine ⟨?_, ?_, ?_, ?_⟩
  · intro position hposition hbit
    have hb := place_bit hmove hplayer hposition .first (by simp)
    have hb' := place_bit hmove hplayer hposition .second (by simp)
    simp only [Player.offset, Nat.add_zero] at hb hb'
    rw [hb] at hbit
    rw [hb']
    by_cases hsame : position = move
    · subst hsame
      cases hcurrent : board.currentPlayer <;> simp_all
    · simp only [hsame, false_and, if_false] at hbit ⊢
      exact h.exclusive position hposition hbit
  · have hbit : board.fields.getLsbD (slot move + board.currentPlayer.offset) = false := by
      cases board.currentPlayer <;> simpa [Player.offset]
    have hcount := Bitset.count_write_true board.fields
      (slot_add_offset_lt hmove board.currentPlayer) hbit
    simp only [Board.place, hcount, h.count_fields]
    push_cast
    ring
  · rw [place_movesMade, h.count_stones]
    rcases h.balance with ⟨hp, _⟩ | ⟨hp, _⟩ <;> simp [hp] at hfirst hsecond <;> omega
  · rcases h.balance with ⟨hp, hb⟩ | ⟨hp, hb⟩
    · right
      simp [hp] at hfirst hsecond
      exact ⟨by simp [hp, Player.opponent], by omega⟩
    · left
      simp [hp] at hfirst hsecond
      exact ⟨by simp [hp, Player.opponent], by omega⟩

end Valid

/-- A removed stone leaves its field empty, and no other field changes. -/
theorem owner_remove (h : board.Valid) (hmove : Inside move)
    (hbit : board.fields.getLsbD (slot move + board.currentPlayer.opponent.offset) = true)
    (position : Vector2i) :
    (board.remove move).owner position =
      if position = move then .none else board.owner position := by
  have hplayer := h.currentPlayer_ne_none
  by_cases hposition : Inside position
  · have hfirst := remove_bit hmove hplayer hposition .first (by simp)
    have hsecond := remove_bit hmove hplayer hposition .second (by simp)
    simp only [Player.offset, Nat.add_zero] at hfirst hsecond
    simp only [owner, hposition, if_true, hfirst, hsecond]
    by_cases hsame : position = move
    · subst hsame
      have hexclusive := h.exclusive position hposition
      cases hcurrent : board.currentPlayer <;>
        simp_all [Player.opponent, Player.offset]
    · simp [hsame]
  · have hne : position ≠ move := fun heq => hposition (heq ▸ hmove)
    rw [owner_of_not_inside hposition, owner_of_not_inside hposition, if_neg hne]

/-- The stone that a revert takes back belongs to the player who moved last. -/
theorem owner_of_bit (h : board.Valid) (hmove : Inside move)
    (hbit : board.fields.getLsbD (slot move + board.currentPlayer.opponent.offset) = true) :
    board.owner move = board.currentPlayer.opponent := by
  have hexclusive := h.exclusive move hmove
  simp only [owner, hmove, if_true]
  rcases h.balance with ⟨hp, _⟩ | ⟨hp, _⟩ <;> simp_all [Player.opponent, Player.offset]

namespace Valid

/-- Taking back a stone of the player who moved last keeps the board valid. -/
theorem remove (h : board.Valid) (hmove : Inside move)
    (hbit : board.fields.getLsbD (slot move + board.currentPlayer.opponent.offset) = true) :
    (board.remove move).Valid := by
  have hplayer := h.currentPlayer_ne_none
  have howner := owner_of_bit h hmove hbit
  have hstones := stones_update hmove (owner_remove h hmove hbit)
  have hfirst := hstones .first
  have hsecond := hstones .second
  simp only [howner] at hfirst hsecond
  refine ⟨?_, ?_, ?_, ?_⟩
  · intro position hposition hb
    have hb' := remove_bit hmove hplayer hposition .first (by simp)
    have hb'' := remove_bit hmove hplayer hposition .second (by simp)
    simp only [Player.offset, Nat.add_zero] at hb' hb''
    rw [hb'] at hb
    rw [hb'']
    have hold : board.fields.getLsbD (slot position) = true := by
      split at hb
      · cases hb
      · exact hb
    split
    · rfl
    · exact h.exclusive position hposition hold
  · have hcount := Bitset.count_write_false board.fields
      (slot_add_offset_lt hmove board.currentPlayer.opponent) hbit
    simp only [Board.remove, h.count_fields]
    omega
  · rw [remove_movesMade, h.count_stones]
    rcases h.balance with ⟨hp, _⟩ | ⟨hp, _⟩ <;>
      simp [hp, Player.opponent] at hfirst hsecond <;> omega
  · rcases h.balance with ⟨hp, hb⟩ | ⟨hp, hb⟩
    · right
      simp [hp, Player.opponent] at hfirst hsecond
      exact ⟨by simp [hp, Player.opponent], by omega⟩
    · left
      simp [hp, Player.opponent] at hfirst hsecond
      exact ⟨by simp [hp, Player.opponent], by omega⟩

/-- The counter never exceeds the number of fields. -/
theorem movesMade_le (h : board.Valid) : 0 ≤ board.movesMade ∧ board.movesMade ≤ 361 := by
  have htotal := board.stones_total
  have hcount := h.count_stones
  omega

/-- No move is possible exactly when every field holds a stone. -/
theorem noMovePossible_iff (h : board.Valid) :
    board.noMovePossible = true ↔
      ∀ position, Inside position → board.owner position ≠ .none := by
  have htotal := board.stones_total
  have hcount := h.count_stones
  rw [← stones_none_eq_zero_iff]
  simp only [noMovePossible, kWidth, kHeight, beq_iff_eq]
  omega

end Valid

/-! ## Runs -/

/-- One operation on a board that passes its checks, on a field of the board. -/
inductive Step (build : Build) : Board → Board → Prop where
  | reset (start) : Step build start start.reset
  | applyMove (start move finish) :
      Inside move → applyMove build start move = .ok finish → Step build start finish
  | revertMove (start move finish) :
      Inside move → revertMove build start move = .ok finish → Step build start finish

/-- The boards reached from the starting board by any sequence of operations. -/
def Reachable (build : Build) : Board → Prop := Relation.ReflTransGen (Step build) new

/-- Every operation keeps a valid board valid. -/
theorem Step.valid (h : Step build board next) (hvalid : board.Valid) : next.Valid := by
  cases h with
  | reset => exact Valid.reset board
  | applyMove move _ hmove happly =>
      obtain ⟨hempty, _, rfl⟩ := (applyMove_eq_ok hmove).mp happly
      exact hvalid.place hmove hempty
  | revertMove move _ hmove hrevert =>
      obtain ⟨_, hbit, rfl⟩ := (revertMove_eq_ok hmove).mp hrevert
      exact hvalid.remove hmove hbit

/-- Every reachable board is valid. -/
theorem Reachable.valid (h : Reachable build board) : board.Valid := by
  induction h with
  | refl => exact Valid.reset _
  | tail _ hstep ih => exact hstep.valid ih

/-- A stone on an empty field leads from a reachable board to a reachable board. -/
theorem Reachable.place (h : Reachable build board) (hmove : Inside move)
    (hempty : board.owner move = .none) : Reachable build (board.place move) :=
  h.tail (.applyMove board move _ hmove
    (applyMove_of_empty build hmove hempty h.valid.currentPlayer_ne_none))

/-- Taking back a stone of the player who moved last leads from a reachable board to a
reachable board. -/
theorem Reachable.remove (h : Reachable build board) (hmove : Inside move)
    (hbit : board.fields.getLsbD (slot move + board.currentPlayer.opponent.offset) = true) :
    Reachable build (board.remove move) :=
  h.tail (.revertMove board move _ hmove
    ((revertMove_eq_ok hmove).mpr ⟨h.valid.currentPlayer_ne_none, hbit, rfl⟩))

/-! ## Calls on positions outside the board

Without its debug assertion a move on a position outside the board can pass: its index may be
the index of a field in the next or the previous column. It then has the effect of a move on
that field. -/

theorem index_eq_ok {i : Int} (h : index move = .ok i) : i = (move.x * 19 + move.y) * 2 := by
  obtain ⟨column, hcolumn, h⟩ := bind_eq_ok.mp h
  obtain ⟨field, hfield, h⟩ := bind_eq_ok.mp h
  rw [int32_eq_ok h, int32_eq_ok hfield, int32_eq_ok hcolumn]
  rfl

/-- An index in the bit set is the index of a field. -/
theorem exists_field_of_index {i : Int} (h : index move = .ok i) (hlow : -1 ≤ i)
    (hhigh : i < 722) : ∃ field, Inside field ∧ index field = .ok i := by
  have heven := index_eq_ok h
  have hinside : Inside ⟨i / 38, i / 2 % 19⟩ := by
    simp only [Inside]
    omega
  refine ⟨⟨i / 38, i / 2 % 19⟩, hinside, ?_⟩
  rw [index_of_inside hinside]
  simp only [slot]
  congr 1
  omega

/-- A move that passes its checks has the effect of a move on a field. -/
theorem exists_field_of_applyMove (h : applyMove build board move = .ok next) :
    ∃ field, Inside field ∧ applyMove build board field = .ok next := by
  obtain ⟨_, _, h⟩ := bind_eq_ok.mp h
  obtain ⟨i, hindex, h⟩ := bind_eq_ok.mp h
  obtain ⟨bit, htest, _⟩ := bind_eq_ok.mp h
  obtain ⟨hlow, hhigh⟩ := Bitset.range_of_test htest
  obtain ⟨field, hinside, hfield⟩ := exists_field_of_index hindex (by omega) hhigh
  refine ⟨field, hinside, ?_⟩
  unfold applyMove
  rw [inside_iff.mpr hinside, dcheck_true, ok_bind, hfield]
  exact h

/-- A revert that passes its checks has the effect of a revert on a field. -/
theorem exists_field_of_revertMove (h : revertMove build board move = .ok next) :
    ∃ field, Inside field ∧ revertMove build board field = .ok next := by
  obtain ⟨_, _, h⟩ := bind_eq_ok.mp h
  obtain ⟨i, hindex, h⟩ := bind_eq_ok.mp h
  obtain ⟨player, hplayer, hrest⟩ := bind_eq_ok.mp h
  obtain ⟨offset, hoffset, hrest⟩ := bind_eq_ok.mp hrest
  obtain ⟨bit, htest, _⟩ := bind_eq_ok.mp hrest
  obtain ⟨hlow, hhigh⟩ := Bitset.range_of_test htest
  have hbit : offset = 0 ∨ offset = 1 := by
    cases player with
    | none => cases hoffset
    | first => exact Or.inl (Except.ok.inj hoffset).symm
    | second => exact Or.inr (Except.ok.inj hoffset).symm
  have hsize : i + offset < 722 := hhigh
  obtain ⟨field, hinside, hfield⟩ := exists_field_of_index hindex (by omega) (by omega)
  refine ⟨field, hinside, ?_⟩
  unfold revertMove
  rw [inside_iff.mpr hinside, dcheck_true, ok_bind, hfield]
  exact h

/-- One call on a board that passes its checks, on any position. -/
inductive Call (build : Build) : Board → Board → Prop where
  | reset (start) : Call build start start.reset
  | applyMove (start move finish) :
      applyMove build start move = .ok finish → Call build start finish
  | revertMove (start move finish) :
      revertMove build start move = .ok finish → Call build start finish

theorem Call.step (h : Call build board next) : Step build board next := by
  cases h with
  | reset => exact .reset board
  | applyMove move _ happly =>
      obtain ⟨field, hinside, hfield⟩ := exists_field_of_applyMove happly
      exact .applyMove board field next hinside hfield
  | revertMove move _ hrevert =>
      obtain ⟨field, hinside, hfield⟩ := exists_field_of_revertMove hrevert
      exact .revertMove board field next hinside hfield

theorem Step.call (h : Step build board next) : Call build board next := by
  cases h with
  | reset => exact .reset board
  | applyMove move _ _ happly => exact .applyMove board move next happly
  | revertMove move _ _ hrevert => exact .revertMove board move next hrevert

/-- Calls on any positions reach no other boards. -/
theorem reachable_iff_calls :
    Reachable build board ↔ Relation.ReflTransGen (Call build) new board := by
  have hsame : Step build = Call build := by
    funext start finish
    exact propext ⟨Step.call, Call.step⟩
  rw [Reachable, hsame]

/-- What the three redundant parts of the representation say about each other on every
reachable board. -/
theorem reachable_representation (build : Build) {board : Board}
    (h : Reachable build board) :
    (∀ position index, Inside position → Board.index position = .ok index →
      ¬ (Bitset.test board.fields index = .ok true ∧
        Bitset.test board.fields (index + 1) = .ok true)) ∧
    board.movesMade = Bitset.count board.fields ∧
    (0 ≤ board.movesMade ∧ board.movesMade ≤ kWidth * kHeight) ∧
    (board.currentPlayer = .first ↔ Even board.movesMade) ∧
    board.currentPlayer ≠ .none ∧
    (board.currentPlayer = .first → board.stones .first = board.stones .second) ∧
    (board.currentPlayer = .second → board.stones .first = board.stones .second + 1) ∧
    (board.noMovePossible = true ↔
      ∀ position, Inside position → ∃ stone, stoneAt build board position = .ok stone ∧
        stone ≠ .none) := by
  have hvalid := h.valid
  have hcount := hvalid.count_stones
  refine ⟨?_, hvalid.count_fields, hvalid.movesMade_le, ?_, hvalid.currentPlayer_ne_none,
    ?_, ?_, ?_⟩
  · intro position index hposition hindex hboth
    obtain ⟨hfirst, hsecond⟩ := hboth
    have hlt := slot_add_one_lt hposition
    have hslot : index = slot position :=
      Except.ok.inj (hindex.symm.trans (index_of_inside hposition))
    have hshift : index + 1 = (slot position + 1 : Nat) := by omega
    rw [hslot, Bitset.test_of_lt _ (by omega)] at hfirst
    rw [hshift, Bitset.test_of_lt _ hlt] at hsecond
    have hclear := hvalid.exclusive position hposition (Except.ok.inj hfirst)
    rw [hclear] at hsecond
    cases hsecond
  · rw [Int.even_iff, hcount]
    rcases hvalid.balance with ⟨hp, hb⟩ | ⟨hp, hb⟩
    · simp only [hp, true_iff]
      omega
    · simp only [hp, reduceCtorEq, false_iff]
      omega
  · intro hp
    rcases hvalid.balance with ⟨_, hb⟩ | ⟨hp', _⟩
    · exact hb
    · simp [hp] at hp'
  · intro hp
    rcases hvalid.balance with ⟨hp', _⟩ | ⟨_, hb⟩
    · simp [hp] at hp'
    · exact hb
  · rw [hvalid.noMovePossible_iff]
    apply forall₂_congr
    intro position hposition
    simp [stoneAt_of_inside build board hposition]

/-- The invariant after three moves and a revert of the oldest stone of the last player. -/
theorem reachable_representation_out_of_order :
    ((((new.place ⟨0, 0⟩).place ⟨1, 1⟩).place ⟨2, 2⟩).remove ⟨0, 0⟩).movesMade =
      Bitset.count ((((new.place ⟨0, 0⟩).place ⟨1, 1⟩).place ⟨2, 2⟩).remove ⟨0, 0⟩).fields := by
  have hreach : Reachable .debug
      ((((new.place ⟨0, 0⟩).place ⟨1, 1⟩).place ⟨2, 2⟩).remove ⟨0, 0⟩) := by
    apply Reachable.remove _ (by decide) (by decide +kernel)
    apply Reachable.place _ (by decide) (by decide +kernel)
    apply Reachable.place _ (by decide) (by decide +kernel)
    exact Reachable.place Relation.ReflTransGen.refl (by decide) (by decide +kernel)
  exact (reachable_representation .debug hreach).2.1

end Board

end Gomoku
