import Gomoku.Core.Board

/-!
# The stones on a board

The owner of a field as a total function on positions, and one specification lemma for
every operation of the board in terms of it. `applyMove_eq_ok` and `revertMove_eq_ok` say
everything a passed move or revert did: later proofs use `owner`, `place` and `remove` and
never the bits.
-/

namespace Gomoku

open Execution

/-- The opponent of a player. Nobody is the opponent of nobody. -/
def Player.opponent : Player → Player
  | .first => .second
  | .second => .first
  | .none => .none

@[simp] theorem Player.opponent_opponent (player : Player) :
    player.opponent.opponent = player := by
  cases player <;> rfl

@[simp] theorem Player.opponent_eq_none {player : Player} :
    player.opponent = .none ↔ player = .none := by
  cases player <;> simp [Player.opponent]

theorem kOpponent_get {player : Player} (h : player ≠ .none) :
    kOpponent.get player = .ok player.opponent := by
  cases player <;> first | rfl | exact absurd rfl h

/-- The bit offset of a player as a natural number. -/
def Player.offset : Player → Nat
  | .first => 0
  | _ => 1

theorem kPlayerOffset_get {player : Player} (h : player ≠ .none) :
    kPlayerOffset.get player = .ok (player.offset : Int) := by
  cases player <;> first | rfl | exact absurd rfl h

namespace Board

/-! ## Positions inside the board -/

/-- The position is a field of the board. -/
def Inside (position : Vector2i) : Prop :=
  0 ≤ position.x ∧ position.x < 19 ∧ 0 ≤ position.y ∧ position.y < 19

instance (position : Vector2i) : Decidable (Inside position) :=
  inferInstanceAs (Decidable (_ ∧ _))

theorem inside_eq_decide (position : Vector2i) : inside position = decide (Inside position) := by
  rw [Bool.eq_iff_iff, decide_eq_true_iff]
  simp [inside, Inside, and_assoc]

@[simp] theorem inside_iff {position : Vector2i} : inside position = true ↔ Inside position := by
  simp [inside_eq_decide]

/-- The position of a field's first bit. -/
def slot (position : Vector2i) : Nat := (position.x.toNat * 19 + position.y.toNat) * 2

theorem slot_add_one_lt {position : Vector2i} (h : Inside position) :
    slot position + 1 < kWidth * kHeight * 2 := by
  obtain ⟨_, _, _, _⟩ := h
  simp only [slot, kWidth, kHeight]
  omega

/-- Different fields have different bits. -/
theorem slot_injective {p q : Vector2i} (hp : Inside p) (hq : Inside q)
    (h : slot p = slot q) : p = q := by
  obtain ⟨_, _, _, _⟩ := hp
  obtain ⟨_, _, _, _⟩ := hq
  simp only [slot] at h
  exact Vector2i.ext (by omega) (by omega)

/-- The bits of two players at two fields coincide only for the same player and field. -/
theorem slot_add_offset_inj {p q : Vector2i} (hp : Inside p) (hq : Inside q)
    {s t : Player} (hs : s ≠ .none) (ht : t ≠ .none)
    (h : slot p + s.offset = slot q + t.offset) : p = q ∧ s = t := by
  have hbit : slot p = slot q ∧ s.offset = t.offset := by
    have hps : slot p % 2 = 0 := by simp [slot]
    have hqs : slot q % 2 = 0 := by simp [slot]
    have hsb : s.offset ≤ 1 := by cases s <;> simp [Player.offset]
    have htb : t.offset ≤ 1 := by cases t <;> simp [Player.offset]
    omega
  refine ⟨slot_injective hp hq hbit.1, ?_⟩
  have hoff := hbit.2
  cases s <;> cases t <;> simp_all [Player.offset]

/-- On a field the index is the position of its first bit. -/
theorem index_of_inside {position : Vector2i} (h : Inside position) :
    index position = .ok (slot position : Int) := by
  obtain ⟨_, _, _, _⟩ := h
  simp only [index, kHeight]
  rw [int32_of_mem (by omega) (by omega), ok_bind, int32_of_mem (by omega) (by omega), ok_bind,
    int32_of_mem (by omega) (by omega)]
  simp only [slot]
  congr 1
  omega

/-! ## Owners -/

/-- The owner of the stone on a position, `Player.none` for an empty field and outside the
board. -/
def owner (board : Board) (position : Vector2i) : Player :=
  if Inside position then
    if board.fields.getLsbD (slot position) then .first
    else if board.fields.getLsbD (slot position + 1) then .second
    else .none
  else .none

variable {build : Build} {board next : Board} {position move : Vector2i}

theorem owner_of_not_inside (h : ¬ Inside position) : board.owner position = .none :=
  if_neg h

/-- Stones lie inside the board. -/
theorem inside_of_owner {player : Player} (hplayer : player ≠ .none)
    (h : board.owner position = player) : Inside position := by
  by_contra hout
  exact hplayer (h ▸ owner_of_not_inside hout)

/-- `StoneAt` returns the owner of every field. -/
theorem stoneAt_of_inside (build : Build) (board : Board) (h : Inside position) :
    stoneAt build board position = .ok (board.owner position) := by
  have hlt := slot_add_one_lt h
  have hfirst := Bitset.test_of_lt board.fields (i := slot position) (by omega)
  have hsecond := Bitset.test_of_lt board.fields (i := slot position + 1) hlt
  push_cast at hsecond
  simp only [stoneAt, inside_eq_decide, h, decide_true, dcheck_true, ok_bind, index_of_inside h,
    hfirst, hsecond, owner, if_true, pure_eq_ok]
  cases board.fields.getLsbD (slot position) <;>
    cases board.fields.getLsbD (slot position + 1) <;> rfl

/-- `StoneAtPadded` returns the owner of every position. -/
theorem stoneAtPadded_eq (build : Build) (board : Board) (position : Vector2i) :
    stoneAtPadded build board position = .ok (board.owner position) := by
  unfold stoneAtPadded
  by_cases h : Inside position
  · simp [inside_eq_decide, h, stoneAt_of_inside build board h]
  · simp [inside_eq_decide, h, owner_of_not_inside h]

/-- A field is empty when both of its bits are clear. -/
theorem owner_eq_none_iff (h : Inside position) :
    board.owner position = .none ↔
      board.fields.getLsbD (slot position) = false ∧
        board.fields.getLsbD (slot position + 1) = false := by
  simp only [owner, h, if_true]
  cases board.fields.getLsbD (slot position) <;>
    cases board.fields.getLsbD (slot position + 1) <;> simp

/-! ## Moves -/

/-- The board with a stone of the player to move on `move`. -/
def place (board : Board) (move : Vector2i) : Board where
  fields := Bitset.write board.fields (slot move + board.currentPlayer.offset) true
  currentPlayer := board.currentPlayer.opponent
  movesMade := board.movesMade + 1

/-- The board with the stone of the player who moved last taken from `move`. -/
def remove (board : Board) (move : Vector2i) : Board where
  fields := Bitset.write board.fields (slot move + board.currentPlayer.opponent.offset) false
  currentPlayer := board.currentPlayer.opponent
  movesMade := board.movesMade - 1

@[simp] theorem place_currentPlayer (board : Board) (move : Vector2i) :
    (board.place move).currentPlayer = board.currentPlayer.opponent := rfl

@[simp] theorem place_movesMade (board : Board) (move : Vector2i) :
    (board.place move).movesMade = board.movesMade + 1 := rfl

@[simp] theorem remove_currentPlayer (board : Board) (move : Vector2i) :
    (board.remove move).currentPlayer = board.currentPlayer.opponent := rfl

@[simp] theorem remove_movesMade (board : Board) (move : Vector2i) :
    (board.remove move).movesMade = board.movesMade - 1 := rfl

theorem slot_add_offset_lt (h : Inside move) (player : Player) :
    slot move + player.offset < kWidth * kHeight * 2 := by
  have hlt := slot_add_one_lt h
  cases player <;> simp only [Player.offset] <;> omega

/-- On a field, `ApplyMove` passes exactly when the field is empty and somebody is to move, and
then it places a stone. -/
theorem applyMove_eq_ok (h : Inside move) :
    applyMove build board move = .ok next ↔
      board.owner move = .none ∧ board.currentPlayer ≠ .none ∧ next = board.place move := by
  have hlt := slot_add_one_lt h
  have hfirst := Bitset.test_of_lt board.fields (i := slot move) (by omega)
  have hsecond := Bitset.test_of_lt board.fields (i := slot move + 1) hlt
  have hassign := Bitset.assign_of_lt board.fields
    (slot_add_offset_lt h board.currentPlayer) true
  push_cast at hsecond hassign
  rw [owner_eq_none_iff h]
  simp only [applyMove, inside_eq_decide, h, decide_true, dcheck_true, ok_bind,
    index_of_inside h, hfirst, hsecond]
  by_cases hplayer : board.currentPlayer = .none
  · simp only [hplayer, PlayerMap.get]
    cases board.fields.getLsbD (slot move) <;>
      cases board.fields.getLsbD (slot move + 1) <;> simp [check]
  · simp only [kPlayerOffset_get hplayer, kOpponent_get hplayer, ok_bind, hassign]
    cases board.fields.getLsbD (slot move) <;>
      cases board.fields.getLsbD (slot move + 1) <;> simp [check, place, hplayer, eq_comm]

/-- Wherever it is made, a move that passes gives the turn to the opponent and is counted. -/
theorem applyMove_turn (h : applyMove build board move = .ok next) :
    next.currentPlayer = board.currentPlayer.opponent ∧
      next.movesMade = board.movesMade + 1 := by
  unfold applyMove at h
  obtain ⟨_, _, h⟩ := bind_eq_ok.mp h
  obtain ⟨index, _, h⟩ := bind_eq_ok.mp h
  obtain ⟨first, _, h⟩ := bind_eq_ok.mp h
  obtain ⟨_, _, h⟩ := bind_eq_ok.mp h
  obtain ⟨second, _, h⟩ := bind_eq_ok.mp h
  obtain ⟨_, _, h⟩ := bind_eq_ok.mp h
  obtain ⟨offset, _, h⟩ := bind_eq_ok.mp h
  obtain ⟨fields, _, h⟩ := bind_eq_ok.mp h
  obtain ⟨opponent, hopponent, h⟩ := bind_eq_ok.mp h
  obtain rfl := Except.ok.inj h
  have hplayer : board.currentPlayer ≠ .none := by
    intro hnone
    rw [hnone] at hopponent
    cases hopponent
  exact ⟨Except.ok.inj (hopponent.symm.trans (kOpponent_get hplayer)), rfl⟩

/-- On an empty field `ApplyMove` places a stone. -/
theorem applyMove_of_empty (build : Build) (h : Inside move) (hempty : board.owner move = .none)
    (hplayer : board.currentPlayer ≠ .none) :
    applyMove build board move = .ok (board.place move) :=
  (applyMove_eq_ok h).mpr ⟨hempty, hplayer, rfl⟩

/-- On a field, `RevertMove` passes exactly when the bit of the player who moved last is set
there, and then it removes the stone. -/
theorem revertMove_eq_ok (h : Inside move) :
    revertMove build board move = .ok next ↔
      board.currentPlayer ≠ .none ∧
        board.fields.getLsbD (slot move + board.currentPlayer.opponent.offset) = true ∧
        next = board.remove move := by
  have hbit := Bitset.test_of_lt board.fields
    (slot_add_offset_lt h board.currentPlayer.opponent)
  have hassign := Bitset.assign_of_lt board.fields
    (slot_add_offset_lt h board.currentPlayer.opponent) false
  push_cast at hbit hassign
  simp only [revertMove, inside_eq_decide, h, decide_true, dcheck_true, ok_bind,
    index_of_inside h]
  by_cases hplayer : board.currentPlayer = .none
  · simp [hplayer, PlayerMap.get]
  · have hopponent : board.currentPlayer.opponent ≠ .none := by simpa using hplayer
    simp only [kOpponent_get hplayer, kPlayerOffset_get hopponent, ok_bind, hbit, hassign]
    cases board.fields.getLsbD (slot move + board.currentPlayer.opponent.offset) <;>
      simp [check, remove, hplayer, eq_comm]

/-- The bit of a player at a field after a stone is placed. -/
theorem place_bit (h : Inside move) (hplayer : board.currentPlayer ≠ .none)
    (hposition : Inside position) (player : Player) (hp : player ≠ .none) :
    (board.place move).fields.getLsbD (slot position + player.offset) =
      if position = move ∧ player = board.currentPlayer then true
      else board.fields.getLsbD (slot position + player.offset) := by
  simp only [place, Bitset.getLsbD_write _ (slot_add_offset_lt h _)]
  by_cases hsame : position = move ∧ player = board.currentPlayer
  · obtain ⟨rfl, rfl⟩ := hsame
    simp
  · have hne : slot position + player.offset ≠ slot move + board.currentPlayer.offset :=
      fun heq => hsame (slot_add_offset_inj hposition h hp hplayer heq)
    rw [if_neg hne, if_neg hsame]

/-- The bit of a player at a field after a stone is removed. -/
theorem remove_bit (h : Inside move) (hplayer : board.currentPlayer ≠ .none)
    (hposition : Inside position) (player : Player) (hp : player ≠ .none) :
    (board.remove move).fields.getLsbD (slot position + player.offset) =
      if position = move ∧ player = board.currentPlayer.opponent then false
      else board.fields.getLsbD (slot position + player.offset) := by
  have hopponent : board.currentPlayer.opponent ≠ .none := by simpa using hplayer
  simp only [remove, Bitset.getLsbD_write _ (slot_add_offset_lt h _)]
  by_cases hsame : position = move ∧ player = board.currentPlayer.opponent
  · obtain ⟨rfl, rfl⟩ := hsame
    simp
  · have hne : slot position + player.offset ≠
        slot move + board.currentPlayer.opponent.offset :=
      fun heq => hsame (slot_add_offset_inj hposition h hp hopponent heq)
    rw [if_neg hne, if_neg hsame]

/-- A placed stone belongs to the player who was to move, and no other field changes. -/
theorem owner_place (h : Inside move) (hempty : board.owner move = .none)
    (hplayer : board.currentPlayer ≠ .none) (position : Vector2i) :
    (board.place move).owner position =
      if position = move then board.currentPlayer else board.owner position := by
  by_cases hposition : Inside position
  · have hfirst := place_bit h hplayer hposition .first (by simp)
    have hsecond := place_bit h hplayer hposition .second (by simp)
    simp only [Player.offset, Nat.add_zero] at hfirst hsecond
    simp only [owner, hposition, if_true, hfirst, hsecond]
    by_cases hsame : position = move
    · subst hsame
      obtain ⟨hclear, hclear'⟩ := (owner_eq_none_iff hposition).mp hempty
      cases hcurrent : board.currentPlayer <;> simp_all
    · simp [hsame]
  · have hne : position ≠ move := fun heq => hposition (heq ▸ h)
    rw [owner_of_not_inside hposition, owner_of_not_inside hposition, if_neg hne]

end Board

end Gomoku
