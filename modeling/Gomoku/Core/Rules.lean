import Gomoku.Core.BoardInvariant
import Gomoku.Library.PositionalGame

/-!
# Gomoku as a positional game

The rules of the game, stated without reference to the code that decides them: FIRST and
SECOND move in turn, and the winning sets are the five consecutive fields of a horizontal,
vertical or diagonal line. `Represents` connects a board with the moves played on it, and
`replay_represents` shows that the board reached by distinct moves on fields represents
them. A board has five in a row exactly when the game it represents has a completed set
(`Represents.fiveInRow_iff`).
-/

namespace Gomoku

open Execution PositionalGame

/-- The four kinds of lines. -/
inductive Line where
  | horizontal
  | vertical
  | diagonal
  | antidiagonal
  deriving DecidableEq

instance : Fintype Line where
  elems := {.horizontal, .vertical, .diagonal, .antidiagonal}
  complete := by
    intro line
    cases line <;> decide

/-- The vector from a field of the line to the next one. -/
def Line.step : Line → Vector2i
  | .horizontal => ⟨1, 0⟩
  | .vertical => ⟨0, 1⟩
  | .diagonal => ⟨1, 1⟩
  | .antidiagonal => ⟨1, -1⟩

/-- The player making the move with index `i`. -/
def turn (i : Nat) : Player := if i % 2 = 0 then .first else .second

@[simp] theorem turn_ne_none (i : Nat) : turn i ≠ .none := by
  unfold turn
  split <;> simp

theorem turn_succ (i : Nat) : turn (i + 1) = (turn i).opponent := by
  unfold turn
  rcases Nat.mod_two_eq_zero_or_one i with h | h
  · have hsucc : (i + 1) % 2 = 1 := by omega
    simp [h, hsucc, Player.opponent]
  · have hsucc : (i + 1) % 2 = 0 := by omega
    simp [h, hsucc, Player.opponent]

/-- The five consecutive fields of a line from `start` on. -/
def window (start : Vector2i) (line : Line) : Set Vector2i :=
  {position | ∃ j : Nat, j < 5 ∧ position = start + (j : Int) * line.step}

/-- The winning sets: the windows that lie inside the board. -/
def fives : Set (Set Vector2i) :=
  {cells | ∃ start line, cells = window start line ∧ ∀ position ∈ cells, Board.Inside position}

/-- The moves are on fields of the board, and no field is used twice. -/
structure Legal (moves : List Vector2i) : Prop where
  inside : ∀ move ∈ moves, Board.Inside move
  nodup : moves.Nodup

instance (moves : List Vector2i) : Decidable (Legal moves) :=
  decidable_of_iff ((∀ move ∈ moves, Board.Inside move) ∧ moves.Nodup)
    ⟨fun h => ⟨h.1, h.2⟩, fun h => ⟨h.inside, h.nodup⟩⟩

theorem legal_iff {moves : List Vector2i} :
    Legal moves ↔ (∀ move ∈ moves, Board.Inside move) ∧ moves.Nodup :=
  ⟨fun h => ⟨h.inside, h.nodup⟩, fun h => ⟨h.1, h.2⟩⟩

theorem Legal.nil : Legal [] := ⟨by simp, by simp⟩

theorem legal_append_iff {moves : List Vector2i} {move : Vector2i} :
    Legal (moves ++ [move]) ↔ Legal moves ∧ Board.Inside move ∧ move ∉ moves := by
  constructor
  · intro h
    obtain ⟨hinside, hnodup⟩ := h
    rw [← List.concat_eq_append, List.nodup_concat] at hnodup
    exact ⟨⟨fun other hm => hinside other (by simp [hm]), hnodup.2⟩,
      hinside move (by simp), hnodup.1⟩
  · intro h
    obtain ⟨⟨hinside, hnodup⟩, hmove, hnew⟩ := h
    refine ⟨fun other hm => ?_, ?_⟩
    · rcases List.mem_append.mp hm with hm | hm
      · exact hinside other hm
      · rw [List.mem_singleton.mp hm]
        exact hmove
    · rw [← List.concat_eq_append, List.nodup_concat]
      exact ⟨hnew, hnodup⟩

/-- A prefix of legal moves is legal. -/
theorem Legal.take {moves : List Vector2i} (h : Legal moves) (k : Nat) : Legal (moves.take k) :=
  ⟨fun move hm => h.inside move (List.mem_of_mem_take hm), h.nodup.sublist (List.take_sublist k _)⟩

theorem Legal.of_append {moves later : List Vector2i} (h : Legal (moves ++ later)) :
    Legal moves := by
  simpa using h.take moves.length

namespace Board

/-- Five consecutive fields of a line, all inside the board, hold stones of `player`. -/
def FiveInRow (board : Board) (player : Player) : Prop :=
  player ≠ .none ∧ ∃ (start : Field) (line : Line), ∀ j : Fin 5,
    Inside (start.position + (j : Int) * line.step) ∧
      board.owner (start.position + (j : Int) * line.step) = player

instance (board : Board) (player : Player) : Decidable (board.FiveInRow player) :=
  inferInstanceAs (Decidable (_ ∧ _))

/-- The board shows the position after `moves`. -/
structure Represents (board : Board) (moves : List Vector2i) : Prop where
  owner_iff : ∀ position player, player ≠ .none →
    (board.owner position = player ↔ Owns turn moves player position)
  currentPlayer_eq : board.currentPlayer = turn moves.length
  movesMade_eq : board.movesMade = moves.length

namespace Represents

variable {board : Board} {moves : List Vector2i} {move : Vector2i}

/-- The starting board represents the game without moves. -/
theorem new : Represents Board.new [] := by
  refine ⟨?_, rfl, rfl⟩
  intro position player hplayer
  have hempty : Board.new.owner position = .none := by
    simp [owner, Board.new, Board.reset]
  rw [hempty]
  exact ⟨fun h => absurd h.symm hplayer, fun h => absurd h not_owns_nil⟩

/-- Somebody is to move. -/
theorem currentPlayer_ne_none (h : board.Represents moves) : board.currentPlayer ≠ .none :=
  h.currentPlayer_eq ▸ turn_ne_none _

/-- The fields without a stone are the ones that were never played. -/
theorem owner_eq_none_iff (h : board.Represents moves) (position : Vector2i) :
    board.owner position = .none ↔ position ∉ moves := by
  constructor
  · intro hnone hmem
    obtain ⟨player, i, hi, hturn⟩ := exists_owns_of_mem turn hmem
    have hplayer : player ≠ .none := hturn ▸ turn_ne_none i
    rw [(h.owner_iff position player hplayer).mpr ⟨i, hi, hturn⟩] at hnone
    exact hplayer hnone
  · intro hnot
    by_contra hsome
    exact hnot ((h.owner_iff position _ hsome).mp rfl).mem

/-- A stone on an unused field represents one more move. -/
theorem place (h : board.Represents moves) (hmove : Inside move) (hnew : move ∉ moves) :
    (board.place move).Represents (moves ++ [move]) := by
  have hempty := (h.owner_eq_none_iff move).mpr hnew
  have hplayer := h.currentPlayer_ne_none
  refine ⟨?_, ?_, ?_⟩
  · intro position player hp
    rw [owner_place hmove hempty hplayer, owns_append_iff]
    by_cases hsame : position = move
    · subst hsame
      have hnone : ¬ Owns turn moves player position := fun howns => hnew howns.mem
      simp [hnone, h.currentPlayer_eq]
    · simp [hsame, h.owner_iff position player hp]
  · rw [place_currentPlayer, h.currentPlayer_eq, List.length_append, List.length_singleton,
      turn_succ]
  · simp [h.movesMade_eq]

/-- On a board that represents legal moves, the next move passes exactly when it is legal. -/
theorem applyMove (h : board.Represents moves) (build : Build) (hmove : Inside move)
    (hnew : move ∉ moves) : Board.applyMove build board move = .ok (board.place move) :=
  applyMove_of_empty build hmove ((h.owner_eq_none_iff move).mpr hnew) h.currentPlayer_ne_none

/-- Five in a row on the board is a completed winning set of the game. -/
theorem fiveInRow_iff (h : board.Represents moves) (player : Player) (hplayer : player ≠ .none) :
    board.FiveInRow player ↔ Completed turn fives moves player := by
  constructor
  · intro hfive
    obtain ⟨_, start, line, hall⟩ := hfive
    refine ⟨window start.position line, ⟨start.position, line, rfl, ?_⟩, ?_⟩
    · intro position hposition
      obtain ⟨j, hj, rfl⟩ := hposition
      exact (hall ⟨j, hj⟩).1
    · intro position hposition
      obtain ⟨j, hj, rfl⟩ := hposition
      exact (h.owner_iff _ player hplayer).mp (hall ⟨j, hj⟩).2
  · intro hcompleted
    obtain ⟨_, ⟨start, line, rfl, hinside⟩, howns⟩ := hcompleted
    have hmem : ∀ j : Fin 5, start + ((j : Nat) : Int) * line.step ∈ window start line :=
      fun j => ⟨j, j.isLt, rfl⟩
    have hstart : Inside start := by
      have h0 := hinside _ (hmem 0)
      cases line <;> simpa [Inside, Line.step] using h0
    obtain ⟨field, rfl⟩ := Field.exists_position hstart
    exact ⟨hplayer, field, line, fun j => ⟨hinside _ (hmem j),
      (h.owner_iff _ player hplayer).mpr (howns _ (hmem j))⟩⟩

end Represents

variable {moves : List Vector2i}

/-- One more move of a replay is applied to the board reached so far. -/
theorem replay_append (build : Build) (moves : List Vector2i) (move : Vector2i) :
    replay build (moves ++ [move]) = replay build moves >>= (applyMove build · move) := by
  simp [replay]

/-- The board after some moves: every move places a stone. -/
def after (moves : List Vector2i) : Board := moves.foldl place new

@[simp] theorem after_nil : after [] = new := rfl

@[simp] theorem after_append (moves : List Vector2i) (move : Vector2i) :
    after (moves ++ [move]) = (after moves).place move := by
  simp [after]

/-- The board after legal moves represents them. -/
theorem represents_after (hlegal : Legal moves) : (after moves).Represents moves := by
  induction moves using List.reverseRecOn with
  | nil => exact Represents.new
  | append_singleton moves move ih =>
      obtain ⟨hearlier, hmove, hnew⟩ := legal_append_iff.mp hlegal
      rw [after_append]
      exact (ih hearlier).place hmove hnew

/-- Legal moves replay without a fault to the board after them, which is reachable. -/
theorem replay_eq_after (build : Build) (hlegal : Legal moves) :
    replay build moves = .ok (after moves) ∧ Reachable build (after moves) := by
  induction moves using List.reverseRecOn with
  | nil => exact ⟨rfl, Relation.ReflTransGen.refl⟩
  | append_singleton moves move ih =>
      obtain ⟨hearlier, hmove, hnew⟩ := legal_append_iff.mp hlegal
      obtain ⟨hreplay, hreach⟩ := ih hearlier
      have hrep := represents_after hearlier
      rw [after_append]
      refine ⟨?_, hreach.place hmove ((hrep.owner_eq_none_iff move).mpr hnew)⟩
      rw [replay_append, hreplay, ok_bind, hrep.applyMove build hmove hnew]

/-- Legal moves replay to one board only. -/
theorem eq_after_of_replay {build : Build} {board : Board} (hlegal : Legal moves)
    (h : replay build moves = .ok board) : board = after moves :=
  Except.ok.inj (h.symm.trans (replay_eq_after build hlegal).1)

/-- The board after legal moves is full exactly when there is a move for every field. -/
theorem full_after_iff (hlegal : Legal moves) :
    (∀ position, Inside position → (after moves).owner position ≠ .none) ↔
      moves.length = 361 := by
  have hbound := (replay_eq_after .debug hlegal).2.valid.movesMade_le
  rw [← (replay_eq_after .debug hlegal).2.valid.noMovePossible_iff, noMovePossible, beq_iff_eq]
  rw [(represents_after hlegal).movesMade_eq] at hbound ⊢
  simp only [kWidth, kHeight]
  omega

/-- There are at most as many legal moves as fields. -/
theorem length_le_of_legal (hlegal : Legal moves) : moves.length ≤ 361 := by
  have hbound := (replay_eq_after .debug hlegal).2.valid.movesMade_le
  rw [(represents_after hlegal).movesMade_eq] at hbound
  omega

/-- Legal moves replay without a fault to a reachable board that represents them. -/
theorem replay_represents (build : Build) (hlegal : Legal moves) :
    ∃ board, replay build moves = .ok board ∧ board.Represents moves ∧
      Reachable build board :=
  ⟨after moves, (replay_eq_after build hlegal).1, represents_after hlegal,
    (replay_eq_after build hlegal).2⟩

end Board

end Gomoku
