import Gomoku.Library.Bitset
import Mathlib.Data.Matrix.Basic

/-!
# The board

`core/board.h` and `core/board.cc`: the players, the maps indexed by a player, and the
board, a bit set with two bits for every field together with the player to move and the
number of moves made. A failed `CHECK`, a `DCHECK` of a debug build, a `LOG(FATAL)`, an
index outside the bit set and an `int` overflow are faults of the operation.
-/

namespace Gomoku

open Execution

/-- `Eigen::Vector2i`. -/
structure Vector2i where
  x : Int
  y : Int
  deriving DecidableEq, Repr

namespace Vector2i

instance : Add Vector2i := ⟨fun p q => ⟨p.x + q.x, p.y + q.y⟩⟩

instance : Neg Vector2i := ⟨fun p => ⟨-p.x, -p.y⟩⟩

instance : HMul Int Vector2i Vector2i := ⟨fun n p => ⟨n * p.x, n * p.y⟩⟩

@[simp] theorem add_x (p q : Vector2i) : (p + q).x = p.x + q.x := rfl
@[simp] theorem add_y (p q : Vector2i) : (p + q).y = p.y + q.y := rfl
@[simp] theorem neg_x (p : Vector2i) : (-p).x = -p.x := rfl
@[simp] theorem neg_y (p : Vector2i) : (-p).y = -p.y := rfl
@[simp] theorem mul_x (n : Int) (p : Vector2i) : (n * p).x = n * p.x := rfl
@[simp] theorem mul_y (n : Int) (p : Vector2i) : (n * p).y = n * p.y := rfl

/-- Two vectors are equal when their coordinates are. -/
theorem ext {p q : Vector2i} (hx : p.x = q.x) (hy : p.y = q.y) : p = q := by
  cases p
  cases q
  simp_all

end Vector2i

inductive Player where
  | first
  | second
  | none
  deriving DecidableEq, Repr

/-- A map from players to values. `Player.none` is not a key. -/
structure PlayerMap (α : Type) where
  first : α
  second : α

/-- `PlayerMap::operator[]`. -/
def PlayerMap.get {α : Type} (map : PlayerMap α) : Player → Result α
  | .first => .ok map.first
  | .second => .ok map.second
  | .none => .error (.fatal "PlayerMap[Player::NONE] called")

/-- A map from players to the opponent. -/
def kOpponent : PlayerMap Player := ⟨.second, .first⟩

/-- The bit of a player among the two bits of a field. -/
def kPlayerOffset : PlayerMap Int := ⟨0, 1⟩

/-- The number of columns, `Board::kWidth`. -/
abbrev kWidth : Nat := 19

/-- The number of rows, `Board::kHeight`. -/
abbrev kHeight : Nat := 19

/-- The two bits of every field, the player to move and the number of moves made. -/
structure Board where
  fields : BitVec (kWidth * kHeight * 2)
  currentPlayer : Player
  movesMade : Int
  deriving DecidableEq

namespace Board

/-- `Board::Inside`. -/
def inside (position : Vector2i) : Bool :=
  decide (position.x ≥ 0) && decide (position.x < kWidth) &&
    decide (position.y ≥ 0) && decide (position.y < kHeight)

/-- The index of a position's first bit, `(x * kHeight + y) * 2` in `int` arithmetic. -/
def index (position : Vector2i) : Result Int := do
  let column ← int32 (position.x * kHeight)
  let field ← int32 (column + position.y)
  int32 (field * 2)

/-- `Board::Reset`. -/
def reset (_board : Board) : Board where
  fields := 0
  currentPlayer := .first
  movesMade := 0

/-- The starting board: the constructor resets whatever memory it is given. -/
def new : Board := reset ⟨0, .none, 0⟩

/-- `Board::StoneAt`. -/
def stoneAt (build : Build) (board : Board) (position : Vector2i) : Result Player := do
  dcheck build "Inside(position)" (inside position)
  let index ← index position
  if ← Bitset.test board.fields index then
    return .first
  if ← Bitset.test board.fields (index + 1) then
    return .second
  return .none

/-- `Board::StoneAtPadded`. -/
def stoneAtPadded (build : Build) (board : Board) (position : Vector2i) : Result Player :=
  if !inside position then return .none else stoneAt build board position

/-- `Board::ApplyMove`. -/
def applyMove (build : Build) (board : Board) (move : Vector2i) : Result Board := do
  dcheck build "Inside(move)" (inside move)
  let index ← index move
  check "!fields_[index]" (!(← Bitset.test board.fields index))
  check "!fields_[index + 1]" (!(← Bitset.test board.fields (index + 1)))
  let offset ← kPlayerOffset.get board.currentPlayer
  let fields ← Bitset.assign board.fields (index + offset) true
  let opponent ← kOpponent.get board.currentPlayer
  return ⟨fields, opponent, board.movesMade + 1⟩

/-- `Board::RevertMove`. The turn goes back before the stone is checked. -/
def revertMove (build : Build) (board : Board) (move : Vector2i) : Result Board := do
  dcheck build "Inside(move)" (inside move)
  let index ← index move
  let player ← kOpponent.get board.currentPlayer
  let offset ← kPlayerOffset.get player
  check "fields_[index + kPlayerOffset[current_player_]]"
    (← Bitset.test board.fields (index + offset))
  let fields ← Bitset.assign board.fields (index + offset) false
  return ⟨fields, player, board.movesMade - 1⟩

/-- `Board::NoMovePossible`. -/
def noMovePossible (board : Board) : Bool :=
  board.movesMade == kWidth * kHeight

/-- The lines through a move: vertical, horizontal and the two diagonals. -/
def directions : List Vector2i := [⟨0, 1⟩, ⟨1, 0⟩, ⟨1, 1⟩, ⟨1, -1⟩]

/-- `CastRay`: the number of consecutive stones of `player` going in the given direction from
the last move, which is not counted. -/
def castRay (fuel : Nat) (build : Build) (board : Board) (lastMove direction : Vector2i)
    (player : Player) : Result Int :=
  whileLoop
    (fun count => do
      let stone ← stoneAtPadded build board (lastMove + (count + 1) * direction)
      return stone == player)
    (fun count => return count + 1) fuel 0

/-- `Board::DidWin`. The search over the directions ends at the first winning one. -/
def didWin (fuel : Nat) (build : Build) (board : Board) (lastMove : Vector2i) :
    Result Bool := do
  dcheck build "Inside(last_move)" (inside lastMove)
  directions.anyM fun direction => do
    let player ← kOpponent.get board.currentPlayer
    let negativeCount ← castRay fuel build board lastMove (-direction) player
    let positiveCount ← castRay fuel build board lastMove direction player
    return decide (positiveCount + negativeCount ≥ 4)

/-- The moves applied in order from the starting board. -/
def replay (build : Build) (moves : List Vector2i) : Result Board :=
  moves.foldlM (applyMove build) new

end Board

end Gomoku
