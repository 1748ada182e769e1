import Gomoku.Core.Actor
import Gomoku.Library.Random

/-!
# The referee

`WorkerImpl::PlayGame` of `ladder/worker_impl.cc` and `PlayGame` of `self_play/supervisor.cc`
play one game between two actors. They differ in where the actors, the seeds and the stop
signals come from and share the loop, `playout`: the actor whose turn it is chooses a move,
the referee applies it to its own board, both actors observe it, and it is recorded, until a
move wins or no move is possible.

What the clock and the engine deliver is an input: `Host` holds the stop signals a deadline
produces and the generator an engine is seeded to.
-/

namespace Gomoku

open Execution Random

/-- What the surroundings of a game deliver: `engine seed` is a `std::mt19937_64` with that seed,
and `newStopSignal deadline ply` the stop signal made for a move with that many moves before
it. -/
structure Host where
  engine : Int → Rng
  newStopSignal : Nat → Nat → StopSignal

/-- The variables of the referee: its board, the last move, the two actors with their metrics
groups, and the recorded moves. -/
structure Game (A B : Actor) where
  board : Board
  move : Vector2i
  first : A.State
  second : B.State
  metrics : PlayerMap Metrics
  recording : List Vector2i

namespace Game

variable {A B : Actor}

/-- The game before the first move: both actors have been told that it started. -/
def start (A B : Actor) (seeds : PlayerMap Int) : Game A B where
  board := Board.new
  move := ⟨0, 0⟩
  first := A.gameStarted A.create .first seeds.first
  second := B.gameStarted B.create .second seeds.second
  metrics := ⟨[], []⟩
  recording := []

/-- `actors[board.CurrentPlayer()]->ChooseMove(stop_signal)`. -/
def chooseMove (game : Game A B) (stopSignal : StopSignal) : Result (Vector2i × Game A B) :=
  match game.board.currentPlayer with
  | .first => do
      let (move, first, metrics) ← A.chooseMove game.first stopSignal game.metrics.first
      return (move, { game with first, metrics := ⟨metrics, game.metrics.second⟩ })
  | .second => do
      let (move, second, metrics) ← B.chooseMove game.second stopSignal game.metrics.second
      return (move, { game with second, metrics := ⟨game.metrics.first, metrics⟩ })
  | .none => .error (.fatal "PlayerMap[Player::NONE] called")

/-- The body of the loop: choose, apply, observe and record one move. -/
def playMove (build : Build) (stopSignal : Player → Nat → StopSignal) (game : Game A B) :
    Result (Game A B) := do
  let signal := stopSignal game.board.currentPlayer game.recording.length
  let (move, game) ← game.chooseMove signal
  let board ← game.board.applyMove build move
  let first ← A.observeMove game.first move
  let second ← B.observeMove game.second move
  return { game with board, move, first, second, recording := game.recording ++ [move] }

/-- The condition of the loop, `!board.DidWin(move) && !board.NoMovePossible()`. -/
def continues (fuel : Nat) (build : Build) (game : Game A B) : Result Bool := do
  if ← game.board.didWin fuel build game.move then
    return false
  return !game.board.noMovePossible

/-- The `do ... while` loop of the game. -/
def playout (fuel : Nat) (build : Build) (stopSignal : Player → Nat → StopSignal)
    (game : Game A B) : Result (Game A B) := do
  let game ← game.playMove build stopSignal
  whileLoop (continues fuel build) (playMove build stopSignal) fuel game

/-- The score of FIRST: 1 for a win, 0 for a loss and for a draw. -/
def score (fuel : Nat) (build : Build) (game : Game A B) : Result Rat := do
  if ← game.board.didWin fuel build game.move then
    let winner ← kOpponent.get game.board.currentPlayer
    (⟨1, 0⟩ : PlayerMap Rat).get winner
  else
    return 0

/-- The games in which the referee asks for a move, from `game` on. -/
inductive Asks (fuel : Nat) (build : Build) (stopSignal : Player → Nat → StopSignal)
    (game : Game A B) : Game A B → Prop where
  | first : Asks fuel build stopSignal game game
  | again (current next) :
      Asks fuel build stopSignal game current →
      current.playMove build stopSignal = .ok next →
      next.continues fuel build = .ok true →
      Asks fuel build stopSignal game next

end Game

/-- The conversion of an engine's 64-bit output to an `int` parameter. -/
def seedOf (value : Nat) : Int := Int.bmod value (2 ^ 32)

namespace WorkerImpl

/-- The game of a request between the actors that the registry created for it. -/
def startGame (host : Host) (request : PlayGameRequest) (A B : Actor) : Game A B :=
  let rng := host.engine request.seed
  Game.start A B ⟨seedOf (rng.draw 0), seedOf (rng.tail.draw 0)⟩

/-- `NewStopSignal(request->move_time_limit_micros())` at every move. -/
def stopSignal (host : Host) (request : PlayGameRequest) : Player → Nat → StopSignal :=
  fun _ ply => host.newStopSignal request.moveTimeLimitMicros ply

/-- `WorkerImpl::PlayGame`. -/
def playGame (fuel : Nat) (build : Build) (host : Host) (registry : ActorRegistry)
    (request : PlayGameRequest) : Result PlayGameResponse :=
  match registry.create request.firstPlayer.type request.firstPlayer.config with
  | .error fault => .error fault
  | .ok A =>
      match registry.create request.secondPlayer.type request.secondPlayer.config with
      | .error fault => .error fault
      | .ok B => do
          let final ← (startGame host request A B).playout fuel build (stopSignal host request)
          let score ← final.score fuel build
          return {
            recording := ⟨final.recording, score⟩
            metrics := [.group request.firstPlayer.name final.metrics.first,
              .group request.secondPlayer.name final.metrics.second] }

end WorkerImpl

namespace SelfPlay

/-- `make_stop_signal[board.CurrentPlayer()]()` at every move. -/
def stopSignal (makeStopSignal : PlayerMap (Nat → StopSignal)) : Player → Nat → StopSignal
  | .first => makeStopSignal.first
  | _ => makeStopSignal.second

/-- `PlayGame` of the self-play supervisor. Its calls of `GameStarted` leave out the third argument,
the metrics group, which the declaration in `core/actor.h` asks for, and do not compile. They are
read as calls with a group that nothing reads: what the actors write there is dropped. -/
def playGame (fuel : Nat) (build : Build) (A B : Actor)
    (makeStopSignal : PlayerMap (Nat → StopSignal)) (seeds : PlayerMap Int) :
    Result (Recording Rat) := do
  let final ← (Game.start A B seeds).playout fuel build (stopSignal makeStopSignal)
  let score ← final.score fuel build
  return ⟨final.recording, score⟩

end SelfPlay

end Gomoku
