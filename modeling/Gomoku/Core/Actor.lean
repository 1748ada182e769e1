import Gomoku.Core.Messages
import Gomoku.Core.Rules

/-!
# Actors

`core/actor.h` and `actors/actor_registry.h`. An actor is a state machine with the three
methods of the class. The metrics group it is given at the start of a game belongs to the
response of the game, so `chooseMove` takes and returns the contents of the group.

`LegalActor` is an actor that keeps a private board and answers with legal moves. It is the
only thing the referee of a game relies on.
-/

namespace Gomoku

open Execution

/-- The answers of a stop signal to its successive calls. -/
abbrev StopSignal := Nat → Bool

/-- `Actor`. `create` is the object its factory returns. -/
structure Actor where
  State : Type
  create : State
  gameStarted : State → Player → Int → State
  observeMove : State → Vector2i → Result State
  chooseMove : State → StopSignal → Metrics → Result (Vector2i × State × Metrics)

/-- `ActorRegistry`: the factories by type name. A factory may fault on its configuration. -/
abbrev ActorRegistry := String → Option (ActorConfig → Except Fault Actor)

/-- `ActorRegistry::Create`. -/
def ActorRegistry.create (registry : ActorRegistry) (type : String) (config : ActorConfig) :
    Except Fault Actor :=
  match registry type with
  | some factory => factory config
  | none => .error (.check "iterator != actor_factories_.end()")

/-- An actor with a private board that is reset by `GameStarted` and advanced by `ObserveMove`
only, and whose `ChooseMove` returns an empty field of that board whenever there is one. -/
structure LegalActor (build : Build) extends Actor where
  board : State → Board
  board_gameStarted : ∀ state me seed, board (gameStarted state me seed) = Board.new
  board_observeMove : ∀ state move,
    (observeMove state move).map board = (board state).applyMove build move
  chooseMove_legal : ∀ state stopSignal metrics, (board state).Reachable build →
    (∃ position, Board.Inside position ∧ (board state).owner position = .none) →
    ∃ move next metrics', chooseMove state stopSignal metrics = .ok (move, next, metrics') ∧
      Board.Inside move ∧ (board state).owner move = .none ∧ board next = board state

namespace LegalActor

variable {build : Build} {actor : LegalActor build} {state : actor.State} {next : Board}
  {move : Vector2i}

/-- An observed move that passes on the private board advances the private board. -/
theorem observeMove_of_applyMove (h : (actor.board state).applyMove build move = .ok next) :
    ∃ state', actor.observeMove state move = .ok state' ∧ actor.board state' = next := by
  have hmap := actor.board_observeMove state move
  rw [h] at hmap
  cases hobserve : actor.observeMove state move with
  | error fault => simp [hobserve, Except.map] at hmap
  | ok state' => exact ⟨state', rfl, by simpa [hobserve, Except.map] using hmap⟩

end LegalActor

end Gomoku
