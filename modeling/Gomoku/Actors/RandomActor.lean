import Gomoku.Core.Actor
import Gomoku.Core.Sampling

/-!
# The random actor

`actors/random_actor.cc`. The actor samples its moves from its private board; for every
outcome of the draws it is a legal actor.
-/

namespace Gomoku

open Execution Random

/-- The members of `RandomActor`. -/
structure RandomActorState where
  board : Board
  rng : Rng

/-- `RandomActor`, where `engine seed` is the generator after `rng_.seed(seed)`. -/
def randomActor (build : Build) (engine : Int → Rng) : Actor where
  State := RandomActorState
  create := ⟨Board.new, engine 0⟩
  gameStarted := fun state _ seed => ⟨state.board.reset, engine seed⟩
  observeMove := fun state move => do
    return ⟨← state.board.applyMove build move, state.rng⟩
  chooseMove := fun state _ metrics => do
    let (move, rng) ← state.board.uniformlySampleLegalMove build state.rng
    return (move, ⟨state.board, rng⟩, metrics)

/-- The random actor is legal, whatever its generator delivers. -/
def randomLegalActor (build : Build) (engine : Int → Rng) : LegalActor build where
  toActor := randomActor build engine
  board := RandomActorState.board
  board_gameStarted := fun _ _ _ => rfl
  board_observeMove := by
    intro state move
    show Except.map RandomActorState.board
      (state.board.applyMove build move >>= fun next => pure ⟨next, state.rng⟩) = _
    cases state.board.applyMove build move <;> rfl
  chooseMove_legal := by
    intro state stopSignal metrics _ hempty
    obtain ⟨move, hsample, hmove, howner⟩ :=
      Board.uniformlySampleLegalMove_of_exists hempty build state.rng
    refine ⟨move, ⟨state.board, state.rng.tail.tail⟩, metrics, ?_, hmove, howner, rfl⟩
    simp only [randomActor, hsample, ok_bind, pure_eq_ok]

end Gomoku
