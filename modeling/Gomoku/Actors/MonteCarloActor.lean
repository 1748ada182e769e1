import Gomoku.Actors.McCell
import Gomoku.Core.Actor
import Gomoku.Core.Sampling

/-!
# The Monte Carlo actor

`actors/monte_carlo_actor.cc`. `ChooseMove` simulates games from the private board until its
stop signal answers true. A simulation, `explore`, makes an exploring move and then plays
sampled moves until one wins; the result updates the cell. The stop signal is called once
before every simulation, so the number of its calls is the number of simulations.
-/

namespace Gomoku

open Execution Random

/-- The members of `MonteCarloActor` except for the metrics. -/
structure MonteCarloActorState where
  board : Board
  rng : Rng

/-- The variables of a simulated game: the board, the last move and the generator. -/
structure Rollout where
  board : Board
  move : Vector2i
  rng : Rng

/-- The variables of the loop of `ChooseMove`. -/
structure Search (cell : McCell) where
  cellState : cell.State
  rng : Rng
  iterations : Nat

namespace MonteCarloActor

/-- `!board.DidWin(move)`. -/
def unfinished (fuel : Nat) (build : Build) (rollout : Rollout) : Result Bool := do
  return !(← rollout.board.didWin fuel build rollout.move)

/-- One sampled move of a simulated game. -/
def sampleMove (build : Build) (rollout : Rollout) : Result Rollout := do
  let (move, rng) ← rollout.board.uniformlySampleLegalMove build rollout.rng
  let board ← rollout.board.applyMove build move
  return ⟨board, move, rng⟩

/-- One simulated game from the private board: an exploring move, and sampled moves until one
wins. -/
def explore (fuel : Nat) (build : Build) (sampleSoftmax : SampleSoftmax) (board : Board)
    (winProb : FeatureMatrix Rat) (rng : Rng) : Result (Vector2i × Rollout) := do
  let legalMoves ← stoneMatrix build board .none
  let (exploringMove, rng) := sampleSoftmax winProb legalMoves 1 rng
  let next ← board.applyMove build exploringMove
  let final ← whileLoop (unfinished fuel build) (sampleMove build) fuel ⟨next, exploringMove, rng⟩
  return (exploringMove, final)

/-- The body of the loop of `ChooseMove`. -/
def simulate (fuel : Nat) (build : Build) (cell : McCell) (sampleSoftmax : SampleSoftmax)
    (board : Board) (search : Search cell) : Result (Search cell) := do
  let (exploringMove, final) ←
    explore fuel build sampleSoftmax board (cell.winProb search.cellState) search.rng
  let winner ← kOpponent.get final.board.currentPlayer
  let score := if winner = board.currentPlayer then 1 else 0
  let cellState ← cell.update search.cellState exploringMove score
  return ⟨cellState, final.rng, search.iterations + 1⟩

/-- The variables before the first simulation. -/
def startSearch (cell : McCell) (rng : Rng) : Search cell where
  cellState := cell.create (fun _ => 1 / 2) (1 / 1000)
  rng := rng
  iterations := 0

/-- The loop of `ChooseMove`. -/
def search (fuel : Nat) (build : Build) (cell : McCell) (sampleSoftmax : SampleSoftmax)
    (state : MonteCarloActorState) (stopSignal : StopSignal) : Result (Search cell) :=
  whileLoop (fun search => return !stopSignal search.iterations)
    (simulate fuel build cell sampleSoftmax state.board) fuel (startSearch cell state.rng)

/-- `MonteCarloActor::ChooseMove`. -/
def chooseMove (fuel : Nat) (build : Build) (cell : McCell) (sampleSoftmax : SampleSoftmax)
    (state : MonteCarloActorState) (stopSignal : StopSignal) (metrics : Metrics) :
    Result (Vector2i × MonteCarloActorState × Metrics) := do
  let final ← search fuel build cell sampleSoftmax state stopSignal
  let metrics := addMetricMeanAt metrics "iterations" state.board.movesMade final.iterations
  let winProb := cell.winProb final.cellState
  let move := sampleGreedy winProb (← stoneMatrix build state.board .none)
  let metrics := addMetricMeanAt metrics "expected_score" state.board.movesMade
    (← winProb.entry move)
  return (move, ⟨state.board, final.rng⟩, metrics)

end MonteCarloActor

/-- `MonteCarloActor`, where `engine seed` is the generator after `rng_.seed(seed)`. -/
def monteCarloActor (fuel : Nat) (build : Build) (cell : McCell) (sampleSoftmax : SampleSoftmax)
    (engine : Int → Rng) : Actor where
  State := MonteCarloActorState
  create := ⟨Board.new, engine 0⟩
  gameStarted := fun state _ seed => ⟨state.board.reset, engine seed⟩
  observeMove := fun state move => do
    return ⟨← state.board.applyMove build move, state.rng⟩
  chooseMove := MonteCarloActor.chooseMove fuel build cell sampleSoftmax

/-- The factory registered as `MonteCarloActor`. -/
def monteCarloActorFactory (fuel : Nat) (build : Build) (sampleSoftmax : SampleSoftmax)
    (engine : Int → Rng) (config : ActorConfig) : Except Fault Actor :=
  match getConfigString config "cell" with
  | none => .error (.check "GetConfigString(config, \"cell\", &cell)")
  | some cell =>
      if cell = "linear" then
        .ok (monteCarloActor fuel build mcLinearCell sampleSoftmax engine)
      else if cell = "logistic" then
        .ok (monteCarloActor fuel build mcLogisticCell sampleSoftmax engine)
      else .error (.fatal ("Unknown cell " ++ cell))

end Gomoku
