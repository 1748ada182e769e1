import Gomoku.Ladder.Ladder
import Mathlib.Logic.Relation

/-!
# The ladder supervisor

`Supervisor::Play` of `ladder/supervisor.cc` as a step relation. An initial wave starts calls
on every worker, and the RPC loop then handles one finished call after the other. Which call
in flight finishes next, and with which status, is not up to the supervisor: `Step.deliver`
allows all of them. The queue delivers the tag of every call once, with `ok` set, and is not
shut down while `Play` runs, so `Next` has no other results; it blocks while nothing is in
flight.

The state records what the queue has delivered and how the metric collector and the ladder
were called, so that statements about a run are statements about the state it leads to.
-/

namespace Gomoku.Supervisor

open Execution

/-- What `Play` is called with: the size of the worker pool, `concurrent_games_` and
`num_games`. -/
structure Config where
  workers : Nat
  concurrentGames : Int
  numGames : Int

/-- `PlayGameCall`, with the number of the object as its tag. -/
structure PlayGameCall where
  tag : Nat
  worker : Nat
  request : PlayGameRequest

/-- The status of a finished call, with the response if it is OK. -/
inductive Status where
  | ok (response : PlayGameResponse)
  | failed (errorMessage : String)

/-- Where `Play` is: in the initial wave at a worker with some calls started there, at the head of
the RPC loop, or back at its caller. -/
inductive Control where
  | wave (worker : Nat) (i : Int)
  | rpcLoop
  | returned

/-- The variables of `Play`, the calls in flight and the records of what happened. -/
structure State (L : Ladder) where
  control : Control
  gamesStarted : Int
  gamesCompleted : Int
  ladder : L.State
  /-- The number of `PlayGameCall` objects created so far. -/
  allocated : Nat
  inFlight : List PlayGameCall
  /-- What `queue.Next` has delivered. -/
  delivered : List (PlayGameCall × Status)
  /-- The arguments of the calls of `MetricCollector::Append`. -/
  appended : List Metrics
  /-- The arguments of the calls of `GameCompleted`. -/
  reported : List (PlayGameRequest × PlayGameResponse)

variable {L : Ladder}

/-- The state when `Play` is called. -/
def initial (ladder : L.State) : State L where
  control := .wave 0 0
  gamesStarted := 0
  gamesCompleted := 0
  ladder := ladder
  allocated := 0
  inFlight := []
  delivered := []
  appended := []
  reported := []

/-- `Supervisor::PlayGame`. -/
def playGame (worker : Nat) (state : State L) : Result (State L) := do
  let (request, ladder) ← L.prepareGameRequest state.ladder
  return { state with
    ladder := ladder
    allocated := state.allocated + 1
    inFlight := state.inFlight ++ [⟨state.allocated, worker, request⟩] }

/-- `PlayGame` and `games_started++`. -/
def startGame (worker : Nat) (state : State L) : Result (State L) := do
  let state ← playGame worker state
  return { state with gamesStarted := state.gamesStarted + 1 }

/-- A successful call is passed on to the metric collector and the ladder and counted. -/
def record (call : PlayGameCall) (response : PlayGameResponse) (state : State L) : State L :=
  { state with
    appended := state.appended ++ [response.metrics]
    ladder := L.gameCompleted state.ladder call.request response
    reported := state.reported ++ [(call.request, response)]
    gamesCompleted := state.gamesCompleted + 1 }

/-- The body of the RPC loop for a delivered call. -/
def handle (config : Config) (call : PlayGameCall) (status : Status) (state : State L) :
    Result (State L) :=
  match status with
  | .failed _ => return state
  | .ok response =>
      let state := record call response state
      if state.gamesStarted < config.numGames then startGame call.worker state
      else return state

/-- `queue.Next` delivers a call, which leaves the calls in flight. -/
def deliver (call : PlayGameCall) (status : Status) (remaining : List PlayGameCall)
    (state : State L) : State L :=
  { state with
    inFlight := remaining
    delivered := state.delivered ++ [(call, status)] }

/-- One step of `Play`. -/
inductive Step (config : Config) : State L → State L → Prop where
  | start (state worker i next) :
      state.control = .wave worker i → worker < config.workers →
      i < config.concurrentGames → state.gamesStarted < config.numGames →
      startGame worker state = .ok next →
      Step config state { next with control := .wave worker (i + 1) }
  | nextWorker (state worker i) :
      state.control = .wave worker i → worker < config.workers →
      ¬ (i < config.concurrentGames ∧ state.gamesStarted < config.numGames) →
      Step config state { state with control := .wave (worker + 1) 0 }
  | enterLoop (state worker i) :
      state.control = .wave worker i → ¬ worker < config.workers →
      Step config state { state with control := .rpcLoop }
  | deliver (state before call after status next) :
      state.control = .rpcLoop → state.gamesCompleted < config.numGames →
      state.inFlight = before ++ call :: after →
      handle config call status (deliver call status (before ++ after) state) = .ok next →
      Step config state next
  | exit (state) :
      state.control = .rpcLoop → ¬ state.gamesCompleted < config.numGames →
      Step config state { state with control := .returned }

/-- The states that a run of `Play` reaches. -/
def Reachable (config : Config) (ladder : L.State) : State L → Prop :=
  Relation.ReflTransGen (Step config) (initial ladder)

/-- `Play` waits for ever: it needs another completed game and no call is in flight. -/
def Stuck (config : Config) (state : State L) : Prop :=
  state.control = .rpcLoop ∧ state.gamesCompleted < config.numGames ∧ state.inFlight = []

end Gomoku.Supervisor
