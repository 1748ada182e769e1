import Gomoku.Actors.MonteCarloActor
import Gomoku.Actors.RandomActor

/-!
# The registered actors

The actors that `random_actor.cc` and `monte_carlo_actor.cc` register. Of both the referee sees
the same things: the private board, which `ObserveMove` advances, and the metrics, which only a
Monte Carlo actor writes, two for every move that it chooses (`chooseMove_spec`).
-/

namespace Gomoku

open Execution Random

/-- The registry after both registrations. -/
def actorRegistry (fuel : Nat) (build : Build) (sampleSoftmax : SampleSoftmax)
    (engine : Int → Rng) : ActorRegistry := fun type =>
  if type = "RandomActor" then some fun _ => .ok (randomActor build engine)
  else if type = "MonteCarloActor" then
    some (monteCarloActorFactory fuel build sampleSoftmax engine)
  else none

/-- What the factories create: a random actor, or a Monte Carlo actor with a cell. -/
inductive ActorKind where
  | random
  | monteCarlo (cell : McCell)

/-- The kind of actor that the registry creates for a specification. -/
def ActorSpec.kind (spec : ActorSpec) : Option ActorKind :=
  if spec.type = "RandomActor" then some .random
  else if spec.type = "MonteCarloActor" then
    match getConfigString spec.config "cell" with
    | some cell =>
        if cell = "linear" then some (.monteCarlo mcLinearCell)
        else if cell = "logistic" then some (.monteCarlo mcLogisticCell)
        else none
    | none => none
  else none

/-- The metrics that a Monte Carlo actor adds for a move: the number of its simulations and the
value it expects. -/
def moveMetrics (ply : Nat) (iterations : Nat) (value : Rat) : Metrics :=
  [.mean ("iterations" ++ "/" ++ toString ply) iterations 1,
    .mean ("expected_score" ++ "/" ++ toString ply) value 1]

/-- The metrics of a move: those of a search with some simulations, or none. -/
def choiceMetrics (ply : Nat) (simulations : Option Nat) (value : Rat) : Metrics :=
  match simulations with
  | some iterations => moveMetrics ply iterations value
  | none => []

/-- What `ChooseMove` leaves behind when it returns. -/
theorem MonteCarloActor.chooseMove_spec {fuel : Nat} {build : Build} {cell : McCell}
    {sampleSoftmax : SampleSoftmax} {state next : MonteCarloActorState} {stopSignal : StopSignal}
    {metrics metrics' : Metrics} {move : Vector2i} {ply : Nat} (hply : state.board.movesMade = ply)
    (h : chooseMove fuel build cell sampleSoftmax state stopSignal metrics =
      .ok (move, next, metrics')) :
    next.board = state.board ∧
      ∃ search value, MonteCarloActor.search fuel build cell sampleSoftmax state stopSignal =
        .ok search ∧ metrics' = metrics ++ moveMetrics ply search.iterations value := by
  unfold chooseMove at h
  obtain ⟨search, hsearch, h⟩ := bind_eq_ok.mp h
  obtain ⟨legalMoves, _, h⟩ := bind_eq_ok.mp h
  obtain ⟨value, _, h⟩ := bind_eq_ok.mp h
  obtain ⟨rfl, hnext⟩ := Prod.mk.inj (Except.ok.inj h)
  obtain ⟨rfl, rfl⟩ := Prod.mk.inj hnext
  refine ⟨rfl, search, value, hsearch, ?_⟩
  simp only [addMetricMeanAt, addMetricMean, moveMetrics, hply, List.append_assoc,
    List.cons_append, List.nil_append]
  rfl

namespace ActorKind

variable (fuel : Nat) (build : Build) (sampleSoftmax : SampleSoftmax) (engine : Int → Rng)

/-- The actor of a kind. -/
def actor : ActorKind → Actor
  | random => randomActor build engine
  | monteCarlo cell => monteCarloActor fuel build cell sampleSoftmax engine

variable {fuel build sampleSoftmax engine}

/-- `board_`. -/
def board : (kind : ActorKind) → (kind.actor fuel build sampleSoftmax engine).State → Board
  | random => RandomActorState.board
  | monteCarlo _ => MonteCarloActorState.board

/-- The number of simulations that a Monte Carlo actor makes before it chooses a move. -/
def simulations : (kind : ActorKind) → (kind.actor fuel build sampleSoftmax engine).State →
    StopSignal → Option Nat
  | random, _, _ => none
  | monteCarlo cell, state, stopSignal =>
      match MonteCarloActor.search fuel build cell sampleSoftmax state stopSignal with
      | .ok search => some search.iterations
      | .error _ => none

/-- The registry creates the actor of the kind, and nothing else. -/
theorem create_eq_ok {spec : ActorSpec} {created : Actor} :
    (actorRegistry fuel build sampleSoftmax engine).create spec.type spec.config = .ok created ↔
      ∃ kind, spec.kind = some kind ∧ kind.actor fuel build sampleSoftmax engine = created := by
  unfold ActorRegistry.create actorRegistry ActorSpec.kind
  by_cases hrandom : spec.type = "RandomActor"
  · simp [hrandom, actor]
  · by_cases hmonteCarlo : spec.type = "MonteCarloActor"
    · simp only [if_neg hrandom, if_pos hmonteCarlo]
      unfold monteCarloActorFactory
      cases getConfigString spec.config "cell" with
      | none => simp
      | some cell =>
          by_cases hlinear : cell = "linear"
          · simp [hlinear, actor]
          · by_cases hlogistic : cell = "logistic"
            · simp [hlogistic, actor]
            · simp [hlinear, hlogistic]
    · simp [hrandom, hmonteCarlo]

/-- Monte Carlo actors are created for the type of that name. -/
theorem monteCarlo_iff {spec : ActorSpec} {kind : ActorKind} (h : spec.kind = some kind) :
    (∃ cell, kind = monteCarlo cell) ↔ spec.type = "MonteCarloActor" := by
  unfold ActorSpec.kind at h
  by_cases hrandom : spec.type = "RandomActor"
  · rw [if_pos hrandom] at h
    obtain rfl := Option.some.inj h
    simp [hrandom]
  · rw [if_neg hrandom] at h
    by_cases hmonteCarlo : spec.type = "MonteCarloActor"
    · rw [if_pos hmonteCarlo] at h
      cases kind with
      | random =>
          split at h
          · split at h
            · cases h
            · split at h <;> cases h
          · cases h
      | monteCarlo cell => exact ⟨fun _ => hmonteCarlo, fun _ => ⟨cell, rfl⟩⟩
    · rw [if_neg hmonteCarlo] at h
      cases h

/-- A search that returns has made its number of simulations. -/
theorem simulations_of_search {cell : McCell}
    {state : ((monteCarlo cell).actor fuel build sampleSoftmax engine).State}
    {stopSignal : StopSignal} {search : Search cell}
    (h : MonteCarloActor.search fuel build cell sampleSoftmax state stopSignal = .ok search) :
    (monteCarlo cell).simulations state stopSignal = some search.iterations := by
  show (match MonteCarloActor.search fuel build cell sampleSoftmax state stopSignal with
    | .ok search => some search.iterations
    | .error _ => none) = some search.iterations
  rw [h]

variable {kind : ActorKind} {state next : (kind.actor fuel build sampleSoftmax engine).State}

theorem board_gameStarted (state : (kind.actor fuel build sampleSoftmax engine).State)
    (me : Player) (seed : Int) :
    kind.board ((kind.actor fuel build sampleSoftmax engine).gameStarted state me seed) =
      Board.new := by
  cases kind <;> rfl

theorem board_observeMove {move : Vector2i}
    (h : (kind.actor fuel build sampleSoftmax engine).observeMove state move = .ok next) :
    (kind.board state).applyMove build move = .ok (kind.board next) := by
  cases kind with
  | random =>
      obtain ⟨applied, happly, hnext⟩ := bind_eq_ok.mp h
      obtain rfl := Except.ok.inj hnext
      exact happly
  | monteCarlo cell =>
      obtain ⟨applied, happly, hnext⟩ := bind_eq_ok.mp h
      obtain rfl := Except.ok.inj hnext
      exact happly

/-- A choice leaves the private board alone. A Monte Carlo actor makes a search and adds the two
metrics of the move. -/
theorem chooseMove_spec {stopSignal : StopSignal} {metrics metrics' : Metrics} {move : Vector2i}
    {ply : Nat} (hply : (kind.board state).movesMade = ply)
    (h : (kind.actor fuel build sampleSoftmax engine).chooseMove state stopSignal metrics =
      .ok (move, next, metrics')) :
    kind.board next = kind.board state ∧
      ((kind.simulations state stopSignal).isSome ↔ ∃ cell, kind = monteCarlo cell) ∧
      ∃ value, metrics' = metrics ++
        choiceMetrics ply (kind.simulations state stopSignal) value := by
  cases kind with
  | random =>
      obtain ⟨⟨drawn, rng⟩, _, h⟩ := bind_eq_ok.mp h
      obtain ⟨rfl, hnext⟩ := Prod.mk.inj (Except.ok.inj h)
      obtain ⟨rfl, rfl⟩ := Prod.mk.inj hnext
      exact ⟨rfl, by simp [simulations], 0, (List.append_nil metrics).symm⟩
  | monteCarlo cell =>
      obtain ⟨hboard, search, value, hsearch, hmetrics⟩ := MonteCarloActor.chooseMove_spec hply h
      rw [simulations_of_search hsearch]
      exact ⟨hboard, by simp, value, hmetrics⟩

end ActorKind

end Gomoku
