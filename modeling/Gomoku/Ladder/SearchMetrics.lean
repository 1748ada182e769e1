import Gomoku.Actors.Registry
import Gomoku.Core.Metrics
import Gomoku.Ladder.Worker
import Gomoku.Library.Paths

/-!
# The metrics of searches

A Monte Carlo actor writes the number of its simulations under the number of moves on its private
board. In a game between registered actors all boards count the recorded moves
(`Game.Counted`), so the metrics of an actor are those of the moves that it chose, each under
the index of the move (`Game.Logged`). The collector puts them under the name of the actor, and
a path determines the name, the metric and the index, so that the entry at a path is the mean
over the games in which the move with that index was chosen by a search of that actor
(`iterations_attributed`).
-/

namespace Gomoku

open Execution Random

namespace Game

variable {A B : Actor} {fuel : Nat} {build : Build} {stopSignal : Player → Nat → StopSignal}

/-! ## Moves of a game -/

/-- Every pass of the loop records one move. -/
theorem length_playMove {game next : Game A B} (h : game.playMove build stopSignal = .ok next) :
    next.recording.length = game.recording.length + 1 := by
  unfold playMove at h
  obtain ⟨⟨move, chosen⟩, hchoose, h⟩ := bind_eq_ok.mp h
  obtain ⟨board, _, h⟩ := bind_eq_ok.mp h
  obtain ⟨first, _, h⟩ := bind_eq_ok.mp h
  obtain ⟨second, _, h⟩ := bind_eq_ok.mp h
  obtain rfl := Except.ok.inj h
  have hrecording : chosen.recording = game.recording := by
    unfold chooseMove at hchoose
    split at hchoose
    · obtain ⟨⟨move, first, metrics⟩, _, h⟩ := bind_eq_ok.mp hchoose
      obtain ⟨rfl, rfl⟩ := Prod.mk.inj (Except.ok.inj h)
      rfl
    · obtain ⟨⟨move, second, metrics⟩, _, h⟩ := bind_eq_ok.mp hchoose
      obtain ⟨rfl, rfl⟩ := Prod.mk.inj (Except.ok.inj h)
      rfl
    · cases hchoose
  simp [hrecording]

theorem Asks.length_le {game asked : Game A B} (h : Asks fuel build stopSignal game asked) :
    game.recording.length ≤ asked.recording.length := by
  induction h with
  | first => exact le_rfl
  | again current next _ hplay _ ih =>
      rw [length_playMove hplay]
      omega

/-- The referee asks for a move with a given index in one state only. -/
theorem Asks.unique {game asked asked' : Game A B} (h : Asks fuel build stopSignal game asked)
    (h' : Asks fuel build stopSignal game asked')
    (hlength : asked.recording.length = asked'.recording.length) : asked = asked' := by
  induction h generalizing asked' with
  | first =>
      cases h' with
      | first => rfl
      | again current next hcurrent hplay _ =>
          have hle := hcurrent.length_le
          rw [length_playMove hplay] at hlength
          omega
  | again current next hcurrent hplay _ ih =>
      cases h' with
      | first =>
          have hle := hcurrent.length_le
          rw [length_playMove hplay] at hlength
          omega
      | again current' next' hcurrent' hplay' _ =>
          rw [length_playMove hplay, length_playMove hplay'] at hlength
          obtain rfl := ih hcurrent' (by omega)
          exact Except.ok.inj (hplay.symm.trans hplay')

/-! ## Games between registered actors -/

section Registered

variable {sampleSoftmax : SampleSoftmax} {engine : Int → Rng} {first second : ActorKind}
  {start game next : Game (first.actor fuel build sampleSoftmax engine)
    (second.actor fuel build sampleSoftmax engine)}

/-- The number of simulations before the next move, if a Monte Carlo actor chooses it. -/
def simulations (game : Game (first.actor fuel build sampleSoftmax engine)
    (second.actor fuel build sampleSoftmax engine)) (stopSignal : Player → Nat → StopSignal) :
    Option Nat :=
  match game.board.currentPlayer with
  | .first => first.simulations game.first (stopSignal .first game.recording.length)
  | .second => second.simulations game.second (stopSignal .second game.recording.length)
  | .none => none

/-- The metrics group of a player. -/
def metricsOf (game : Game A B) : Player → Metrics
  | .first => game.metrics.first
  | .second => game.metrics.second
  | .none => []

/-- The kind of actor that plays for a player. -/
def kindOf (first second : ActorKind) : Player → ActorKind
  | .first => first
  | _ => second

/-- All boards count the recorded moves. -/
structure Counted (game : Game (first.actor fuel build sampleSoftmax engine)
    (second.actor fuel build sampleSoftmax engine)) : Prop where
  currentPlayer_eq : game.board.currentPlayer = turn game.recording.length
  first_movesMade : (first.board game.first).movesMade = game.recording.length
  second_movesMade : (second.board game.second).movesMade = game.recording.length

/-- A choice adds the metrics of the move to the group of the player to move. -/
theorem Counted.chooseMove (h : game.Counted) {move : Vector2i}
    (hchoose : game.chooseMove (stopSignal game.board.currentPlayer game.recording.length) =
      .ok (move, next)) :
    next.board = game.board ∧ next.recording = game.recording ∧ next.Counted ∧
      ((game.simulations stopSignal).isSome ↔
        ∃ cell, kindOf first second (turn game.recording.length) = .monteCarlo cell) ∧
      ∃ value, ∀ player, next.metricsOf player = game.metricsOf player ++
        if player = turn game.recording.length then
          choiceMetrics game.recording.length (game.simulations stopSignal) value
        else [] := by
  unfold simulations
  cases hcurrent : game.board.currentPlayer with
  | none =>
      simp only [Game.chooseMove, hcurrent] at hchoose
      cases hchoose
  | first =>
      simp only [Game.chooseMove, hcurrent] at hchoose
      obtain ⟨⟨chosen, state, metrics⟩, hrun, hnext⟩ := bind_eq_ok.mp hchoose
      obtain ⟨rfl, rfl⟩ := Prod.mk.inj (Except.ok.inj hnext)
      obtain ⟨hboard, hkind, value, hmetrics⟩ := ActorKind.chooseMove_spec h.first_movesMade hrun
      rw [← h.currentPlayer_eq, hcurrent]
      refine ⟨rfl, rfl, { h with first_movesMade := ?_ }, hkind, value, fun player => ?_⟩
      · show (first.board state).movesMade = _
        rw [hboard]
        exact h.first_movesMade
      · cases player with
        | first => exact hmetrics
        | second => simp [metricsOf]
        | none => rfl
  | second =>
      simp only [Game.chooseMove, hcurrent] at hchoose
      obtain ⟨⟨chosen, state, metrics⟩, hrun, hnext⟩ := bind_eq_ok.mp hchoose
      obtain ⟨rfl, rfl⟩ := Prod.mk.inj (Except.ok.inj hnext)
      obtain ⟨hboard, hkind, value, hmetrics⟩ := ActorKind.chooseMove_spec h.second_movesMade hrun
      rw [← h.currentPlayer_eq, hcurrent]
      refine ⟨rfl, rfl, { h with second_movesMade := ?_ }, hkind, value, fun player => ?_⟩
      · show (second.board state).movesMade = _
        rw [hboard]
        exact h.second_movesMade
      · cases player with
        | first => simp [metricsOf]
        | second => exact hmetrics
        | none => rfl

/-- A move adds its metrics to the group of the player who makes it. -/
theorem Counted.playMove (h : game.Counted)
    (hplay : game.playMove build stopSignal = .ok next) :
    next.Counted ∧
      ((game.simulations stopSignal).isSome ↔
        ∃ cell, kindOf first second (turn game.recording.length) = .monteCarlo cell) ∧
      ∃ value, ∀ player, next.metricsOf player = game.metricsOf player ++
        if player = turn game.recording.length then
          choiceMetrics game.recording.length (game.simulations stopSignal) value
        else [] := by
  unfold Game.playMove at hplay
  obtain ⟨⟨move, chosen⟩, hchoose, hplay⟩ := bind_eq_ok.mp hplay
  obtain ⟨board, happly, hplay⟩ := bind_eq_ok.mp hplay
  obtain ⟨state, hobserve, hplay⟩ := bind_eq_ok.mp hplay
  obtain ⟨state', hobserve', hplay⟩ := bind_eq_ok.mp hplay
  obtain rfl := Except.ok.inj hplay
  obtain ⟨hboard, hrecording, hchosen, hkind, value, hmetrics⟩ := h.chooseMove hchoose
  have hlength : (chosen.recording ++ [move]).length = game.recording.length + 1 := by
    rw [hrecording, List.length_append, List.length_singleton]
  refine ⟨⟨?_, ?_, ?_⟩, hkind, value, hmetrics⟩
  · show board.currentPlayer = turn (chosen.recording ++ [move]).length
    rw [(Board.applyMove_turn happly).1, hboard, h.currentPlayer_eq, hlength, turn_succ]
  · show (first.board state).movesMade = ((chosen.recording ++ [move]).length : Int)
    rw [(Board.applyMove_turn (ActorKind.board_observeMove hobserve)).2, hchosen.first_movesMade,
      hlength, hrecording]
    rfl
  · show (second.board state').movesMade = ((chosen.recording ++ [move]).length : Int)
    rw [(Board.applyMove_turn (ActorKind.board_observeMove hobserve')).2,
      hchosen.second_movesMade, hlength, hrecording]
    rfl

/-- The metrics of the moves that were made from `start` to `game`, each in the group of the player
who made it. -/
def Logged (fuel : Nat) (build : Build) (stopSignal : Player → Nat → StopSignal)
    (start game : Game (first.actor fuel build sampleSoftmax engine)
      (second.actor fuel build sampleSoftmax engine)) : Prop :=
  ∃ (searches : Nat → Option Nat) (values : Nat → Rat),
    (∀ player, game.metricsOf player = (List.range game.recording.length).flatMap fun ply =>
      if player = turn ply then choiceMetrics ply (searches ply) (values ply) else []) ∧
    ∀ ply < game.recording.length, ∃ asked, Asks fuel build stopSignal start asked ∧
      asked.recording.length = ply ∧ asked.simulations stopSignal = searches ply ∧
      ((searches ply).isSome ↔ ∃ cell, kindOf first second (turn ply) = .monteCarlo cell)

/-- One more move is logged. -/
theorem Logged.playMove (hasks : Asks fuel build stopSignal start game) (h : game.Counted)
    (hlog : Logged fuel build stopSignal start game)
    (hplay : game.playMove build stopSignal = .ok next) :
    Logged fuel build stopSignal start next := by
  obtain ⟨searches, values, hmetrics, hasked⟩ := hlog
  obtain ⟨_, hkind, value, hadded⟩ := h.playMove hplay
  have hlength := length_playMove hplay
  refine ⟨Function.update searches game.recording.length (game.simulations stopSignal),
    Function.update values game.recording.length value, fun player => ?_, fun ply hply => ?_⟩
  · rw [hadded player, hmetrics player, hlength, List.range_succ, List.flatMap_append]
    congr 1
    · apply List.flatMap_congr
      intro ply hply
      have hne : ply ≠ game.recording.length := (List.mem_range.mp hply).ne
      rw [Function.update_of_ne hne, Function.update_of_ne hne]
    · simp
  · by_cases hlast : ply = game.recording.length
    · subst hlast
      rw [Function.update_self]
      exact ⟨game, hasks, rfl, rfl, hkind⟩
    · rw [Function.update_of_ne hlast]
      exact hasked ply (by omega)

/-- A game between registered actors logs all of its moves. -/
theorem playout_logged {first second : ActorKind} (seeds : PlayerMap Int)
    {final : Game (first.actor fuel build sampleSoftmax engine)
      (second.actor fuel build sampleSoftmax engine)}
    (hrun : (Game.start (first.actor fuel build sampleSoftmax engine)
      (second.actor fuel build sampleSoftmax engine) seeds).playout fuel build stopSignal =
        .ok final) :
    Logged fuel build stopSignal (Game.start _ _ seeds) final := by
  have hcounted : (Game.start (first.actor fuel build sampleSoftmax engine)
      (second.actor fuel build sampleSoftmax engine) seeds).Counted := by
    refine ⟨rfl, ?_, ?_⟩
    · show (first.board _).movesMade = 0
      rw [Game.start, ActorKind.board_gameStarted]
      rfl
    · show (second.board _).movesMade = 0
      rw [Game.start, ActorKind.board_gameStarted]
      rfl
  have hlogged : Logged fuel build stopSignal
      (Game.start (first.actor fuel build sampleSoftmax engine)
        (second.actor fuel build sampleSoftmax engine) seeds) (Game.start _ _ seeds) := by
    refine ⟨fun _ => none, fun _ => 0, fun player => ?_,
      fun ply hply => absurd hply (by simp [Game.start])⟩
    cases player <;> rfl
  unfold playout at hrun
  obtain ⟨opened, hopen, hloop⟩ := bind_eq_ok.mp hrun
  have hfinal := whileLoop_preserves
    (fun game => game.Counted ∧ Logged fuel build stopSignal (Game.start _ _ seeds) game ∧
      ∃ asked, Asks fuel build stopSignal (Game.start _ _ seeds) asked ∧
        asked.playMove build stopSignal = .ok game)
    (by
      intro game next hgame hmore hplay
      obtain ⟨hcounted, hlogged, asked, hasked, hmade⟩ := hgame
      have hasks := Asks.again asked game hasked hmade hmore
      exact ⟨(hcounted.playMove hplay).1, Logged.playMove hasks hcounted hlogged hplay, game, hasks,
        hplay⟩)
    ⟨(hcounted.playMove hopen).1, Logged.playMove .first hcounted hlogged hopen, _, .first, hopen⟩
    hloop
  exact hfinal.2.1

end Registered

end Game

/-! ## Paths -/

section Paths

open MetricCollector

/-- The path at which the collector keeps a metric of a move of an actor. -/
def metricPath (name label : String) (ply : Nat) : String :=
  "/" ++ name ++ "/" ++ label ++ "/" ++ toString ply

/-- A path determines the actor, the metric and the move, even if the name of the actor contains
separators. -/
theorem metricPath_inj {name name' label label' : String} {ply ply' : Nat}
    (hlabel : '/' ∉ label.toList) (hlabel' : '/' ∉ label'.toList)
    (h : metricPath name label ply = metricPath name' label' ply') :
    name = name' ∧ label = label' ∧ ply = ply' := by
  obtain ⟨hpath, hply⟩ := Paths.append_number_inj h
  obtain ⟨hname, hsame⟩ := Paths.append_separator_inj hlabel hlabel' hpath
  exact ⟨(String.append_right_inj "/").mp hname, hsame, hply⟩

theorem iterations_eq_metricPath (name : String) (ply : Nat) :
    "/" ++ name ++ "/iterations/" ++ toString ply = metricPath name "iterations" ply := by
  have hlabel : "/iterations/" = "/" ++ "iterations" ++ "/" := rfl
  simp only [metricPath, hlabel, String.append_assoc]

theorem leaf_eq_metricPath (name label : String) (ply : Nat) :
    "/" ++ name ++ "/" ++ (label ++ "/" ++ toString ply) = metricPath name label ply := by
  simp only [metricPath, String.append_assoc]

/-- The metric of a search with `n` simulations. -/
def iterationsMetric (ply n : Nat) : Metric := .mean ("iterations" ++ "/" ++ toString ply) n 1

/-- Of the metrics of a move, the number of simulations is the only leaf at its path. -/
theorem leavesAt_choiceMetrics (owner name : String) (ply k : Nat) (simulations : Option Nat)
    (value : Rat) :
    leavesAt (metricPath name "iterations" k)
        (iterateFlatMetrics ("/" ++ owner) (choiceMetrics ply simulations value)) =
      if owner = name ∧ ply = k then
        simulations.toList.map (iterationsMetric k)
      else [] := by
  cases simulations with
  | none => simp [choiceMetrics, iterateFlatMetrics]
  | some iterations =>
      have hother : metricPath owner "expected_score" ply ≠ metricPath name "iterations" k := by
        intro h
        have hsame := (metricPath_inj (by decide) (by decide) h).2.1
        exact absurd hsame (by decide)
      simp only [choiceMetrics, moveMetrics, iterateFlatMetrics, iterateFlatMetric,
        leaf_eq_metricPath, List.append_nil, List.singleton_append]
      by_cases hpath : metricPath owner "iterations" ply = metricPath name "iterations" k
      · obtain ⟨rfl, _, rfl⟩ := metricPath_inj (by decide) (by decide) hpath
        simp [leavesAt, hother, iterationsMetric]
      · have hnot : ¬ (owner = name ∧ ply = k) := by
          intro hsame
          exact hpath (by rw [hsame.1, hsame.2])
        simp [leavesAt, hother, hpath, hnot]

/-- A `flatMap` over an initial segment of which one block only can be nonempty. -/
theorem flatMap_range_of_ne {α : Type} {block : Nat → List α} {k : Nat}
    (h : ∀ i, i ≠ k → block i = []) (n : Nat) :
    (List.range n).flatMap block = if k < n then block k else [] := by
  induction n with
  | zero => rfl
  | succ n ih =>
      rw [List.range_succ, List.flatMap_append, ih, List.flatMap_singleton]
      by_cases hlast : n = k
      · subst hlast
        simp
      · rw [h n hlast, List.append_nil]
        by_cases hlt : k < n
        · rw [if_pos hlt, if_pos (by omega)]
        · rw [if_neg hlt, if_neg (by omega)]

/-- Of the metrics group of a player, the number of simulations before a move of the player is the
only leaf at its path. -/
theorem leavesAt_group (owner name : String) (player : Player) (length k : Nat)
    (searches : Nat → Option Nat) (values : Nat → Rat) :
    leavesAt (metricPath name "iterations" k)
        (iterateFlatMetrics ("/" ++ owner) ((List.range length).flatMap fun ply =>
          if player = turn ply then choiceMetrics ply (searches ply) (values ply) else [])) =
      if k < length ∧ player = turn k ∧ owner = name then
        (searches k).toList.map (iterationsMetric k)
      else [] := by
  have hflat : ∀ plies : List Nat, leavesAt (metricPath name "iterations" k)
      (iterateFlatMetrics ("/" ++ owner) (plies.flatMap fun ply =>
        if player = turn ply then choiceMetrics ply (searches ply) (values ply) else [])) =
      plies.flatMap fun ply => if player = turn ply ∧ owner = name ∧ ply = k then
        (searches ply).toList.map (iterationsMetric k)
        else [] := by
    intro plies
    induction plies with
    | nil => rfl
    | cons ply rest ih =>
        rw [List.flatMap_cons, List.flatMap_cons, iterateFlatMetrics_append, leavesAt_append, ih]
        congr 1
        by_cases hturn : player = turn ply
        · rw [if_pos hturn, leavesAt_choiceMetrics]
          simp only [hturn, true_and]
        · rw [if_neg hturn, if_neg (fun h => hturn h.1)]
          rfl
  rw [hflat, flatMap_range_of_ne (fun i hi => if_neg fun h => hi h.2.2)]
  by_cases hlength : k < length
  · simp only [hlength, true_and, and_true, if_true]
  · simp only [hlength, false_and, if_false]

end Paths

/-! ## Completed games -/

/-- The specification of the actor that chooses a move. -/
def PlayGameRequest.chooser (request : PlayGameRequest) (k : Nat) : ActorSpec :=
  match turn k with
  | .first => request.firstPlayer
  | _ => request.secondPlayer

/-- The kind of the actor that chooses a move is the one of its specification. -/
theorem PlayGameRequest.monteCarlo_chooser_iff {request : PlayGameRequest}
    {first second : ActorKind} (hfirst : request.firstPlayer.kind = some first)
    (hsecond : request.secondPlayer.kind = some second) (k : Nat) :
    (∃ cell, Game.kindOf first second (turn k) = .monteCarlo cell) ↔
      (request.chooser k).type = "MonteCarloActor" := by
  unfold PlayGameRequest.chooser Game.kindOf
  cases hturn : turn k with
  | none => exact absurd hturn (turn_ne_none k)
  | first => exact ActorKind.monteCarlo_iff hfirst
  | second => exact ActorKind.monteCarlo_iff hsecond

/-- A game that `WorkerImpl::PlayGame` completed with registered actors. -/
structure CompletedGame (build : Build) (sampleSoftmax : SampleSoftmax) where
  fuel : Nat
  host : Host
  request : PlayGameRequest
  response : PlayGameResponse
  returned : WorkerImpl.playGame fuel build host
    (actorRegistry fuel build sampleSoftmax host.engine) request = .ok response

namespace CompletedGame

variable {build : Build} {sampleSoftmax : SampleSoftmax} {name : String} {k : Nat}

/-- A Monte Carlo actor with the name chose the move with index `k`. -/
def ChoseBySearch (game : CompletedGame build sampleSoftmax) (name : String) (k : Nat) : Prop :=
  k < game.response.recording.move.length ∧ (game.request.chooser k).name = name ∧
    (game.request.chooser k).type = "MonteCarloActor"

instance (game : CompletedGame build sampleSoftmax) (name : String) (k : Nat) :
    Decidable (game.ChoseBySearch name k) :=
  inferInstanceAs (Decidable (_ ∧ _))

/-- The search that chose the move with index `k` made `n` simulations: this is the value of
`iterations` when the referee had asked for the move. -/
def Searched (game : CompletedGame build sampleSoftmax) (k n : Nat) : Prop :=
  ∃ (first second : ActorKind)
    (asked : Game (first.actor game.fuel build sampleSoftmax game.host.engine)
      (second.actor game.fuel build sampleSoftmax game.host.engine)),
    game.request.firstPlayer.kind = some first ∧ game.request.secondPlayer.kind = some second ∧
    Game.Asks game.fuel build (WorkerImpl.stopSignal game.host game.request)
      (WorkerImpl.startGame game.host game.request _ _) asked ∧
    asked.recording.length = k ∧
    asked.simulations (WorkerImpl.stopSignal game.host game.request) = some n

/-- A completed game was played to its end between the actors of two kinds. -/
theorem exists_playout (game : CompletedGame build sampleSoftmax) :
    ∃ (first second : ActorKind)
      (final : Game (first.actor game.fuel build sampleSoftmax game.host.engine)
        (second.actor game.fuel build sampleSoftmax game.host.engine)),
      game.request.firstPlayer.kind = some first ∧ game.request.secondPlayer.kind = some second ∧
      (WorkerImpl.startGame game.host game.request _ _).playout game.fuel build
        (WorkerImpl.stopSignal game.host game.request) = .ok final ∧
      game.response.recording.move = final.recording ∧
      game.response.metrics = [.group game.request.firstPlayer.name final.metrics.first,
        .group game.request.secondPlayer.name final.metrics.second] := by
  have hreturned := game.returned
  unfold WorkerImpl.playGame at hreturned
  split at hreturned
  · cases hreturned
  · next A hfirst =>
      split at hreturned
      · cases hreturned
      · next B hsecond =>
          obtain ⟨first, hkind, rfl⟩ := ActorKind.create_eq_ok.mp hfirst
          obtain ⟨second, hkind', rfl⟩ := ActorKind.create_eq_ok.mp hsecond
          obtain ⟨final, hplayout, hreturned⟩ := bind_eq_ok.mp hreturned
          obtain ⟨score, _, hreturned⟩ := bind_eq_ok.mp hreturned
          refine ⟨first, second, final, hkind, hkind', hplayout, ?_, ?_⟩
          · rw [← Except.ok.inj hreturned]
          · rw [← Except.ok.inj hreturned]

/-- The referee asks for a move once, so the number of simulations before it is determined. -/
theorem searched_iff (game : CompletedGame build sampleSoftmax) {first second : ActorKind}
    (hfirst : game.request.firstPlayer.kind = some first)
    (hsecond : game.request.secondPlayer.kind = some second)
    {asked : Game (first.actor game.fuel build sampleSoftmax game.host.engine)
      (second.actor game.fuel build sampleSoftmax game.host.engine)}
    (hasks : Game.Asks game.fuel build (WorkerImpl.stopSignal game.host game.request)
      (WorkerImpl.startGame game.host game.request _ _) asked)
    (hply : asked.recording.length = k) {count : Nat}
    (hcount : asked.simulations (WorkerImpl.stopSignal game.host game.request) = some count)
    (n : Nat) : game.Searched k n ↔ n = count := by
  constructor
  · intro hsearched
    obtain ⟨first', second', asked', hfirst', hsecond', hasks', hply', hsome⟩ := hsearched
    obtain rfl := Option.some.inj (hfirst.symm.trans hfirst')
    obtain rfl := Option.some.inj (hsecond.symm.trans hsecond')
    obtain rfl := hasks.unique hasks' (hply.trans hply'.symm)
    rw [hcount] at hsome
    exact (Option.some.inj hsome).symm
  · intro hn
    subst hn
    exact ⟨first, second, asked, hfirst, hsecond, hasks, hply, hcount⟩

/-- The leaves that a completed game has at the path of the simulations of a move: one with their
number if a search of the actor chose the move, and none otherwise. -/
theorem leaves_eq (game : CompletedGame build sampleSoftmax) (name : String) (k : Nat) :
    (¬ game.ChoseBySearch name k ∧
      MetricCollector.leavesAt (metricPath name "iterations" k)
        (iterateFlatMetrics "" game.response.metrics) = []) ∨
    (game.ChoseBySearch name k ∧ ∃ count, (∀ n, game.Searched k n ↔ n = count) ∧
      MetricCollector.leavesAt (metricPath name "iterations" k)
        (iterateFlatMetrics "" game.response.metrics) = [iterationsMetric k count]) := by
  obtain ⟨first, second, final, hfirst, hsecond, hplayout, hmove, hmetrics⟩ := game.exists_playout
  obtain ⟨searches, values, hlogged, hasked⟩ := Game.playout_logged _ hplayout
  -- the leaves of both groups
  have hleaves : MetricCollector.leavesAt (metricPath name "iterations" k)
      (iterateFlatMetrics "" game.response.metrics) =
      if k < final.recording.length ∧ (game.request.chooser k).name = name then
        (searches k).toList.map (iterationsMetric k)
      else [] := by
    have hgroups : iterateFlatMetrics "" game.response.metrics =
        iterateFlatMetrics ("/" ++ game.request.firstPlayer.name) (final.metricsOf .first) ++
          iterateFlatMetrics ("/" ++ game.request.secondPlayer.name)
            (final.metricsOf .second) := by
      rw [hmetrics]
      simp [iterateFlatMetrics, iterateFlatMetric, Game.metricsOf]
    rw [hgroups, MetricCollector.leavesAt_append, hlogged, hlogged, leavesAt_group,
      leavesAt_group]
    unfold PlayGameRequest.chooser
    cases hturn : turn k with
    | none => exact absurd hturn (turn_ne_none k)
    | first => simp
    | second => simp
  by_cases hlength : k < final.recording.length
  · obtain ⟨asked, hasks, hply, hsimulations, hkind⟩ := hasked k hlength
    have htype : (searches k).isSome ↔ (game.request.chooser k).type = "MonteCarloActor" :=
      hkind.trans (PlayGameRequest.monteCarlo_chooser_iff hfirst hsecond k)
    by_cases hchose : game.ChoseBySearch name k
    · right
      obtain ⟨count, hcount⟩ := Option.isSome_iff_exists.mp (htype.mpr hchose.2.2)
      refine ⟨hchose, count,
        game.searched_iff hfirst hsecond hasks hply (hsimulations.trans hcount), ?_⟩
      rw [hleaves, if_pos ⟨hlength, hchose.2.1⟩, hcount]
      rfl
    · left
      refine ⟨hchose, ?_⟩
      rw [hleaves]
      by_cases hname : (game.request.chooser k).name = name
      · have hnone : searches k = none := by
          rw [← Option.not_isSome_iff_eq_none, htype]
          intro hmonteCarlo
          exact hchose ⟨by rw [hmove]; exact hlength, hname, hmonteCarlo⟩
        rw [hnone]
        simp
      · rw [if_neg fun h => hname h.2]
  · left
    refine ⟨fun hchose => hlength ?_, ?_⟩
    · rw [← hmove]
      exact hchose.1
    · rw [hleaves, if_neg fun h => hlength h.1]

/-- The leaves of some completed games at the path of the simulations of a move are the numbers of
simulations of the games in which a search of the actor chose the move. -/
theorem leaves_of_games (games : List (CompletedGame build sampleSoftmax)) (name : String)
    (k : Nat) :
    ∃ counts : List Nat,
      List.Forall₂ (fun game count => ∀ n, game.Searched k n ↔ n = count)
        (games.filter fun game => game.ChoseBySearch name k) counts ∧
      (games.flatMap fun game => MetricCollector.leavesAt (metricPath name "iterations" k)
        (iterateFlatMetrics "" game.response.metrics)) = counts.map (iterationsMetric k) := by
  induction games with
  | nil => exact ⟨[], .nil, rfl⟩
  | cons game rest ih =>
      obtain ⟨counts, hcounts, hleaves⟩ := ih
      rw [List.flatMap_cons, hleaves]
      rcases game.leaves_eq name k with ⟨hnot, hnone⟩ | ⟨hchose, count, hcount, hone⟩
      · rw [List.filter_cons_of_neg (by simpa using hnot), hnone]
        exact ⟨counts, hcounts, rfl⟩
      · rw [List.filter_cons_of_pos (by simpa using hchose), hone]
        exact ⟨count :: counts, .cons hcount hcounts, rfl⟩

/-- Numbers of simulations are merged to their mean. -/
theorem foldl_merge_iterations (k : Nat) (counts : List Nat) :
    (counts = [] ∧
      (counts.map (iterationsMetric k)).foldl MetricCollector.merge none = none) ∨
    (counts ≠ [] ∧ ∃ label,
      (counts.map (iterationsMetric k)).foldl MetricCollector.merge none =
        some (.mean label ((counts.sum : Nat) / (counts.length : Rat)) counts.length)) := by
  have hmeans := MetricCollector.foldl_merge_means
    (counts.map fun n : Nat => ("iterations" ++ "/" ++ toString k, (n : Rat), 1)) (by simp)
  simp only [List.map_map, Function.comp_def, Nat.cast_one, one_mul, List.map_const',
    List.sum_replicate, smul_eq_mul, mul_one, ← Nat.cast_list_sum, List.map_eq_nil_iff,
    ne_eq] at hmeans
  exact hmeans

/-- After any completed games between registered actors, the collector has an entry at the path of
the simulations of an actor before the move with index `k` exactly if a Monte Carlo actor with
that name chose this move in some game. The entry is the mean of the numbers of simulations in
these games, with their number as its count. -/
theorem iterations_attributed (games : List (CompletedGame build sampleSoftmax)) (name : String)
    (k : Nat) :
    let collector := games.foldl (fun collector game => collector.append game.response.metrics)
      MetricCollector.new
    let entry := collector.metrics.lookup ("/" ++ name ++ "/iterations/" ++ toString k)
    let chosen := games.filter fun game => game.ChoseBySearch name k
    (entry.isSome ↔ ∃ game ∈ games, game.ChoseBySearch name k) ∧
      ∃ counts : List Nat,
        List.Forall₂ (fun game count => ∀ n, game.Searched k n ↔ n = count) chosen counts ∧
        ∀ metric, entry = some metric →
          ∃ label, metric = .mean label ((counts.sum : Nat) / (chosen.length : Rat))
            chosen.length := by
  intro collector entry chosen
  obtain ⟨counts, hcounts, hleaves⟩ := leaves_of_games games name k
  have hlength : chosen.length = counts.length := hcounts.length_eq
  have hentry : entry = (counts.map (iterationsMetric k)).foldl MetricCollector.merge none := by
    have hcollect := MetricCollector.lookup_collect (metricPath name "iterations" k)
      (games.map fun game => game.response.metrics) MetricCollector.new
    rw [List.foldl_map, List.flatMap_map, hleaves, ← iterations_eq_metricPath] at hcollect
    exact hcollect
  have hsome : (∃ game ∈ games, game.ChoseBySearch name k) ↔ counts ≠ [] := by
    rw [← List.length_pos_iff, ← hlength, List.length_pos_iff_exists_mem]
    simp [chosen]
  rw [hsome, hentry]
  rcases foldl_merge_iterations k counts with ⟨hnil, hnone⟩ | ⟨hne, label, hmean⟩
  · rw [hnone]
    exact ⟨by simp [hnil], counts, hcounts, fun metric hmetric => by cases hmetric⟩
  · rw [hmean, hlength]
    refine ⟨by simp [hne], counts, hcounts, fun metric hmetric => ⟨label, ?_⟩⟩
    exact (Option.some.inj hmetric).symm

end CompletedGame

end Gomoku
