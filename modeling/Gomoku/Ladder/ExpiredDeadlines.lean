import Gomoku.Actors.Search
import Gomoku.Ladder.CompleteGames
import Gomoku.Ladder.SearchMetrics

/-!
# Games whose deadlines expire

When the deadline of a move has passed before the first simulation, a Monte Carlo actor answers
with the greedy move of a fresh cell, which is an empty field. With a time limit of zero it is a
legal actor. A game between two Monte Carlo actors is therefore completed if the first search
returns and no time is left after it (`completed_after_search`). With the right draws that search
makes any number of simulations (`exists_explores`).
-/

namespace Gomoku

open Execution Random Estimates PositionalGame

/-- The actor when every stop signal answers true. -/
def Actor.idle (actor : Actor) : Actor :=
  { actor with
    chooseMove := fun state _ metrics => actor.chooseMove state (fun _ => true) metrics }

namespace Game

variable {A B : Actor} {build : Build} {fuel : Nat}

/-- A game between idle actors as one between the actors. -/
def ofIdle (game : Game A.idle B.idle) : Game A B :=
  ⟨game.board, game.move, game.first, game.second, game.metrics, game.recording⟩

/-- The choices of idle actors are those of the actors without time. -/
theorem chooseMove_ofIdle (game : Game A.idle B.idle) (signal : StopSignal) :
    game.ofIdle.chooseMove (fun _ => true) =
      (game.chooseMove signal).map fun chosen => (chosen.1, chosen.2.ofIdle) := by
  have hboard : game.ofIdle.board = game.board := rfl
  unfold chooseMove
  rw [hboard]
  cases game.board.currentPlayer with
  | none => rfl
  | first =>
      show A.chooseMove game.first (fun _ => true) game.metrics.first >>= _ =
        (A.chooseMove game.first (fun _ => true) game.metrics.first >>= _).map _
      cases A.chooseMove game.first (fun _ => true) game.metrics.first <;> rfl
  | second =>
      show B.chooseMove game.second (fun _ => true) game.metrics.second >>= _ =
        (B.chooseMove game.second (fun _ => true) game.metrics.second >>= _).map _
      cases B.chooseMove game.second (fun _ => true) game.metrics.second <;> rfl

/-- A move without time is one of the idle actors. -/
theorem playMove_ofIdle (game : Game A.idle B.idle) {stopSignal : Player → Nat → StopSignal}
    (hexpired : stopSignal game.board.currentPlayer game.recording.length = fun _ => true) :
    game.ofIdle.playMove build stopSignal = (game.playMove build stopSignal).map ofIdle := by
  unfold playMove
  show game.ofIdle.chooseMove (stopSignal game.board.currentPlayer game.recording.length) >>= _ =
    (game.chooseMove (stopSignal game.board.currentPlayer game.recording.length) >>= _).map ofIdle
  rw [hexpired, chooseMove_ofIdle game (fun _ => true)]
  cases game.chooseMove (fun _ => true) with
  | error fault => rfl
  | ok chosen =>
      obtain ⟨move, chosen⟩ := chosen
      show chosen.board.applyMove build move >>= _ =
        (chosen.board.applyMove build move >>= _).map _
      cases chosen.board.applyMove build move with
      | error fault => rfl
      | ok board =>
          show A.observeMove chosen.first move >>= _ =
            (A.observeMove chosen.first move >>= _).map _
          cases A.observeMove chosen.first move with
          | error fault => rfl
          | ok first =>
              show B.observeMove chosen.second move >>= _ =
                (B.observeMove chosen.second move >>= _).map _
              cases B.observeMove chosen.second move <;> rfl

end Game

/-- Without time a Monte Carlo actor with the linear cell answers at once with an empty field. -/
theorem MonteCarloActor.chooseMove_without_time (fuel : Nat) (build : Build)
    (sampleSoftmax : SampleSoftmax) (state : MonteCarloActorState) (metrics : Metrics)
    (hempty : ∃ position, Board.Inside position ∧ state.board.owner position = .none) :
    ∃ move metrics', chooseMove (fuel + 1) build mcLinearCell sampleSoftmax state (fun _ => true)
        metrics = .ok (move, state, metrics') ∧
      Board.Inside move ∧ state.board.owner move = .none := by
  obtain ⟨position, hposition, hfree⟩ := hempty
  obtain ⟨marked, rfl⟩ := Field.exists_position hposition
  obtain ⟨field, hgreedy, hlegal, _⟩ := sampleGreedy_spec (fun _ => 1 / 2)
    (fun field => if state.board.owner field.position = .none then 1 else 0)
    (by
      intro field
      unfold Proper
      norm_num)
    (by
      intro field
      by_cases h : state.board.owner field.position = .none <;> simp [h, Outcome])
    ⟨marked, by simp [hfree]⟩
  have howner : state.board.owner field.position = .none := by
    by_contra hnot
    simp [hnot] at hlegal
  have hsearch : search (fuel + 1) build mcLinearCell sampleSoftmax state (fun _ => true) =
      .ok (startSearch mcLinearCell state.rng) := by
    unfold search
    rw [whileLoop]
    rfl
  have hmove : sampleGreedy (mcLinearCell.winProb (startSearch mcLinearCell state.rng).cellState)
      (fun field => if state.board.owner field.position = .none then 1 else 0) =
        field.position := hgreedy
  have hentry : (mcLinearCell.winProb (startSearch mcLinearCell state.rng).cellState).entry
      field.position = .ok (1 / 2) := FeatureMatrix.entry_position (fun _ => 1 / 2) field
  refine ⟨field.position, addMetricMeanAt (addMetricMeanAt metrics "iterations"
    state.board.movesMade (0 : Nat)) "expected_score" state.board.movesMade (1 / 2), ?_,
    field.inside_position, howner⟩
  unfold chooseMove
  show search (fuel + 1) build mcLinearCell sampleSoftmax state (fun _ => true) >>= _ = _
  rw [hsearch, ok_bind, stoneMatrix_eq, ok_bind]
  simp only [hmove, hentry, ok_bind, pure_eq_ok]
  rfl

/-- Without time a Monte Carlo actor with the linear cell is legal. -/
def monteCarloLegalActor (fuel : Nat) (build : Build) (sampleSoftmax : SampleSoftmax)
    (engine : Int → Rng) : LegalActor build where
  toActor := (monteCarloActor (fuel + 1) build mcLinearCell sampleSoftmax engine).idle
  board := MonteCarloActorState.board
  board_gameStarted := fun _ _ _ => rfl
  board_observeMove := by
    intro state move
    show Except.map MonteCarloActorState.board
      (state.board.applyMove build move >>= fun next => pure ⟨next, state.rng⟩) = _
    cases state.board.applyMove build move <;> rfl
  chooseMove_legal := by
    intro state stopSignal metrics _ hempty
    obtain ⟨move, metrics', hchoose, hmove, howner⟩ :=
      MonteCarloActor.chooseMove_without_time fuel build sampleSoftmax state metrics hempty
    exact ⟨move, state, metrics', hchoose, hmove, howner, rfl⟩

section Registered

variable {fuel : Nat} {build : Build} {sampleSoftmax : SampleSoftmax} {engine : Int → Rng}
  {stopSignal : Player → Nat → StopSignal}

/-- Once no time is left, the loop of a game between two Monte Carlo actors ends. -/
theorem Game.Pending.loop_ofIdle
    {game : Game (monteCarloLegalActor fuel build sampleSoftmax engine).toActor
      (monteCarloLegalActor fuel build sampleSoftmax engine).toActor} (h : game.Pending)
    (hexpired : ∀ player ply, 1 ≤ ply → stopSignal player ply = fun _ => true) :
    ∃ final : Game (monteCarloLegalActor fuel build sampleSoftmax engine).toActor
        (monteCarloLegalActor fuel build sampleSoftmax engine).toActor,
      (∀ limit, 362 ≤ limit →
        whileLoop (Game.continues limit build) (Game.playMove build stopSignal) limit
          game.ofIdle = .ok final.ofIdle) ∧
      final.Pending ∧
      ¬ (Board.Undecided final.recording ∧ final.board.noMovePossible = false) := by
  obtain ⟨_, hrun, ⟨final, hfinal, rfl⟩, hfinished⟩ := whileLoop_total
    (fun limit game => game.continues limit build)
    (fun _ game => game.playMove build stopSignal) 20
    (fun game => ∃ idle : Game (monteCarloLegalActor fuel build sampleSoftmax engine).toActor
      (monteCarloLegalActor fuel build sampleSoftmax engine).toActor,
      idle.Pending ∧ game = idle.ofIdle)
    (fun game => Board.Undecided game.recording ∧ game.board.noMovePossible = false)
    (fun game => 361 - game.recording.length)
    (by
      intro game hgame
      obtain ⟨idle, hidle, rfl⟩ := hgame
      exact hidle.continues)
    (by
      intro game hgame hgoing
      obtain ⟨idle, hidle, rfl⟩ := hgame
      obtain ⟨next, hplay, hnext, hlt⟩ := hidle.playMove hgoing stopSignal
      obtain ⟨earlier, hrecording, _⟩ := hidle.before
      have hpass : idle.ofIdle.playMove build stopSignal = .ok next.ofIdle :=
        (Game.playMove_ofIdle idle (hexpired _ _ (by simp [hrecording]))).trans
          (congrArg (Except.map Game.ofIdle) hplay)
      exact ⟨next.ofIdle, fun _ _ => hpass, ⟨next, hnext, rfl⟩, hlt⟩)
    ⟨game, h, rfl⟩
  refine ⟨final, fun limit hlimit => hrun limit limit (by omega) ?_, hfinal, hfinished⟩
  exact Nat.lt_of_le_of_lt (Nat.sub_le _ _) hlimit

/-- If the first search of a game returns, the game is at the condition of the loop after the first
move. -/
theorem Game.playMove_of_search {seeds : PlayerMap Int}
    {trials : List (MonteCarloActor.Trial [])} {drawn : Rng}
    (hsearch : MonteCarloActor.search (fuel + 1) build mcLinearCell sampleSoftmax
      ⟨Board.after [], engine seeds.first⟩ (stopSignal .first 0) =
        .ok (MonteCarloActor.searchAfter linearStep trials drawn)) :
    ∃ opened : Game (monteCarloLegalActor fuel build sampleSoftmax engine).toActor
        (monteCarloLegalActor fuel build sampleSoftmax engine).toActor,
      (Game.start (monteCarloActor (fuel + 1) build mcLinearCell sampleSoftmax engine)
        (monteCarloActor (fuel + 1) build mcLinearCell sampleSoftmax engine) seeds).playMove build
          stopSignal = .ok opened.ofIdle ∧ opened.Pending := by
  have hempty := ((Board.represents_after Legal.nil).owner_eq_none_iff ⟨0, 0⟩).mpr (by simp)
  obtain ⟨best, hgreedy, hbest⟩ := MonteCarloActor.sampleGreedy_best
    (MonteCarloActor.proper_estimates trials) ⟨⟨0, 0⟩, by decide, hempty⟩
  obtain ⟨happly, hpending⟩ := MonteCarloActor.Pending.next build Legal.nil Board.undecided_nil
    best.inside_position hbest.empty drawn
  have hchoose : MonteCarloActor.chooseMove (fuel + 1) build mcLinearCell sampleSoftmax
      ⟨Board.after [], engine seeds.first⟩ (stopSignal .first 0) [] = .ok (best.position,
        ⟨Board.after [], drawn⟩,
        moveMetrics 0 trials.length (MonteCarloActor.estimates linearStep trials best)) :=
    @MonteCarloActor.chooseMove_of_search build [] linearStep sampleSoftmax (engine seeds.first)
      drawn trials (fuel + 1) (stopSignal .first 0) [] best Legal.nil hsearch hgreedy
  refine ⟨⟨Board.after [best.position], best.position, ⟨Board.after [best.position], drawn⟩,
    ⟨Board.after [best.position], engine seeds.second⟩,
    ⟨moveMetrics 0 trials.length (MonteCarloActor.estimates linearStep trials best), []⟩,
    [best.position]⟩, ?_,
    { legal := hpending.legal
      replay := (Board.replay_eq_after build hpending.legal).1
      represents := Board.represents_after hpending.legal
      reachable := (Board.replay_eq_after build hpending.legal).2
      first_board := rfl
      second_board := rfl
      before := ⟨[], rfl, Board.undecided_nil⟩ }⟩
  show MonteCarloActor.chooseMove (fuel + 1) build mcLinearCell sampleSoftmax
    ⟨Board.after [], engine seeds.first⟩ (stopSignal .first 0) [] >>= _ >>= _ = _
  rw [hchoose]
  show Board.applyMove build (Board.after []) best.position >>= _ = _
  rw [happly, ok_bind]
  show (Board.applyMove build (Board.after []) best.position >>= _) >>= _ = _
  rw [happly]
  show (Board.applyMove build (Board.after []) best.position >>= _) >>= _ = _
  rw [happly]
  rfl

end Registered

/-- A game between two Monte Carlo actors with the linear cell is completed if no time is left after
the first search. -/
theorem completed_after_search {build : Build} {sampleSoftmax : SampleSoftmax} (host : Host)
    (request : PlayGameRequest)
    (hfirst : request.firstPlayer.kind = some (.monteCarlo mcLinearCell))
    (hsecond : request.secondPlayer.kind = some (.monteCarlo mcLinearCell))
    {trials : List (MonteCarloActor.Trial [])} {drawn : Rng} {seed : Int}
    (hseed : seedOf ((host.engine request.seed).draw 0) = seed)
    (hexplores : MonteCarloActor.Explores build linearStep sampleSoftmax [] (host.engine seed)
      trials drawn)
    (hstops : MonteCarloActor.Stops (host.newStopSignal request.moveTimeLimitMicros 0)
      trials.length)
    (hexpired : ∀ ply, 1 ≤ ply →
      host.newStopSignal request.moveTimeLimitMicros ply = fun _ => true) :
    ∃ game : CompletedGame build sampleSoftmax, game.request = request ∧
      game.Searched 0 trials.length ∧ 9 ≤ game.response.recording.move.length := by
  obtain ⟨fuel, hfuel⟩ : ∃ fuel, 361 + trials.length ≤ fuel := ⟨_, le_rfl⟩
  obtain ⟨other, hother⟩ : ∃ other, seedOf ((host.engine request.seed).tail.draw 0) = other :=
    ⟨_, rfl⟩
  have hsearch : MonteCarloActor.search (fuel + 1) build mcLinearCell sampleSoftmax
      ⟨Board.after [], host.engine seed⟩ (WorkerImpl.stopSignal host request .first 0) =
        .ok (MonteCarloActor.searchAfter linearStep trials drawn) :=
    hexplores.search Legal.nil hstops _ (by omega)
  obtain ⟨opened, hopen, hopened⟩ := @Game.playMove_of_search fuel build sampleSoftmax host.engine
    (WorkerImpl.stopSignal host request) ⟨seed, other⟩ trials drawn hsearch
  obtain ⟨final, hloop, hpending, hfinished⟩ := hopened.loop_ofIdle
    fun _ ply hply => hexpired ply hply
  have hscore := hpending.score (fuel + 1) (by omega)
  have hplayout : (WorkerImpl.startGame host request
      (monteCarloActor (fuel + 1) build mcLinearCell sampleSoftmax host.engine)
      (monteCarloActor (fuel + 1) build mcLinearCell sampleSoftmax host.engine)).playout (fuel + 1)
        build (WorkerImpl.stopSignal host request) = .ok final.ofIdle := by
    unfold WorkerImpl.startGame Game.playout
    dsimp only
    rw [hseed, hother, hopen, ok_bind]
    exact hloop _ (by omega)
  have hcount : (WorkerImpl.startGame host request
      ((ActorKind.monteCarlo mcLinearCell).actor (fuel + 1) build sampleSoftmax host.engine)
      ((ActorKind.monteCarlo mcLinearCell).actor (fuel + 1) build sampleSoftmax
        host.engine)).simulations (WorkerImpl.stopSignal host request) = some trials.length := by
    unfold WorkerImpl.startGame
    dsimp only
    rw [hseed, hother]
    exact @ActorKind.simulations_of_search _ _ _ host.engine _ _ _ _ hsearch
  have hcreate : ∀ spec : ActorSpec, spec.kind = some (.monteCarlo mcLinearCell) →
      (actorRegistry (fuel + 1) build sampleSoftmax host.engine).create spec.type
        spec.config =
          .ok (monteCarloActor (fuel + 1) build mcLinearCell sampleSoftmax host.engine) :=
    fun _ hkind => ActorKind.create_eq_ok.mpr ⟨_, hkind, rfl⟩
  refine ⟨⟨fuel + 1, host, request,
    ⟨⟨final.recording, if final.board.FiveInRow .first then 1 else 0⟩,
      [.group request.firstPlayer.name final.metrics.first,
        .group request.secondPlayer.name final.metrics.second]⟩, ?_⟩, rfl,
    ⟨_, _, _, hfirst, hsecond, .first, rfl, hcount⟩, (hpending.complete hfinished).nine_le⟩
  unfold WorkerImpl.playGame
  simp only [hcreate _ hfirst, hcreate _ hsecond, hplayout]
  show Game.score _ build final.ofIdle >>= _ = _
  rw [show Game.score _ build final.ofIdle = _ from hscore]
  rfl

/-! ## The first search -/

namespace MonteCarloActor

theorem secondOrderExp_pos (value : Rat) : 0 < secondOrderExp value := by
  unfold secondOrderExp
  nlinarith [sq_nonneg (1 + value)]

/-- With the smallest draw `SampleSoftmax` picks the first field if it is empty. -/
theorem sampleSoftmax_smallest {moves : List Vector2i} (winProb : FeatureMatrix Rat) (rng : Rng)
    (hempty : (Board.after moves).owner (Field.position (0, 0)) = .none) :
    sampleSoftmax secondOrderExp inverseTransform winProb (emptyFields moves) 1 (rng.push 0) =
      (Field.position (0, 0), rng) := by
  have hnonneg : ∀ field, 0 ≤ secondOrderExp (winProb field / 1) * emptyFields moves field := by
    intro field
    refine mul_nonneg (secondOrderExp_pos _).le ?_
    unfold emptyFields
    split <;> norm_num
  have hfirst : 0 < secondOrderExp (winProb (0, 0) / 1) * emptyFields moves (0, 0) := by
    refine mul_pos (secondOrderExp_pos _) ?_
    rw [emptyFields, if_pos hempty]
    exact one_pos
  obtain ⟨later, hstored⟩ : ∃ later, storageOrder kWidth kHeight = (0, 0) :: later := ⟨_, rfl⟩
  have hsum : 0 < ((storageOrder kWidth kHeight).map fun field =>
      secondOrderExp (winProb field / 1) * emptyFields moves field).sum := by
    rw [hstored, List.map_cons, List.sum_cons]
    refine add_pos_of_pos_of_nonneg hfirst (List.sum_nonneg fun weight hweight => ?_)
    obtain ⟨field, _, rfl⟩ := List.mem_map.mp hweight
    exact hnonneg field
  have hindex : firstExceeding ((storageOrder kWidth kHeight).map fun field =>
      secondOrderExp (winProb field / 1) * emptyFields moves field /
        ((storageOrder kWidth kHeight).map fun field =>
          secondOrderExp (winProb field / 1) * emptyFields moves field).sum) 0 = 0 := by
    generalize ((storageOrder kWidth kHeight).map fun field =>
      secondOrderExp (winProb field / 1) * emptyFields moves field).sum = sum at hsum ⊢
    rw [hstored, List.map_cons]
    exact firstExceeding_zero (div_pos hfirst hsum) _
  unfold sampleSoftmax sampleWeightMatrix inverseTransform
  simp only [Rng.push_draw_zero, Rng.tail_push, Nat.zero_mod, Nat.cast_zero, zero_div, zero_mul,
    hindex]
  rfl

/-- FIRST fills the corner of the first row while SECOND plays below. -/
def twoRows : List Vector2i :=
  [⟨0, 1⟩, ⟨1, 0⟩, ⟨1, 1⟩, ⟨2, 0⟩, ⟨2, 1⟩, ⟨3, 0⟩, ⟨3, 1⟩, ⟨4, 0⟩]

/-- A simulated game that FIRST wins in the first row. -/
theorem exists_trial_twoRows : ∃ trial : Trial [], trial.field = (0, 0) := by
  have hlegal : Legal (⟨0, 0⟩ :: twoRows) := by decide
  refine ⟨⟨(0, 0), twoRows, hlegal, Board.undecided_of_length_lt (by decide), ?_⟩, rfl⟩
  intro hundecided
  exact (Board.represents_after hlegal).undecided_iff.mp hundecided .first
    ⟨by decide, (0, 0), .horizontal, by decide +kernel⟩

/-- With the right draws a search from the start makes any number of simulations. -/
theorem exists_explores (build : Build) (count : Nat) (drawn : Rng) :
    ∃ (rng : Rng) (trials : List (Trial [])), trials.length = count ∧
      Explores build linearStep (sampleSoftmax secondOrderExp inverseTransform) [] rng trials
        drawn := by
  induction count generalizing drawn with
  | zero => exact ⟨drawn, [], rfl, .start⟩
  | succ count ih =>
      obtain ⟨trial, hfield⟩ := exists_trial_twoRows
      obtain ⟨rng, trials, hcount, hexplores⟩ :=
        ih ((Board.draws trial.later drawn).push 0)
      have hempty := ((Board.represents_after Legal.nil).owner_eq_none_iff
        (Field.position (0, 0))).mpr (by simp)
      have hsample := sampleSoftmax_smallest (estimates linearStep trials)
        (Board.draws trial.later drawn) hempty
      rw [← hfield] at hsample
      have hlegal := trial.legal
      rw [← List.singleton_append, ← List.append_assoc] at hlegal
      exact ⟨rng, trials ++ [trial], by rw [List.length_append, hcount, List.length_singleton],
        .again trials _ trial _ drawn hexplores hsample (sampled_draws hlegal drawn)⟩

end MonteCarloActor

/-- A request for a game between two Monte Carlo actors. -/
def searchRequest : PlayGameRequest where
  firstPlayer := ⟨"search/1", "MonteCarloActor", ⟨[⟨"cell", "linear", 0, 0⟩]⟩⟩
  secondPlayer := ⟨"search/2", "MonteCarloActor", ⟨[⟨"cell", "linear", 0, 0⟩]⟩⟩
  moveTimeLimitMicros := 1000
  seed := 1

/-- The first search of a game can make any number of simulations. -/
theorem exists_searched (count : Nat) :
    ∃ game : CompletedGame .debug (sampleSoftmax MonteCarloActor.secondOrderExp inverseTransform),
      game.Searched 0 count ∧ game.ChoseBySearch "search/1" 0 := by
  obtain ⟨rng, trials, rfl, hexplores⟩ :=
    MonteCarloActor.exists_explores .debug count ⟨fun _ => 0⟩
  have hseed : seedOf 0 = 0 := by decide
  obtain ⟨game, hrequest, hsearched, hlength⟩ := completed_after_search
    ⟨fun seed => if seed = 0 then rng else ⟨fun _ => 0⟩,
      fun _ ply k => decide (ply ≠ 0 ∨ trials.length ≤ k)⟩ searchRequest rfl rfl hseed hexplores
    ⟨fun k hk => decide_eq_false (by omega), decide_eq_true (Or.inr le_rfl)⟩
    fun ply hply => funext fun k => decide_eq_true (Or.inl (by omega))
  refine ⟨game, hsearched, by omega, ?_, ?_⟩
  · rw [hrequest]
    rfl
  · rw [hrequest]
    rfl

/-- After a game whose first search made three simulations and one whose first search made one, the
entry of the first move is their mean. -/
theorem iterations_attributed_two_games :
    ∃ (game game' : CompletedGame .debug
        (sampleSoftmax MonteCarloActor.secondOrderExp inverseTransform)) (label : String),
      game.Searched 0 3 ∧ game'.Searched 0 1 ∧
        ([game, game'].foldl (fun collector game => collector.append game.response.metrics)
          MetricCollector.new).metrics.lookup ("/" ++ "search/1" ++ "/iterations/" ++ toString 0) =
            some (.mean label 2 2) := by
  obtain ⟨game, hsearched, hchose⟩ := exists_searched 3
  obtain ⟨game', hsearched', hchose'⟩ := exists_searched 1
  obtain ⟨hentry, counts, hcounts, hmean⟩ :=
    CompletedGame.iterations_attributed [game, game'] "search/1" 0
  have hchosen : [game, game'].filter (fun game => game.ChoseBySearch "search/1" 0) =
      [game, game'] := by
    simp [hchose, hchose']
  rw [hchosen] at hcounts hmean
  obtain ⟨metric, hmetric⟩ := Option.isSome_iff_exists.mp (hentry.mpr ⟨game, by simp, hchose⟩)
  obtain ⟨label, rfl⟩ := hmean metric hmetric
  cases hcounts with
  | cons hcount hrest =>
      cases hrest with
      | cons hcount' hnone =>
          cases hnone
          obtain rfl := (hcount 3).mp hsearched
          obtain rfl := (hcount' 1).mp hsearched'
          refine ⟨game, game', label, hsearched, hsearched', ?_⟩
          rw [hmetric]
          norm_num

end Gomoku
