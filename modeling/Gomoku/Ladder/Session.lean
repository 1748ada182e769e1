import Gomoku.Ladder.LogStats
import Gomoku.Ladder.Referee
import Mathlib.Tactic.NormNum

/-!
# Sessions on a ladder

`TestLadder` of `test_ladder.cc`: rounds of `Supervisor::Play` on one ladder, each followed by
`LogStats`. The workers answer with what `WorkerImpl::PlayGame` returns for the registered
actors, or fail. Over a whole session the ladder counts exactly the games that were reported, so
what it prints after a round are the results by the rules of all games so far
(`session_prints_results`), and only the first `LogStats` of a session can fail
(`session_keeps_printing`).
-/

namespace Gomoku

open Execution Random

/-! ## The results of games -/

/-- A completed game: the request and the response. -/
abbrev Report := PlayGameRequest × PlayGameResponse

namespace Report

/-- The number of players of a game with a name, two if both have it. -/
def plays (name : String) (game : Report) : Nat :=
  (if name = game.1.firstPlayer.name then 1 else 0) +
    if name = game.1.secondPlayer.name then 1 else 0

/-- The game counts as won by a name: FIRST has five in a row and the name, or FIRST has not and
SECOND has the name. -/
def wonBy (name : String) (game : Report) : Prop :=
  if (Board.after game.2.recording.move).FiveInRow .first then name = game.1.firstPlayer.name
  else name = game.1.secondPlayer.name

instance (name : String) (game : Report) : Decidable (game.wonBy name) := by
  unfold wonBy
  infer_instance

/-- The players are two different actors of a list. -/
def Between (actors : List ActorSpec) (game : Report) : Prop :=
  ∃ i j : Nat, i ≠ j ∧ actors[i]? = some game.1.firstPlayer ∧
    actors[j]? = some game.1.secondPlayer

end Report

namespace BasicLadder

variable {build : Build}

/-- A name plays once as the winner or as the loser for every time it plays. -/
theorem plays_eq (request : PlayGameRequest) (response : PlayGameResponse) (name : String) :
    (Report.plays name (request, response) : Int) =
      (if name = winner request response then 1 else 0) +
        if name = loser request response then 1 else 0 := by
  unfold Report.plays winner loser
  by_cases hscore : response.recording.score ≥ 1 / 2
  · rw [if_pos hscore, if_pos hscore]
    push_cast
    rfl
  · rw [if_neg hscore, if_neg hscore]
    push_cast
    exact Int.add_comm _ _

/-- The games of a name after some completed games. -/
theorem games_afterGames (ladder : BasicLadder) (calls : List Report) (name : String) :
    (ladder.afterGames calls).games name =
      ladder.games name + ((calls.map (Report.plays name)).sum : Nat) := by
  induction calls generalizing ladder with
  | nil => exact (Int.add_zero _).symm
  | cons call rest ih =>
      show ((ladder.gameCompleted call.1 call.2).afterGames rest).games name = _
      rw [ih, games_gameCompleted, Int.add_assoc (ladder.games name), ← plays_eq, List.map_cons,
        List.sum_cons]
      push_cast
      ring

/-- The wins of a name after some complete games are the games that it has won. -/
theorem won_afterGames (ladder : BasicLadder) (calls : List Report) (name : String)
    (hcomplete : ∀ call ∈ calls, ∃ board, CompleteGame build call.2.recording board) :
    (ladder.afterGames calls).won name =
      ladder.won name + (calls.countP fun call => decide (call.wonBy name) : Nat) := by
  induction calls generalizing ladder with
  | nil => exact (Int.add_zero _).symm
  | cons call rest ih =>
      rw [List.forall_mem_cons] at hcomplete
      obtain ⟨⟨board, hboard⟩, hrest⟩ := hcomplete
      have hwon : (if name = (if call.2.recording.score ≥ 1 / 2 then call.1.firstPlayer.name
          else call.1.secondPlayer.name) then (1 : Int) else 0) =
          if call.wonBy name then 1 else 0 := by
        rw [hboard.score, hboard.board_eq]
        unfold Report.wonBy
        by_cases hfive : (Board.after call.2.recording.move).FiveInRow .first
        · have hscore : (1 : Rat) ≥ 1 / 2 := by norm_num
          simp only [if_pos hfive, if_pos hscore]
        · have hscore : ¬ (0 : Rat) ≥ 1 / 2 := by norm_num
          simp only [if_neg hfive, if_neg hscore]
      show ((ladder.gameCompleted call.1 call.2).afterGames rest).won name = _
      rw [ih _ hrest, won_gameCompleted, hwon, List.countP_cons]
      by_cases h : call.wonBy name
      · simp only [h, if_true, decide_true]
        push_cast
        ring
      · simp only [h, if_false, decide_false, Bool.false_eq_true, Nat.add_zero, Int.add_zero]

/-- The line that `LogStats` prints for an actor. -/
def statsLine (printFloat : Rat → String) (name : String) (won games : Int) : String :=
  "Actor " ++ name ++ ": " ++ toString won ++ "/" ++ toString games ++ " = " ++
    printFloat (won / games)

/-- What `LogStats` prints when every actor has an entry. -/
theorem logStats_eq (printFloat : Rat → String) {ladder : BasicLadder}
    (h : ∀ actor ∈ ladder.ladderSpec.actorSpec, actor.name ∈ ladder.stats.keys) :
    ladder.logStats printFloat =
      .ok (("Statistics for ladder " ++ ladder.ladderSpec.name ++ ":") ::
        ladder.ladderSpec.actorSpec.map fun actor =>
          statsLine printFloat actor.name (ladder.won actor.name) (ladder.games actor.name)) := by
  unfold logStats
  rw [foldlM_eq_ok _ _ fun lines actor => lines ++
    [statsLine printFloat actor.name (ladder.won actor.name) (ladder.games actor.name)]]
  · rw [List.foldl_append_eq_append, ← List.flatMap_def, ← List.map_eq_flatMap]
    rfl
  · intro actor hactor lines
    have hentry := h actor hactor
    rw [Finmap.mem_keys, ← Finmap.lookup_isSome] at hentry
    simp only [hentry, check_true, ok_bind]
    rfl

end BasicLadder

/-! ## Rounds -/

/-- A response that a worker returns for a request: the registered actors have played a game. -/
def PlayedBy (build : Build) (request : PlayGameRequest) (response : PlayGameResponse) : Prop :=
  ∃ fuel searchFuel host sampleSoftmax engine, WorkerImpl.playGame fuel build host
    (actorRegistry searchFuel build sampleSoftmax engine) request = .ok response

namespace Supervisor

variable {build : Build} {printFloat : Rat → String} {config : Config}
  {start ladder : BasicLadder}

/-- One pass through the loop of `TestLadder`: `Play` returns, and `LogStats` prints. -/
structure Round (printFloat : Rat → String) (config : Config) (ladder : BasicLadder)
    (state : State basicLadder) (lines : List String) : Prop where
  reachable : Reachable (L := basicLadder) config ladder state
  returned : state.control = .returned
  printed : (ladderOf state).logStats printFloat = .ok lines

/-- The rounds so far, with the state in which `Play` returned and the lines of `LogStats`, and the
ladder after them. -/
inductive Session (printFloat : Rat → String) (config : Config) (start : BasicLadder) :
    List (State basicLadder × List String) → BasicLadder → Prop where
  | start : Session printFloat config start [] start
  | round (rounds ladder state lines) :
      Session printFloat config start rounds ladder → Round printFloat config ladder state lines →
      Session printFloat config start (rounds ++ [(state, lines)]) (ladderOf state)

/-- The games that were reported to the ladder in some rounds. -/
def reports (rounds : List (State basicLadder × List String)) : List Report :=
  rounds.flatMap fun round => round.1.reported

theorem reports_append (rounds : List (State basicLadder × List String))
    (state : State basicLadder) (lines : List String) :
    reports (rounds ++ [(state, lines)]) = reports rounds ++ state.reported := by
  simp [reports]

/-- A game that `Play` reports is one between two different actors of the ladder. -/
theorem Reachable.reported_actors (hactors : 2 ≤ ladder.ladderSpec.actorSpec.length)
    {state : State basicLadder} (h : Reachable (L := basicLadder) config ladder state)
    {game : Report} (hgame : game ∈ state.reported) :
    game.Between ladder.ladderSpec.actorSpec := by
  obtain ⟨request, response⟩ := game
  obtain ⟨entry, hentry, rfl⟩ := delivered_of_reported h.ledger hgame
  obtain ⟨hfirst, hsecond⟩ := (h.drawn hactors).request entry.1
    (List.mem_append_left _ (List.mem_map_of_mem hentry))
  have hmatch := (ladder.advance entry.1.tag).matchup_mem hactors
  obtain ⟨⟨⟨hlow, _⟩, hlow', _⟩, hne⟩ := BasicLadder.mem_orderedPairs.mp hmatch
  exact ⟨_, _, by omega, hfirst, hsecond⟩

namespace Session

variable {rounds : List (State basicLadder × List String)}

/-- A session does not change the specification. -/
theorem spec_eq (hactors : 2 ≤ start.ladderSpec.actorSpec.length)
    (h : Session printFloat config start rounds ladder) : ladder.ladderSpec = start.ladderSpec := by
  induction h with
  | start => rfl
  | round rounds ladder state lines _ hround ih =>
      rw [← ih] at hactors ⊢
      exact (hround.reachable.drawn hactors).spec_eq

/-- The statistics of a session are those of the games that were reported in it. -/
theorem stats_eq (hactors : 2 ≤ start.ladderSpec.actorSpec.length)
    (h : Session printFloat config start rounds ladder) :
    ladder.stats = (start.afterGames (reports rounds)).stats := by
  induction h with
  | start => rfl
  | round rounds ladder state lines hsession hround ih =>
      have hdrawn := hround.reachable.drawn (by rwa [hsession.spec_eq hactors])
      rw [hdrawn.stats_eq, reports_append, BasicLadder.afterGames_append,
        BasicLadder.afterGames_stats, BasicLadder.afterGames_stats _ state.reported, ih]

/-- Every round plays the number of games it was asked for. -/
theorem length_reports (hnum : 0 ≤ config.numGames)
    (h : Session printFloat config start rounds ladder) :
    ((reports rounds).length : Int) = rounds.length * config.numGames := by
  induction h with
  | start => simp [reports]
  | round rounds ladder state lines _ hround ih =>
      obtain ⟨hstarted, hdelivered, hall, _⟩ := hround.reachable.all_of_returned hnum hround.returned
      have hcompleted := hround.reachable.ledger.completed_le.2.mpr hall
      rw [hround.reachable.ledger.completed_eq] at hcompleted
      rw [reports_append, List.length_append, List.length_append, List.length_singleton]
      push_cast
      rw [ih, hcompleted, hdelivered]
      ring

/-- The reported games are between two different actors of the ladder. -/
theorem actors_of_mem (hactors : 2 ≤ start.ladderSpec.actorSpec.length)
    (h : Session printFloat config start rounds ladder) :
    ∀ game ∈ reports rounds, game.Between start.ladderSpec.actorSpec := by
  induction h with
  | start =>
      intro game hgame
      cases hgame
  | round rounds ladder state lines hsession hround ih =>
      rw [reports_append, List.forall_mem_append]
      refine ⟨ih, fun game hgame => ?_⟩
      have hspec := hsession.spec_eq hactors
      rw [← hspec] at hactors ⊢
      exact hround.reachable.reported_actors hactors hgame

/-- Every round of a session ends a shorter session. -/
theorem prefix_round (h : Session printFloat config start rounds ladder) {k : Nat}
    (hk : k < rounds.length) :
    Session printFloat config start (rounds.take (k + 1)) (ladderOf rounds[k].1) ∧
      (ladderOf rounds[k].1).logStats printFloat = .ok rounds[k].2 := by
  induction h with
  | start => exact absurd hk (Nat.not_lt_zero k)
  | round rounds ladder state lines hsession hround ih =>
      rw [List.length_append, List.length_singleton] at hk
      by_cases hlast : k = rounds.length
      · subst hlast
        have hround' := Session.round rounds ladder state lines hsession hround
        rw [List.take_of_length_le (by simp)]
        simpa using ⟨hround', hround.printed⟩
      · have hlt : k < rounds.length := by omega
        rw [List.take_append_of_le_length (by omega), List.getElem_append_left hlt]
        exact ih hlt

/-- A session with a round has printed the statistics of every actor. -/
theorem all_entries (h : Session printFloat config start rounds ladder) (hsome : rounds ≠ []) :
    ∀ actor ∈ ladder.ladderSpec.actorSpec, actor.name ∈ ladder.stats.keys := by
  cases h with
  | start => exact absurd rfl hsome
  | round rounds ladder state lines _ hround =>
      exact (BasicLadder.logStats_returns_iff printFloat _).mp ⟨lines, hround.printed⟩

end Session

/-- A session of one round with one game between two random actors. -/
theorem exists_session_one_round :
    ∃ state lines, Session (fun _ => "") ⟨1, 1, 1⟩ twoActors [(state, lines)] (ladderOf state) ∧
      ∀ game ∈ reports [(state, lines)], PlayedBy .debug game.1 game.2 := by
  have hprepare : basicLadder.prepareGameRequest twoActors =
      .ok (onlyCall.request, (oneCall .rpcLoop).ladder) := rfl
  obtain ⟨_, response, _, ⟨bound, hplay⟩, _, _⟩ := WorkerImpl.playGame_complete
    (randomLegalActor .debug fun _ => ⟨fun _ => 0⟩) (randomLegalActor .debug fun _ => ⟨fun _ => 0⟩)
    ⟨fun _ => ⟨fun _ => 0⟩, fun _ _ _ => true⟩
    (actorRegistry 0 .debug (fun _ _ _ rng => (⟨0, 0⟩, rng)) fun _ => ⟨fun _ => 0⟩)
    onlyCall.request rfl rfl
  obtain ⟨state, hreach, hreturned, hreported⟩ :=
    exists_returned_of_prepareGameRequest hprepare response
  have hdrawn : Drawn twoActors state := Reachable.drawn (by decide) hreach
  obtain ⟨lines, hlines⟩ : ∃ lines, (ladderOf state).logStats (fun _ => "") = .ok lines := by
    rw [BasicLadder.logStats_returns_iff, hdrawn.spec_eq]
    intro actor hactor
    rw [hdrawn.stats_eq, BasicLadder.mem_keys_afterGames, hreported]
    refine Or.inr ⟨_, List.mem_singleton_self _, ?_⟩
    rcases List.mem_pair.mp hactor with rfl | rfl
    · exact Or.inl rfl
    · exact Or.inr rfl
  refine ⟨state, lines, .round [] twoActors state lines .start ⟨hreach, hreturned, hlines⟩, ?_⟩
  intro game hgame
  rw [show reports [(state, lines)] = state.reported from List.append_nil _, hreported,
    List.mem_singleton] at hgame
  subst hgame
  exact ⟨bound, 0, _, _, _, hplay bound le_rfl⟩

/-- A session on a new ladder, with workers that answer with games of the registered actors: every
reported game is a complete game between two different actors of the specification. After each
round, `num_games` more games have been reported, and `LogStats` prints for every actor the
number of games that it has won by the rules and played, over all games so far. -/
theorem session_prints_results (printFloat : Rat → String) (config : Config)
    (hnum : 0 ≤ config.numGames) (ladderSpec : LadderSpec)
    (hactors : 2 ≤ ladderSpec.actorSpec.length) (rng : Rng)
    (rounds : List (State basicLadder × List String)) (ladder : BasicLadder)
    (h : Session printFloat config (BasicLadder.new ladderSpec rng) rounds ladder)
    (hserved : ∀ game ∈ reports rounds, PlayedBy build game.1 game.2) :
    (∀ game ∈ reports rounds, game.Between ladderSpec.actorSpec ∧
      ∃ board, CompleteGame build game.2.recording board) ∧
    ∀ k (hk : k < rounds.length),
      ((reports (rounds.take (k + 1))).length : Int) = (k + 1) * config.numGames ∧
      rounds[k].2 = ("Statistics for ladder " ++ ladderSpec.name ++ ":") ::
        ladderSpec.actorSpec.map fun actor => BasicLadder.statsLine printFloat actor.name
          ((reports (rounds.take (k + 1))).countP fun game => decide (game.wonBy actor.name))
          ((reports (rounds.take (k + 1))).map (Report.plays actor.name)).sum := by
  have hcomplete : ∀ game ∈ reports rounds, ∃ board, CompleteGame build game.2.recording board := by
    intro game hgame
    obtain ⟨fuel, searchFuel, host, sampleSoftmax, engine, hplay⟩ := hserved game hgame
    exact WorkerImpl.complete_of_registered hplay
  refine ⟨fun game hgame => ⟨h.actors_of_mem hactors game hgame, hcomplete game hgame⟩,
    fun k hk => ?_⟩
  obtain ⟨hshorter, hprinted⟩ := h.prefix_round hk
  have hlength := hshorter.length_reports hnum
  rw [List.length_take_of_le (by omega)] at hlength
  push_cast at hlength
  refine ⟨hlength, ?_⟩
  have hsome : rounds.take (k + 1) ≠ [] := by
    rw [← List.length_pos_iff, List.length_take_of_le (by omega)]
    omega
  have hentries := hshorter.all_entries hsome
  rw [BasicLadder.logStats_eq printFloat hentries] at hprinted
  have hcomplete' : ∀ game ∈ reports (rounds.take (k + 1)),
      ∃ board, CompleteGame build game.2.recording board := by
    intro game hgame
    obtain ⟨round, hround, hgame⟩ := List.mem_flatMap.mp hgame
    exact hcomplete game (List.mem_flatMap.mpr ⟨round, List.mem_of_mem_take hround, hgame⟩)
  -- the ladder after the round has counted the games reported so far
  have hstats := hshorter.stats_eq hactors
  have hwon : ∀ name, (ladderOf rounds[k].1).won name =
      ((reports (rounds.take (k + 1))).countP fun game => decide (game.wonBy name) : Nat) := by
    intro name
    unfold BasicLadder.won
    rw [hstats]
    exact (BasicLadder.won_afterGames _ _ name hcomplete').trans (Int.zero_add _)
  have hgames : ∀ name, (ladderOf rounds[k].1).games name =
      (((reports (rounds.take (k + 1))).map (Report.plays name)).sum : Nat) := by
    intro name
    unfold BasicLadder.games
    rw [hstats]
    exact (BasicLadder.games_afterGames _ _ name).trans (Int.zero_add _)
  rw [← Except.ok.inj hprinted, hshorter.spec_eq hactors]
  simp only [hwon, hgames]
  rfl

/-- After the only round the game of the two random actors has been reported, and three lines are
printed. -/
theorem session_prints_results_one_round :
    ∃ state lines, Session (fun _ => "") ⟨1, 1, 1⟩ twoActors [(state, lines)] (ladderOf state) ∧
      ((reports [(state, lines)]).length : Int) = 1 ∧ lines.length = 3 := by
  obtain ⟨state, lines, hsession, hserved⟩ := exists_session_one_round
  obtain ⟨_, hrounds⟩ := session_prints_results (fun _ => "") ⟨1, 1, 1⟩ (by decide)
    twoActors.ladderSpec (by decide) twoActors.rng _ _ hsession hserved
  obtain ⟨hlength, hlines⟩ := hrounds 0 Nat.zero_lt_one
  refine ⟨state, lines, hsession, hlength, ?_⟩
  rw [show lines = _ from hlines]
  rfl

/-- Once a session has printed statistics it can print them after every further round: `LogStats`
can fail in the first round only. -/
theorem session_keeps_printing (printFloat : Rat → String) (config : Config) (start : BasicLadder)
    (hactors : 2 ≤ start.ladderSpec.actorSpec.length)
    (rounds : List (State basicLadder × List String)) (ladder : BasicLadder)
    (h : Session printFloat config start rounds ladder) (hsome : rounds ≠ [])
    (state : State basicLadder) (hreach : Reachable (L := basicLadder) config ladder state) :
    ∃ lines, (ladderOf state).logStats printFloat = .ok lines := by
  have hspec := h.spec_eq hactors
  have hdrawn := hreach.drawn (by rwa [hspec])
  rw [BasicLadder.logStats_returns_iff, hdrawn.spec_eq]
  intro actor hactor
  rw [hdrawn.stats_eq, BasicLadder.mem_keys_afterGames]
  exact Or.inl (h.all_entries hsome actor hactor)

/-- After the round of the two random actors, every state of the next one prints. -/
theorem session_keeps_printing_one_round :
    ∃ state : State basicLadder, ∃ lines,
      (ladderOf (initial (L := basicLadder) (ladderOf state))).logStats (fun _ => "") =
        .ok lines := by
  obtain ⟨state, lines, hsession, _⟩ := exists_session_one_round
  exact ⟨state, session_keeps_printing (fun _ => "") ⟨1, 1, 1⟩ twoActors (by decide) _ _ hsession
    (List.cons_ne_nil _ _) _ Relation.ReflTransGen.refl⟩

end Supervisor

end Gomoku
