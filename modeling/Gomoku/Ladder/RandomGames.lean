import Gomoku.Ladder.Referee

/-!
# The games that random actors play

Two random actors can play every complete game: for each there are draws with which `PlayGame` records
it, in a worker as well as in self-play (`random_games_iff`). The draws of an actor are the positions
of its own moves, since `UniformlySampleLegalMove` returns the field at its offsets when that is empty.
-/

namespace Gomoku

open Execution Random PositionalGame

/-- The moves of the player who is to move. -/
def everyOther : List Vector2i → List Vector2i
  | [] => []
  | [move] => [move]
  | move :: _ :: later => move :: everyOther later

theorem everyOther_cons (move : Vector2i) (later : List Vector2i) :
    everyOther (move :: later) = move :: everyOther later.tail := by
  cases later <;> rfl

/-- The draws of both actors for a game: FIRST gets the seed 1. -/
def engineFor (moves : List Vector2i) (seed : Int) : Rng :=
  Board.draws (everyOther (if seed = 1 then moves else moves.tail)) ⟨fun _ => 0⟩

namespace Game

variable {build : Build} {engine : Int → Rng}
  {game next : Game (randomLegalActor build engine).toActor (randomLegalActor build engine).toActor}
  {move : Vector2i} {later : List Vector2i}

/-- The generators of both actors are about to deliver the moves. -/
def Draws (later : List Vector2i) (game : Game (randomLegalActor build engine).toActor
    (randomLegalActor build engine).toActor) : Prop :=
  match game.board.currentPlayer with
  | .first => RandomActorState.rng game.first = Board.draws (everyOther later) ⟨fun _ => 0⟩ ∧
      RandomActorState.rng game.second = Board.draws (everyOther later.tail) ⟨fun _ => 0⟩
  | _ => RandomActorState.rng game.second = Board.draws (everyOther later) ⟨fun _ => 0⟩ ∧
      RandomActorState.rng game.first = Board.draws (everyOther later.tail) ⟨fun _ => 0⟩

/-- A random actor whose draws are at an empty field chooses it. -/
theorem chooseMove_of_draws {state : RandomActorState} {rest : List Vector2i} {rng : Rng}
    (hdraws : state.rng = Board.draws (move :: rest) rng) (hmove : Board.Inside move)
    (hempty : state.board.owner move = .none) (signal : StopSignal) (metrics : Metrics) :
    (randomActor build engine).chooseMove state signal metrics =
      .ok (move, ⟨state.board, Board.draws rest rng⟩, metrics) := by
  show (state.board.uniformlySampleLegalMove build state.rng >>= _) = _
  rw [hdraws, Board.draws, List.foldr_cons, Board.uniformlySampleLegalMove_push build hmove hempty]
  rfl

/-- Observing a move leaves the generator alone. -/
theorem rng_of_observeMove {state state' : RandomActorState}
    (h : (randomActor build engine).observeMove state move = .ok state') :
    state'.rng = state.rng := by
  obtain ⟨board, _, h⟩ := bind_eq_ok.mp h
  rw [← Except.ok.inj h]

/-- A pass of the loop plays the next move. -/
theorem playMove_of_draws {stopSignal : Player → Nat → StopSignal} (h : game.Consistent)
    (hdraws : game.Draws (move :: later)) (hmove : Board.Inside move)
    (hnew : move ∉ game.recording) (hplay : game.playMove build stopSignal = .ok next) :
    next.move = move ∧ next.Draws later := by
  have hfirst : RandomActorState.board game.first = game.board := h.first_board
  have hsecond : RandomActorState.board game.second = game.board := h.second_board
  have hempty := (h.represents.owner_eq_none_iff move).mpr hnew
  have happly := h.represents.applyMove build hmove hnew
  have hplace := Board.place_currentPlayer game.board move
  unfold playMove at hplay
  obtain ⟨⟨chosen, after⟩, hchoose, hplay⟩ := bind_eq_ok.mp hplay
  obtain ⟨board, happlied, hplay⟩ := bind_eq_ok.mp hplay
  obtain ⟨first, hobserve, hplay⟩ := bind_eq_ok.mp hplay
  obtain ⟨second, hobserve', hplay⟩ := bind_eq_ok.mp hplay
  obtain rfl := Except.ok.inj hplay
  unfold Draws at hdraws
  rw [everyOther_cons, List.tail_cons] at hdraws
  cases hcurrent : game.board.currentPlayer with
  | none => exact absurd hcurrent h.represents.currentPlayer_ne_none
  | first =>
      rw [hcurrent] at hdraws hplace
      rw [← hfirst] at hempty
      have hchosen := @chooseMove_of_draws build engine move _ _ _ hdraws.1 hmove hempty
        (stopSignal .first game.recording.length) game.metrics.first
      unfold chooseMove at hchoose
      rw [hcurrent] at hchoose
      rw [show (randomLegalActor build engine).chooseMove game.first _ _ = _ from hchosen] at hchoose
      obtain ⟨rfl, rfl⟩ := Prod.mk.inj (Except.ok.inj hchoose)
      rw [show game.board.applyMove build move = _ from happly] at happlied
      obtain rfl := Except.ok.inj happlied
      refine ⟨rfl, ?_⟩
      unfold Draws
      rw [show (game.board.place move).currentPlayer = .second from hplace]
      exact ⟨(rng_of_observeMove hobserve').trans hdraws.2, rng_of_observeMove hobserve⟩
  | second =>
      rw [hcurrent] at hdraws hplace
      rw [← hsecond] at hempty
      have hchosen := @chooseMove_of_draws build engine move _ _ _ hdraws.1 hmove hempty
        (stopSignal .second game.recording.length) game.metrics.second
      unfold chooseMove at hchoose
      rw [hcurrent] at hchoose
      rw [show (randomLegalActor build engine).chooseMove game.second _ _ = _ from hchosen]
        at hchoose
      obtain ⟨rfl, rfl⟩ := Prod.mk.inj (Except.ok.inj hchoose)
      rw [show game.board.applyMove build move = _ from happly] at happlied
      obtain rfl := Except.ok.inj happlied
      refine ⟨rfl, ?_⟩
      unfold Draws
      rw [show (game.board.place move).currentPlayer = .first from hplace]
      exact ⟨(rng_of_observeMove hobserve).trans hdraws.2, rng_of_observeMove hobserve'⟩

/-- A game that goes on is not a complete one. -/
theorem Consistent.recording_ne {recording : Recording Rat} {board : Board}
    (hcomplete : CompleteGame build recording board) (h : game.Consistent)
    (hundecided : Board.Undecided game.recording)
    (hpossible : game.board.noMovePossible = false) : game.recording ≠ recording.move := by
  intro hsame
  have hboard : game.board = board := by
    have hreplay := hcomplete.replay
    rw [← hsame, h.replay] at hreplay
    exact Except.ok.inj hreplay
  rcases hcomplete.finished with hfive | hfull
  · rw [← hboard] at hfive
    exact absurd ((h.represents.fiveInRow_iff _ hfive.1).mp hfive) (hundecided _)
  · rw [← hboard, ← h.reachable.valid.noMovePossible_iff, hpossible] at hfull
    cases hfull

/-- A game between actors that are about to draw the moves of a complete game. -/
structure Follows (recording : Recording Rat) (game : Game (randomLegalActor build engine).toActor
    (randomLegalActor build engine).toActor) : Prop where
  draws : ∃ later, game.recording ++ later = recording.move ∧ game.Draws later

/-- It goes on with the next of its moves. -/
theorem Follows.playMove {recording : Recording Rat} {board : Board}
    {stopSignal : Player → Nat → StopSignal} (hcomplete : CompleteGame build recording board)
    (h : game.Consistent) (hundecided : Board.Undecided game.recording)
    (hpossible : game.board.noMovePossible = false) (hfollows : game.Follows recording)
    (hplay : game.playMove build stopSignal = .ok next) :
    next.Pending ∧ next.Follows recording := by
  obtain ⟨next', hplay', hnext, hrecording, _⟩ := h.playMove (h.exists_empty hpossible) stopSignal
  obtain rfl : next = next' := Except.ok.inj (hplay.symm.trans hplay')
  refine ⟨Consistent.pending hundecided hnext hrecording, ⟨?_⟩⟩
  obtain ⟨later, hsplit, hdraws⟩ := hfollows.draws
  cases later with
  | nil =>
      rw [List.append_nil] at hsplit
      exact absurd hsplit (Consistent.recording_ne hcomplete h hundecided hpossible)
  | cons move later =>
      have hlegal := hcomplete.legal
      rw [← hsplit] at hlegal
      have hnew : move ∉ game.recording := fun hold =>
        (List.nodup_append.mp hlegal.nodup).2.2 move hold move (by simp) rfl
      obtain ⟨hmove, hdraws⟩ :=
        playMove_of_draws h hdraws (hlegal.inside move (by simp)) hnew hplay
      refine ⟨later, ?_, hdraws⟩
      rw [hrecording, hmove, List.append_assoc]
      exact hsplit

/-- The loop plays a beginning of the moves. -/
theorem Follows.playout {recording : Recording Rat} {board : Board}
    {stopSignal : Player → Nat → StopSignal} {seeds : PlayerMap Int} {fuel : Nat}
    (hcomplete : CompleteGame build recording board) (hfuel : 20 ≤ fuel)
    (hfollows : (Game.start (randomLegalActor build engine).toActor
      (randomLegalActor build engine).toActor seeds).Follows recording)
    (hrun : (Game.start (randomLegalActor build engine).toActor
      (randomLegalActor build engine).toActor seeds).playout fuel build stopSignal = .ok next) :
    next.recording <+: recording.move := by
  have hstart := Game.start_consistent (randomLegalActor build engine)
    (randomLegalActor build engine) seeds
  have hall : next.Pending ∧ next.Follows recording := by
    refine (playout_preserves (fun current => current.Pending ∧ current.Follows recording) ?_ ?_
      hrun).1
    · intro first hplay
      exact hfollows.playMove hcomplete hstart Board.undecided_nil rfl hplay
    · intro current following hcurrent hmore hplay
      obtain ⟨more, htest, hiff⟩ := hcurrent.1.continues
      have htrue : more = true := Except.ok.inj ((htest fuel hfuel).symm.trans hmore)
      obtain ⟨hundecided, hpossible⟩ := hiff.mp htrue
      exact hcurrent.2.playMove hcomplete hcurrent.1.toConsistent hundecided hpossible hplay
  obtain ⟨later, hsplit, _⟩ := hall.2.draws
  exact ⟨later, hsplit⟩

end Game

/-- No complete game is the beginning of another one. -/
theorem CompleteGame.eq_of_begins {build : Build} {recording recording' : Recording Rat}
    {board board' : Board} (h : CompleteGame build recording board)
    (h' : CompleteGame build recording' board') (hbegin : recording.move <+: recording'.move) :
    recording = recording' := by
  obtain ⟨later, hlater⟩ := hbegin
  cases later with
  | nil =>
      rw [List.append_nil] at hlater
      have hboard : board = board' := by rw [h.board_eq, h'.board_eq, hlater]
      have hscore := h.score
      rw [hboard, ← h'.score] at hscore
      cases recording
      cases recording'
      simp_all
  | cons move later =>
      -- the longer game was undecided here, and its next field was empty
      exfalso
      have hlength : recording.move.length < recording'.move.length := by
        rw [← hlater, List.length_append, List.length_cons]
        omega
      obtain ⟨earlier, hreplay, hnone⟩ := h'.undecided _ hlength
      rw [← hlater, List.take_left, h.replay] at hreplay
      obtain rfl := Except.ok.inj hreplay
      rcases h.finished with hfive | hfull
      · exact hnone _ hfive
      · have hlegal := h'.legal
        rw [← hlater] at hlegal
        have hnew : move ∉ recording.move := fun hold =>
          (List.nodup_append.mp hlegal.nodup).2.2 move hold move (by simp) rfl
        have hrep := Board.represents_after h.legal
        rw [← h.board_eq] at hrep
        exact hfull move (hlegal.inside move (by simp)) ((hrep.owner_eq_none_iff move).mpr hnew)

/-- With the right draws a game of random actors is the given one. -/
theorem Game.recording_of_draws {build : Build} {recording : Recording Rat} {board : Board}
    (hcomplete : CompleteGame build recording board)
    {final : Game (randomLegalActor build (engineFor recording.move)).toActor
      (randomLegalActor build (engineFor recording.move)).toActor} {score : Rat}
    {stopSignal : Player → Nat → StopSignal}
    (hrun : Returns (fun fuel => (Game.start (randomLegalActor build
      (engineFor recording.move)).toActor (randomLegalActor build
      (engineFor recording.move)).toActor ⟨1, 2⟩).playout fuel build stopSignal) final)
    (hfinal : CompleteGame build ⟨final.recording, score⟩ final.board) :
    ⟨final.recording, score⟩ = recording := by
  obtain ⟨bound, hrun⟩ := hrun
  have hfollows : (Game.start (randomLegalActor build (engineFor recording.move)).toActor
      (randomLegalActor build (engineFor recording.move)).toActor ⟨1, 2⟩).Follows recording :=
    ⟨recording.move, rfl, rfl, rfl⟩
  exact hfinal.eq_of_begins hcomplete
    (hfollows.playout hcomplete (Nat.le_max_right bound 20) (hrun _ (Nat.le_max_left bound 20)))

/-- The requests for a game between two random actors. -/
def PlayGameRequest.ForRandomActors (request : PlayGameRequest) : Prop :=
  request.firstPlayer.type = "RandomActor" ∧ request.secondPlayer.type = "RandomActor"

/-- What two random actors can play is exactly what a complete game is: over all outcomes of the draws,
`WorkerImpl::PlayGame` and the `PlayGame` of self-play return the recordings of complete games and all
of them, whatever the stop signals and the time limit are. -/
theorem random_games_iff (build : Build) (searchFuel : Nat) (sampleSoftmax : SampleSoftmax)
    (newStopSignal : Nat → Nat → StopSignal) (request : PlayGameRequest)
    (hrequest : request.ForRandomActors) (makeStopSignal : PlayerMap (Nat → StopSignal))
    (recording : Recording Rat) :
    ((∃ seeds engine response, Returns (fun fuel => WorkerImpl.playGame fuel build
        ⟨seeds, newStopSignal⟩ (actorRegistry searchFuel build sampleSoftmax engine) request)
        response ∧ response.recording = recording) ↔
      ∃ board, CompleteGame build recording board) ∧
    ((∃ engine seeds, Returns (fun fuel => SelfPlay.playGame fuel build (randomActor build engine)
        (randomActor build engine) makeStopSignal seeds) recording) ↔
      ∃ board, CompleteGame build recording board) := by
  have hcreate : ∀ engine (spec : ActorSpec), spec.type = "RandomActor" →
      (actorRegistry searchFuel build sampleSoftmax engine).create spec.type spec.config =
        .ok (randomLegalActor build engine).toActor := by
    intro engine spec htype
    unfold ActorRegistry.create actorRegistry
    rw [htype]
    rfl
  refine ⟨⟨?_, ?_⟩, ⟨?_, ?_⟩⟩
  · rintro ⟨seeds, engine, response, ⟨bound, hreturns⟩, rfl⟩
    exact WorkerImpl.complete_of_registered (hreturns bound le_rfl)
  · rintro ⟨board, hcomplete⟩
    obtain ⟨final, response, hrun, hreturns, hmoves, hfinal⟩ := WorkerImpl.playGame_complete
      (randomLegalActor build (engineFor recording.move))
      (randomLegalActor build (engineFor recording.move)) ⟨fun _ => ⟨fun n => n + 1⟩, newStopSignal⟩
      (actorRegistry searchFuel build sampleSoftmax (engineFor recording.move)) request
      (hcreate _ _ hrequest.1) (hcreate _ _ hrequest.2)
    obtain ⟨⟨moves, score⟩, metrics⟩ := response
    obtain rfl : moves = final.recording := hmoves
    have hseeds : WorkerImpl.startGame ⟨fun _ => ⟨fun n => n + 1⟩, newStopSignal⟩ request
        (randomLegalActor build (engineFor recording.move)).toActor
        (randomLegalActor build (engineFor recording.move)).toActor =
          Game.start _ _ ⟨1, 2⟩ := by
      have hone : seedOf 1 = 1 := by decide
      have htwo : seedOf 2 = 2 := by decide
      show Game.start _ _ ⟨seedOf 1, seedOf 2⟩ = _
      rw [hone, htwo]
    rw [hseeds] at hrun
    exact ⟨_, _, _, hreturns, Game.recording_of_draws hcomplete hrun hfinal⟩
  · rintro ⟨engine, seeds, hreturns⟩
    obtain ⟨final, recording', _, hreturns', _, hfinal⟩ := SelfPlay.playGame_complete
      (randomLegalActor build engine) (randomLegalActor build engine) makeStopSignal seeds
    obtain rfl := hreturns.unique hreturns'
    exact ⟨final.board, hfinal⟩
  · rintro ⟨board, hcomplete⟩
    obtain ⟨final, recording', hrun, hreturns, hmoves, hfinal⟩ := SelfPlay.playGame_complete
      (randomLegalActor build (engineFor recording.move))
      (randomLegalActor build (engineFor recording.move)) makeStopSignal ⟨1, 2⟩
    obtain ⟨moves, score⟩ := recording'
    obtain rfl : moves = final.recording := hmoves
    rw [Game.recording_of_draws hcomplete hrun hfinal] at hreturns
    exact ⟨engineFor recording.move, ⟨1, 2⟩, hreturns⟩

/-- A game that self-play records is also played by two random actors of a worker. -/
theorem random_games_iff_two_actors :
    ∃ recording : Recording Rat, (∃ board, CompleteGame .debug recording board) ∧
      ∃ seeds engine response, Returns (fun fuel => WorkerImpl.playGame fuel .debug
        ⟨seeds, fun _ _ _ => true⟩
        (actorRegistry 0 .debug (fun _ _ _ rng => (⟨0, 0⟩, rng)) engine)
        ⟨⟨"a", "RandomActor", ⟨[]⟩⟩, ⟨"b", "RandomActor", ⟨[]⟩⟩, 100, 1⟩) response ∧
        response.recording = recording := by
  obtain ⟨final, recording, _, _, _, hcomplete⟩ := SelfPlay.playGame_complete
    (randomLegalActor .debug fun _ => ⟨fun _ => 0⟩) (randomLegalActor .debug fun _ => ⟨fun _ => 0⟩)
    ⟨fun _ _ => true, fun _ _ => true⟩ ⟨1, 2⟩
  exact ⟨recording, ⟨final.board, hcomplete⟩,
    (random_games_iff .debug 0 _ (fun _ _ _ => true) _ ⟨rfl, rfl⟩
      ⟨fun _ _ => true, fun _ _ => true⟩ recording).1.mpr ⟨final.board, hcomplete⟩⟩

end Gomoku
