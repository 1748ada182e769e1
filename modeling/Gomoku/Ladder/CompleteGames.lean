import Gomoku.Actors.RandomActor
import Gomoku.Core.DidWin
import Gomoku.Ladder.Worker

/-!
# Games between legal actors are complete

Between two legal actors the referee's board and both private boards stay equal, so no move
faults, and the loop runs until the first five in a row or a full board. The loop invariant is
`Game.Consistent`, together with `Game.Pending` at the condition of the loop;
`playout_total` is the run, and `playGame_plays_complete_games` what both versions of
`PlayGame` return.
-/

namespace Gomoku

open Execution Random PositionalGame

/-- A recording of a complete game: distinct moves on fields, of which no proper prefix contains
five in a row, while all of them make five in a row for the player who moved last or fill the
board, with the score of FIRST. -/
structure CompleteGame (build : Build) (recording : Recording Rat) (board : Board) : Prop where
  replay : Board.replay build recording.move = .ok board
  inside : ∀ move ∈ recording.move, Board.Inside move
  distinct : recording.move.Nodup
  nine_le : 9 ≤ recording.move.length
  le_fields : recording.move.length ≤ 361
  undecided : ∀ k < recording.move.length, ∃ earlier,
    Board.replay build (recording.move.take k) = .ok earlier ∧
      ∀ player, ¬ earlier.FiveInRow player
  finished : board.FiveInRow (turn (recording.move.length - 1)) ∨
    ∀ position, Board.Inside position → board.owner position ≠ .none
  score : recording.score = if board.FiveInRow .first then 1 else 0

namespace CompleteGame

variable {build : Build} {recording : Recording Rat} {board : Board}

theorem legal (h : CompleteGame build recording board) : Legal recording.move :=
  ⟨h.inside, h.distinct⟩

/-- The board is the one after the recorded moves. -/
theorem board_eq (h : CompleteGame build recording board) :
    board = Board.after recording.move :=
  Board.eq_after_of_replay h.legal h.replay

/-- Only the player who moved last has five in a row. -/
theorem winner_eq (h : CompleteGame build recording board) {player : Player}
    (hfive : board.FiveInRow player) : turn (recording.move.length - 1) = player := by
  have hlength := h.nine_le
  obtain ⟨earlier, hreplay, hnone⟩ := h.undecided (recording.move.length - 1) (by omega)
  have hrep := Board.represents_after (h.legal.take (recording.move.length - 1))
  obtain rfl := Board.eq_after_of_replay (h.legal.take _) hreplay
  have hsplit : recording.move = recording.move.take (recording.move.length - 1) ++
      [recording.move[recording.move.length - 1]] := by
    rw [List.take_append_getElem, List.take_of_length_le (by omega)]
  have hcompleted : Completed turn fives recording.move player := by
    have hfinal := Board.represents_after h.legal
    rw [← h.board_eq] at hfinal
    exact (hfinal.fiveInRow_iff player hfive.1).mp hfive
  rw [hsplit] at hcompleted
  obtain ⟨hturn, _⟩ := hcompleted.through_last
    fun hbefore => hnone player ((hrep.fiveInRow_iff player hfive.1).mpr hbefore)
  rw [List.length_take_of_le (by omega)] at hturn
  exact hturn

/-- Nine legal moves with which FIRST makes five in a row are a complete game with score 1. -/
theorem of_nine_moves {moves : List Vector2i} (hlegal : Legal moves) (hlength : moves.length = 9)
    (hfive : (Board.after moves).FiveInRow .first) (build : Build) :
    CompleteGame build ⟨moves, 1⟩ (Board.after moves) := by
  refine ⟨(Board.replay_eq_after build hlegal).1, hlegal.inside, hlegal.nodup, hlength.ge, ?_, ?_,
    Or.inl ?_, (if_pos hfive).symm⟩
  · show moves.length ≤ 361
    omega
  · intro k hk
    have hshort : (moves.take k).length < 9 := by
      rw [List.length_take, ← hlength]
      exact lt_of_le_of_lt (Nat.min_le_left _ _) hk
    exact (Board.undecided_of_length_lt hshort).replay (hlegal.take k) build
  · rw [hlength]
    exact hfive

/-- Legal moves that fill the board without five in a row are a complete game with score 0. -/
theorem of_undecided {moves : List Vector2i} (hlegal : Legal moves)
    (hlength : moves.length = 361) (hundecided : Board.Undecided moves) (build : Build) :
    CompleteGame build ⟨moves, 0⟩ (Board.after moves) := by
  have hrep := Board.represents_after hlegal
  have hnone := hrep.undecided_iff.mp hundecided
  refine ⟨(Board.replay_eq_after build hlegal).1, hlegal.inside, hlegal.nodup, ?_, ?_, ?_, ?_, ?_⟩
  · show 9 ≤ moves.length
    omega
  · show moves.length ≤ 361
    omega
  · intro k hk
    exact (hundecided.take k).replay (hlegal.take k) build
  · exact Or.inr ((Board.full_after_iff hlegal).mpr hlength)
  · rw [if_neg (hnone .first)]

end CompleteGame

namespace Game

variable {build : Build} {A B : LegalActor build} {game next : Game A.toActor B.toActor}
  {stopSignal : Player → Nat → StopSignal} {fuel : Nat}

/-- The referee and the actors agree on the position, and the recording is how it came about. -/
structure Consistent (game : Game A.toActor B.toActor) : Prop where
  legal : Legal game.recording
  replay : Board.replay build game.recording = .ok game.board
  represents : game.board.Represents game.recording
  reachable : game.board.Reachable build
  first_board : A.board game.first = game.board
  second_board : B.board game.second = game.board

/-- The state at the condition of the loop: the last move was made in an undecided game. -/
structure Pending (game : Game A.toActor B.toActor) : Prop extends game.Consistent where
  before : ∃ earlier, game.recording = earlier ++ [game.move] ∧ Board.Undecided earlier

/-- The actors start from the starting board. -/
theorem start_consistent (A B : LegalActor build) (seeds : PlayerMap Int) :
    (start A.toActor B.toActor seeds).Consistent where
  legal := Legal.nil
  replay := rfl
  represents := Board.Represents.new
  reachable := Relation.ReflTransGen.refl
  first_board := A.board_gameStarted _ _ _
  second_board := B.board_gameStarted _ _ _

/-- While some field is empty the actor to move chooses one, and nothing but its own state and
metrics changes. -/
theorem Consistent.chooseMove (h : game.Consistent)
    (hempty : ∃ position, Board.Inside position ∧ game.board.owner position = .none)
    (signal : StopSignal) :
    ∃ move next, game.chooseMove signal = .ok (move, next) ∧ next.Consistent ∧
      Board.Inside move ∧ move ∉ game.recording ∧ next.recording = game.recording := by
  have hplayer := h.represents.currentPlayer_ne_none
  cases hcurrent : game.board.currentPlayer with
  | none => exact absurd hcurrent hplayer
  | first =>
      obtain ⟨move, first, metrics, hchoose, hmove, howner, hboard⟩ :=
        A.chooseMove_legal game.first signal game.metrics.first
          (by rw [h.first_board]; exact h.reachable) (by rw [h.first_board]; exact hempty)
      rw [h.first_board] at howner hboard
      refine ⟨move, { game with first, metrics := ⟨metrics, game.metrics.second⟩ }, ?_,
        { h with first_board := hboard }, hmove, ?_, rfl⟩
      · simp only [Game.chooseMove, hcurrent, hchoose, ok_bind, pure_eq_ok]
      · exact (h.represents.owner_eq_none_iff move).mp howner
  | second =>
      obtain ⟨move, second, metrics, hchoose, hmove, howner, hboard⟩ :=
        B.chooseMove_legal game.second signal game.metrics.second
          (by rw [h.second_board]; exact h.reachable) (by rw [h.second_board]; exact hempty)
      rw [h.second_board] at howner hboard
      refine ⟨move, { game with second, metrics := ⟨game.metrics.first, metrics⟩ }, ?_,
        { h with second_board := hboard }, hmove, ?_, rfl⟩
      · simp only [Game.chooseMove, hcurrent, hchoose, ok_bind, pure_eq_ok]
      · exact (h.represents.owner_eq_none_iff move).mp howner

/-- One pass of the loop appends the chosen move to a consistent game and keeps it consistent. -/
theorem Consistent.playMove (h : game.Consistent)
    (hempty : ∃ position, Board.Inside position ∧ game.board.owner position = .none)
    (stopSignal : Player → Nat → StopSignal) :
    ∃ next, game.playMove build stopSignal = .ok next ∧ next.Consistent ∧
      next.recording = game.recording ++ [next.move] ∧
      ∃ chosen, game.chooseMove (stopSignal game.board.currentPlayer game.recording.length) =
        .ok (next.move, chosen) := by
  obtain ⟨move, chosen, hchoose, hchosen, hmove, hnew, hrecording⟩ := h.chooseMove hempty
    (stopSignal game.board.currentPlayer game.recording.length)
  rw [← hrecording] at hnew
  have happly := hchosen.represents.applyMove build hmove hnew
  have hfirst := happly
  have hsecond := happly
  rw [← hchosen.first_board] at hfirst
  rw [← hchosen.second_board] at hsecond
  obtain ⟨first, hobserve, hfirst⟩ := LegalActor.observeMove_of_applyMove hfirst
  obtain ⟨second, hobserve', hsecond⟩ := LegalActor.observeMove_of_applyMove hsecond
  refine ⟨{ chosen with
    board := chosen.board.place move
    move := move
    first := first
    second := second
    recording := chosen.recording ++ [move] }, ?_, ?_, ?_, chosen, hchoose⟩
  · simp only [Game.playMove, hchoose, ok_bind, happly, hobserve, hobserve', pure_eq_ok]
  · exact {
      legal := legal_append_iff.mpr ⟨hchosen.legal, hmove, hnew⟩
      replay := by rw [Board.replay_append, hchosen.replay, ok_bind, happly]
      represents := hchosen.represents.place hmove hnew
      reachable := hchosen.reachable.place hmove
        ((hchosen.represents.owner_eq_none_iff move).mpr hnew)
      first_board := by rw [hfirst, hchosen.first_board]
      second_board := by rw [hsecond, hchosen.second_board] }
  · rw [hrecording]

/-- A field is empty as long as the counter says that a move is possible. -/
theorem Consistent.exists_empty (h : game.Consistent)
    (hpossible : game.board.noMovePossible = false) :
    ∃ position, Board.Inside position ∧ game.board.owner position = .none := by
  by_contra hnone
  push Not at hnone
  have hfull := h.reachable.valid.noMovePossible_iff.mpr hnone
  rw [hpossible] at hfull
  cases hfull

/-- A game has at most as many moves as the board has fields, and all of them exactly when no
move is possible. -/
theorem Consistent.length_le (h : game.Consistent) :
    game.recording.length ≤ 361 ∧
      (game.board.noMovePossible = true ↔ game.recording.length = 361) := by
  have hbound := h.reachable.valid.movesMade_le
  have hmoves := h.represents.movesMade_eq
  refine ⟨by omega, ?_⟩
  simp only [Board.noMovePossible, kWidth, kHeight, beq_iff_eq, hmoves]
  omega

/-- At the condition of the loop, `DidWin` decides whether the game is decided. -/
theorem Pending.didWin (h : game.Pending) :
    ∃ won, (∀ fuel, 20 ≤ fuel → game.board.didWin fuel build game.move = .ok won) ∧
      (won = true ↔ ∃ player, Completed turn fives game.recording player) := by
  obtain ⟨earlier, hrecording, hbefore⟩ := h.before
  have hrep := h.represents
  have hlegal := h.legal
  rw [hrecording] at hrep hlegal ⊢
  exact hrep.didWin hlegal hbefore build

/-- The loop goes on exactly while the game is undecided and a move is possible. -/
theorem Pending.continues (h : game.Pending) :
    ∃ more, (∀ fuel, 20 ≤ fuel → game.continues fuel build = .ok more) ∧
      (more = true ↔
        Board.Undecided game.recording ∧ game.board.noMovePossible = false) := by
  obtain ⟨won, hrun, hwon⟩ := h.didWin
  refine ⟨!won && !game.board.noMovePossible, fun fuel hfuel => ?_, ?_⟩
  · simp only [Game.continues, hrun fuel hfuel, ok_bind]
    cases won <;> rfl
  · simp [Board.eq_false_iff_undecided hwon]

/-- A pass of the loop from an undecided game ends at the condition of the loop. -/
theorem Consistent.pending (hundecided : Board.Undecided game.recording)
    (hnext : next.Consistent) (hrecording : next.recording = game.recording ++ [next.move]) :
    next.Pending :=
  { hnext with before := ⟨game.recording, hrecording, hundecided⟩ }

/-- A pass of the loop that goes on records one more move and ends at the condition of the loop. -/
theorem Pending.playMove (h : game.Pending)
    (hgoing : Board.Undecided game.recording ∧ game.board.noMovePossible = false)
    (stopSignal : Player → Nat → StopSignal) :
    ∃ next, game.playMove build stopSignal = .ok next ∧ next.Pending ∧
      361 - next.recording.length < 361 - game.recording.length := by
  obtain ⟨hundecided, hpossible⟩ := hgoing
  obtain ⟨next, hplay, hnext, hrecording, _⟩ :=
    h.toConsistent.playMove (h.exists_empty hpossible) stopSignal
  refine ⟨next, hplay, Consistent.pending hundecided hnext hrecording, ?_⟩
  -- the board was not full, so the recording could still grow
  have hroom := h.length_le
  rw [hrecording, List.length_append, List.length_singleton]
  simp only [hpossible, Bool.false_eq_true, false_iff] at hroom
  omega

/-- The first move leads to the condition of the loop. -/
theorem playMove_start (A B : LegalActor build) (seeds : PlayerMap Int)
    (stopSignal : Player → Nat → StopSignal) :
    ∃ next, (start A.toActor B.toActor seeds).playMove build stopSignal = .ok next ∧
      next.Pending ∧ next.recording.length = 1 := by
  have hstart := start_consistent A B seeds
  obtain ⟨next, hplay, hnext, hrecording, _⟩ :=
    hstart.playMove (hstart.exists_empty rfl) stopSignal
  refine ⟨next, hplay, Consistent.pending Board.undecided_nil hnext hrecording, ?_⟩
  rw [hrecording]
  rfl

/-- The loop ends, for every fuel from 362 on, in one game at the condition of the loop that is
decided or has no move left. -/
theorem playout_total (A B : LegalActor build) (seeds : PlayerMap Int)
    (stopSignal : Player → Nat → StopSignal) :
    ∃ final, (∀ fuel, 362 ≤ fuel →
        (start A.toActor B.toActor seeds).playout fuel build stopSignal = .ok final) ∧
      final.Pending ∧
      ¬ (Board.Undecided final.recording ∧ final.board.noMovePossible = false) := by
  obtain ⟨first, hplay, hpending, hlength⟩ := playMove_start A B seeds stopSignal
  obtain ⟨final, hrun, hfinal, hstop⟩ := whileLoop_total
    (fun fuel game => game.continues fuel build)
    (fun _ game => game.playMove build stopSignal) 20
    (fun game : Game A.toActor B.toActor => game.Pending)
    (fun game => Board.Undecided game.recording ∧ game.board.noMovePossible = false)
    (fun game => 361 - game.recording.length)
    (fun game hgame => hgame.continues)
    (by
      intro game hgame hgoing
      obtain ⟨next, hplay, hnext, hlt⟩ := hgame.playMove hgoing stopSignal
      exact ⟨next, fun _ _ => hplay, hnext, hlt⟩)
    hpending
  refine ⟨final, fun fuel hfuel => ?_, hfinal, hstop⟩
  simp only [playout, hplay, ok_bind]
  exact hrun fuel fuel (by omega) (by omega)

/-- Whenever the referee asks for a move, the game is consistent. -/
theorem Asks.consistent {seeds : PlayerMap Int} (hfuel : 20 ≤ fuel)
    (h : Asks fuel build stopSignal (start A.toActor B.toActor seeds) game) :
    game.Consistent ∧ Board.Undecided game.recording ∧ game.board.noMovePossible = false := by
  induction h with
  | first => exact ⟨start_consistent A B seeds, Board.undecided_nil, rfl⟩
  | again current next _ hplay hmore ih =>
      obtain ⟨hcurrent, hundecided, hpossible⟩ := ih
      obtain ⟨next', hplay', hnext, hrecording, _⟩ :=
        hcurrent.playMove (hcurrent.exists_empty hpossible) stopSignal
      obtain rfl : next = next' := Except.ok.inj (hplay.symm.trans hplay')
      obtain ⟨more, hrun, hiff⟩ := (Consistent.pending hundecided hnext hrecording).continues
      have htrue : more = true := Except.ok.inj ((hrun fuel hfuel).symm.trans hmore)
      exact ⟨hnext, hiff.mp htrue⟩

/-! ## The final position -/

/-- Only the player who moved last can have completed a winning set. -/
theorem Pending.winner_eq (h : game.Pending) {player : Player}
    (hcompleted : Completed turn fives game.recording player) :
    turn (game.recording.length - 1) = player := by
  obtain ⟨earlier, hrecording, hbefore⟩ := h.before
  rw [hrecording] at hcompleted ⊢
  obtain ⟨hturn, _⟩ := hcompleted.through_last (hbefore player)
  simpa using hturn

/-- The player to move is the opponent of the player who moved last. -/
theorem Pending.opponent_eq (h : game.Pending) :
    game.board.currentPlayer.opponent = turn (game.recording.length - 1) := by
  obtain ⟨earlier, hrecording, _⟩ := h.before
  rw [h.represents.currentPlayer_eq, hrecording, List.length_append, List.length_singleton,
    turn_succ, Player.opponent_opponent, Nat.add_sub_cancel]

/-- The score is 1 exactly when FIRST has five in a row. -/
theorem Pending.score (h : game.Pending) :
    ∀ fuel, 20 ≤ fuel →
      game.score fuel build = .ok (if game.board.FiveInRow .first then 1 else 0) := by
  intro fuel hfuel
  obtain ⟨won, hrun, hwon⟩ := h.didWin
  have hfirst := h.represents.fiveInRow_iff .first (by simp)
  simp only [Game.score, hrun fuel hfuel, ok_bind]
  cases won with
  | false =>
      have hnot : ¬ game.board.FiveInRow .first := by
        rw [hfirst]
        intro hcompleted
        have htrue := hwon.mpr ⟨_, hcompleted⟩
        cases htrue
      simp [hnot]
  | true =>
      obtain ⟨player, hcompleted⟩ := hwon.mp rfl
      have hplayer := h.winner_eq hcompleted
      rw [if_pos rfl, kOpponent_get h.represents.currentPlayer_ne_none, ok_bind, h.opponent_eq,
        hplayer]
      have hiff : game.board.FiveInRow .first ↔ player = .first := by
        rw [hfirst]
        constructor
        · intro hfive
          exact hplayer.symm.trans (h.winner_eq hfive)
        · intro heq
          exact heq ▸ hcompleted
      cases player with
      | none => exact absurd rfl (Board.Completed.ne_none hcompleted)
      | first => simp [hiff, PlayerMap.get]
      | second => simp [hiff, PlayerMap.get]

/-- The recording of a finished game is that of a complete game. -/
theorem Pending.complete (h : game.Pending)
    (hfinished : ¬ (Board.Undecided game.recording ∧ game.board.noMovePossible = false)) :
    CompleteGame build ⟨game.recording, if game.board.FiveInRow .first then 1 else 0⟩
      game.board := by
  obtain ⟨earlier, hrecording, hbefore⟩ := h.before
  have hlength := h.length_le
  have hdecided : (∃ player, Completed turn fives game.recording player) ∨
      game.board.noMovePossible = true := by
    by_contra hnone
    rw [not_or, not_exists, Bool.not_eq_true] at hnone
    exact hfinished hnone
  refine ⟨h.replay, h.legal.inside, h.legal.nodup, ?_, hlength.1, ?_, ?_, rfl⟩
  · rcases hdecided with hwon | hfull
    · obtain ⟨player, hcompleted⟩ := hwon
      exact Board.nine_le_length hcompleted
    · have hall := hlength.2.mp hfull
      show 9 ≤ game.recording.length
      omega
  · intro k hk
    -- a proper prefix ends before the last move, when the game was undecided
    have hearlier : game.recording.take k = earlier.take k := by
      simp only [hrecording, List.length_append, List.length_singleton] at hk
      rw [hrecording, List.take_append_of_le_length (by omega)]
    have hundecided := hbefore.take k
    rw [← hearlier] at hundecided
    exact hundecided.replay (h.legal.take k) build
  · rcases hdecided with hwon | hfull
    · obtain ⟨player, hcompleted⟩ := hwon
      left
      show game.board.FiveInRow (turn (game.recording.length - 1))
      rw [h.winner_eq hcompleted]
      exact (h.represents.fiveInRow_iff _ (Board.Completed.ne_none hcompleted)).mpr hcompleted
    · exact Or.inr (h.reachable.valid.noMovePossible_iff.mp hfull)

end Game

/-! ## Both versions of `PlayGame` -/

section PlayGame

variable {build : Build} (A B : LegalActor build)

/-- For a request whose actors are legal, the loop of `WorkerImpl::PlayGame` ends, and the
response records the complete game that was played on the referee's board. -/
theorem WorkerImpl.playGame_complete (host : Host) (registry : ActorRegistry)
    (request : PlayGameRequest)
    (hfirst : registry.create request.firstPlayer.type request.firstPlayer.config = .ok A.toActor)
    (hsecond : registry.create request.secondPlayer.type request.secondPlayer.config =
      .ok B.toActor) :
    ∃ final response,
      Returns (fun fuel => (WorkerImpl.startGame host request A.toActor B.toActor).playout fuel
        build (WorkerImpl.stopSignal host request)) final ∧
      Returns (fun fuel => WorkerImpl.playGame fuel build host registry request) response ∧
      response.recording.move = final.recording ∧
      CompleteGame build response.recording final.board := by
  obtain ⟨final, hrun, hpending, hfinished⟩ := Game.playout_total A B
    ⟨seedOf ((host.engine request.seed).draw 0), seedOf ((host.engine request.seed).tail.draw 0)⟩
    (WorkerImpl.stopSignal host request)
  refine ⟨final, ⟨⟨final.recording, if final.board.FiveInRow .first then 1 else 0⟩,
      [.group request.firstPlayer.name final.metrics.first,
        .group request.secondPlayer.name final.metrics.second]⟩,
    ⟨362, hrun⟩, ⟨362, fun fuel hfuel => ?_⟩, rfl, hpending.complete hfinished⟩
  simp only [WorkerImpl.playGame, hfirst, hsecond, WorkerImpl.startGame, hrun fuel hfuel,
    ok_bind, hpending.score fuel (by omega), pure_eq_ok]

/-- The loop of the `PlayGame` of self-play ends, and the recording is that of the complete game
played on the referee's board. -/
theorem SelfPlay.playGame_complete (makeStopSignal : PlayerMap (Nat → StopSignal))
    (seeds : PlayerMap Int) :
    ∃ final recording,
      Returns (fun fuel => (Game.start A.toActor B.toActor seeds).playout fuel build
        (SelfPlay.stopSignal makeStopSignal)) final ∧
      Returns (fun fuel => SelfPlay.playGame fuel build A.toActor B.toActor makeStopSignal seeds)
        recording ∧
      recording.move = final.recording ∧ CompleteGame build recording final.board := by
  obtain ⟨final, hrun, hpending, hfinished⟩ :=
    Game.playout_total A B seeds (SelfPlay.stopSignal makeStopSignal)
  refine ⟨final, ⟨final.recording, if final.board.FiveInRow .first then 1 else 0⟩, ⟨362, hrun⟩,
    ⟨362, fun fuel hfuel => ?_⟩, rfl, hpending.complete hfinished⟩
  simp only [SelfPlay.playGame, hrun fuel hfuel, ok_bind, hpending.score fuel (by omega),
    pure_eq_ok]

/-- Between legal actors, `WorkerImpl::PlayGame` and the `PlayGame` of self-play terminate without
a fault and record the complete game that was played on the referee's board. At every call of
`ChooseMove` both private boards equal the referee's board, and the moves recorded so far are
the ones that led to it. -/
theorem playGame_plays_complete_games (host : Host) (registry : ActorRegistry)
    (request : PlayGameRequest)
    (hfirst : registry.create request.firstPlayer.type request.firstPlayer.config = .ok A.toActor)
    (hsecond : registry.create request.secondPlayer.type request.secondPlayer.config =
      .ok B.toActor)
    (makeStopSignal : PlayerMap (Nat → StopSignal)) (seeds : PlayerMap Int) :
    (∃ final response,
      Returns (fun fuel => (WorkerImpl.startGame host request A.toActor B.toActor).playout fuel
        build (WorkerImpl.stopSignal host request)) final ∧
      Returns (fun fuel => WorkerImpl.playGame fuel build host registry request) response ∧
      response.recording.move = final.recording ∧
      CompleteGame build response.recording final.board) ∧
    (∃ final recording,
      Returns (fun fuel => (Game.start A.toActor B.toActor seeds).playout fuel build
        (SelfPlay.stopSignal makeStopSignal)) final ∧
      Returns (fun fuel => SelfPlay.playGame fuel build A.toActor B.toActor makeStopSignal seeds)
        recording ∧
      recording.move = final.recording ∧ CompleteGame build recording final.board) ∧
    (∀ stopSignal seeds, ∃ bound, ∀ fuel, bound ≤ fuel → ∀ game : Game A.toActor B.toActor,
      Game.Asks fuel build stopSignal (Game.start A.toActor B.toActor seeds) game →
        A.board game.first = game.board ∧ B.board game.second = game.board ∧
          Board.replay build game.recording = .ok game.board) := by
  refine ⟨WorkerImpl.playGame_complete A B host registry request hfirst hsecond,
    SelfPlay.playGame_complete A B makeStopSignal seeds, ?_⟩
  intro stopSignal seeds
  refine ⟨20, fun fuel hfuel game hasks => ?_⟩
  obtain ⟨hconsistent, _⟩ := hasks.consistent hfuel
  exact ⟨hconsistent.first_board, hconsistent.second_board, hconsistent.replay⟩

end PlayGame

/-- Two random actors, created by a registry that knows one type, with engines that only deliver
zeros. -/
theorem playGame_plays_complete_games_random :
    ∃ recording board,
      Returns (fun fuel => SelfPlay.playGame fuel .debug (randomActor .debug fun _ => ⟨fun _ => 0⟩)
        (randomActor .debug fun _ => ⟨fun _ => 0⟩) ⟨fun _ _ => true, fun _ _ => true⟩ ⟨1, 2⟩)
        recording ∧ CompleteGame .debug recording board := by
  obtain ⟨_, ⟨final, recording, _, hreturns, _, hcomplete⟩, _⟩ := playGame_plays_complete_games
    (randomLegalActor .debug fun _ => ⟨fun _ => 0⟩) (randomLegalActor .debug fun _ => ⟨fun _ => 0⟩)
    ⟨fun _ => ⟨fun _ => 0⟩, fun _ _ _ => true⟩
    (fun type => if type = "RandomActor" then
      some fun _ => .ok (randomActor .debug fun _ => ⟨fun _ => 0⟩) else none)
    ⟨⟨"a", "RandomActor", ⟨[]⟩⟩, ⟨"b", "RandomActor", ⟨[]⟩⟩, 100, 1⟩ rfl rfl
    ⟨fun _ _ => true, fun _ _ => true⟩ ⟨1, 2⟩
  exact ⟨recording, final.board, hreturns, hcomplete⟩

end Gomoku
