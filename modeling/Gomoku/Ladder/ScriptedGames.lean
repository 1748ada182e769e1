import Gomoku.Ladder.CompleteGames

/-!
# Every complete game is played by some actors

`CompleteGame` says what `PlayGame` records for legal actors. Nothing more can be said:
two actors that follow the moves of a complete game, `scriptedActor`, make `PlayGame` record
it (`produced_iff`).
-/

namespace Gomoku

open Execution PositionalGame

/-- The recordings that one of the versions of `PlayGame` returns for legal actors. -/
inductive Produced (build : Build) : Recording Rat → Prop where
  | worker (A B : LegalActor build) (host : Host) (registry : ActorRegistry)
      (request : PlayGameRequest) (response : PlayGameResponse) :
      registry.create request.firstPlayer.type request.firstPlayer.config = .ok A.toActor →
      registry.create request.secondPlayer.type request.secondPlayer.config = .ok B.toActor →
      Returns (fun fuel => WorkerImpl.playGame fuel build host registry request) response →
      Produced build response.recording
  | selfPlay (A B : LegalActor build) (makeStopSignal : PlayerMap (Nat → StopSignal))
      (seeds : PlayerMap Int) (recording : Recording Rat) :
      Returns (fun fuel => SelfPlay.playGame fuel build A.toActor B.toActor makeStopSignal seeds)
        recording →
      Produced build recording

variable {build : Build} {recording : Recording Rat} {board : Board} {script : List Vector2i}

/-- What `PlayGame` produces is a complete game. -/
theorem Produced.complete (h : Produced build recording) :
    ∃ board, CompleteGame build recording board := by
  cases h with
  | worker A B host registry request response hfirst hsecond hreturns =>
      obtain ⟨final, response', _, hreturns', _, hcomplete⟩ :=
        WorkerImpl.playGame_complete A B host registry request hfirst hsecond
      obtain rfl := hreturns.unique hreturns'
      exact ⟨final.board, hcomplete⟩
  | selfPlay A B makeStopSignal seeds _ hreturns =>
      obtain ⟨final, recording', _, hreturns', _, hcomplete⟩ :=
        SelfPlay.playGame_complete A B makeStopSignal seeds
      obtain rfl := hreturns.unique hreturns'
      exact ⟨final.board, hcomplete⟩

/-! ## Actors that follow a script -/

/-- The first empty field of a script, or of the board when the script has none left. -/
def firstEmpty (script : List Vector2i) (board : Board) : Vector2i :=
  ((script ++ Board.scan 0 0).find? fun move =>
    Board.inside move && board.owner move == .none).getD ⟨0, 0⟩

/-- As long as some field is empty, the first empty field is one. -/
theorem firstEmpty_legal (script : List Vector2i)
    (hempty : ∃ position, Board.Inside position ∧ board.owner position = .none) :
    Board.Inside (firstEmpty script board) ∧
      board.owner (firstEmpty script board) = .none := by
  obtain ⟨position, hposition, howner⟩ := hempty
  cases hfound : (script ++ Board.scan 0 0).find? fun move =>
      Board.inside move && board.owner move == .none with
  | none =>
      rw [List.find?_eq_none] at hfound
      have hnot := hfound position (by simp [Board.mem_scan_iff.mpr hposition])
      simp [hposition, howner] at hnot
  | some move =>
      have hmove := List.find?_some hfound
      rw [firstEmpty, hfound, Option.getD_some]
      simpa using hmove

/-- After a part of the script the first empty field is the next move. -/
theorem firstEmpty_next {earlier later : List Vector2i} {move : Vector2i}
    (hlegal : Legal script) (hsplit : earlier ++ move :: later = script)
    (hrep : board.Represents earlier) : firstEmpty script board = move := by
  subst hsplit
  have hmove : Board.Inside move := hlegal.inside move (by simp)
  have hnew : move ∉ earlier := by
    intro hold
    exact (List.nodup_append.mp hlegal.nodup).2.2 move hold move (by simp) rfl
  have hearlier : earlier.find? (fun move =>
      Board.inside move && board.owner move == .none) = none := by
    rw [List.find?_eq_none]
    intro other hother
    have howner : board.owner other ≠ .none :=
      fun h => (hrep.owner_eq_none_iff other).mp h hother
    simp [howner]
  have hfree : board.owner move = .none := (hrep.owner_eq_none_iff move).mpr hnew
  rw [firstEmpty, List.append_assoc, List.find?_append, hearlier, Option.none_or,
    List.cons_append, List.find?_cons_of_pos (by simp [hmove, hfree]), Option.getD_some]

/-- An actor that plays the moves of a script. -/
def scriptedActor (build : Build) (script : List Vector2i) : Actor where
  State := Board
  create := Board.new
  gameStarted := fun board _ _ => board.reset
  observeMove := fun board move => board.applyMove build move
  chooseMove := fun board _ metrics => .ok (firstEmpty script board, board, metrics)

/-- Following a script is legal: a field that is taken is left out. -/
def scriptedLegalActor (build : Build) (script : List Vector2i) : LegalActor build where
  toActor := scriptedActor build script
  board := id
  board_gameStarted := fun _ _ _ => rfl
  board_observeMove := by
    intro board move
    show Except.map id (Board.applyMove build board move) = Board.applyMove build board move
    cases Board.applyMove build board move <;> rfl
  chooseMove_legal := by
    intro board stopSignal metrics _ hempty
    obtain ⟨hmove, howner⟩ := firstEmpty_legal script hempty
    exact ⟨firstEmpty script board, board, metrics, rfl, hmove, howner, rfl⟩

section Follow

variable {game next : Game (scriptedLegalActor build script).toActor
  (scriptedLegalActor build script).toActor}

/-- Both actors choose the first empty field of the script on the referee's board. -/
theorem chooseMove_scripted (h : game.Consistent) {signal : StopSignal} {move : Vector2i}
    {chosen} (hchoose : game.chooseMove signal = .ok (move, chosen)) :
    move = firstEmpty script game.board := by
  have hfirst : game.first = game.board := h.first_board
  have hsecond : game.second = game.board := h.second_board
  cases hcurrent : game.board.currentPlayer with
  | none => exact absurd hcurrent h.represents.currentPlayer_ne_none
  | first =>
      simp only [Game.chooseMove, hcurrent] at hchoose
      have hmove : firstEmpty script game.first = move :=
        congrArg Prod.fst (Except.ok.inj hchoose)
      rw [← hmove, hfirst]
  | second =>
      simp only [Game.chooseMove, hcurrent] at hchoose
      have hmove : firstEmpty script game.second = move :=
        congrArg Prod.fst (Except.ok.inj hchoose)
      rw [← hmove, hsecond]

/-- From an undecided game that follows the script of a complete game, one more move follows
it. -/
theorem playMove_scripted {score : Rat} (hcomplete : CompleteGame build ⟨script, score⟩ board)
    (h : game.Consistent) (hundecided : Board.Undecided game.recording)
    (hpossible : game.board.noMovePossible = false) (hscript : game.recording <+: script)
    {stopSignal : Player → Nat → StopSignal}
    (hplay : game.playMove build stopSignal = .ok next) :
    next.Pending ∧ next.recording <+: script := by
  obtain ⟨next', hplay', hnext, hrecording, chosen, hchoose⟩ :=
    h.playMove (h.exists_empty hpossible) stopSignal
  obtain rfl : next = next' := Except.ok.inj (hplay.symm.trans hplay')
  refine ⟨Game.Consistent.pending hundecided hnext hrecording, ?_⟩
  obtain ⟨later, hsplit⟩ := hscript
  cases later with
  | nil =>
      -- the whole script has been played, but a complete game is decided or fills the board
      rw [List.append_nil] at hsplit
      have hboard : game.board = board := by
        have hreplay := hcomplete.replay
        rw [← hsplit, h.replay] at hreplay
        exact Except.ok.inj hreplay
      rcases hcomplete.finished with hfive | hfull
      · rw [← hboard] at hfive
        exact absurd ((h.represents.fiveInRow_iff _ hfive.1).mp hfive) (hundecided _)
      · rw [← hboard, ← h.reachable.valid.noMovePossible_iff, hpossible] at hfull
        cases hfull
  | cons move later =>
      have hlegal : Legal script := ⟨hcomplete.inside, hcomplete.distinct⟩
      have hmove : next.move = move := by
        rw [chooseMove_scripted h hchoose]
        exact firstEmpty_next hlegal hsplit h.represents
      rw [hrecording, hmove]
      exact ⟨later, by simpa using hsplit⟩

/-- A game between two actors that follow the script of a complete game records the script. -/
theorem playout_scripted {score : Rat} (hcomplete : CompleteGame build ⟨script, score⟩ board)
    {stopSignal : Player → Nat → StopSignal} {seeds : PlayerMap Int}
    (hrun : Returns (fun fuel => (Game.start (scriptedLegalActor build script).toActor
      (scriptedLegalActor build script).toActor seeds).playout fuel build stopSignal) game)
    {score' : Rat} (hgame : CompleteGame build ⟨game.recording, score'⟩ game.board) :
    game.recording = script := by
  obtain ⟨bound, hrun⟩ := hrun
  have hlong := hrun (max bound 20) (Nat.le_max_left _ _)
  obtain ⟨first, hplay, hloop⟩ := bind_eq_ok.mp hlong
  have hstart := Game.start_consistent (scriptedLegalActor build script)
    (scriptedLegalActor build script) seeds
  have hfirst := playMove_scripted hcomplete hstart Board.undecided_nil rfl List.nil_prefix hplay
  obtain ⟨hpending, later, hsplit⟩ := whileLoop_preserves
    (fun current => current.Pending ∧ current.recording <+: script)
    (by
      intro current next hcurrent hmore hplay
      obtain ⟨more, htest, hiff⟩ := hcurrent.1.continues
      have htrue : more = true := Except.ok.inj
        ((htest (max bound 20) (Nat.le_max_right _ _)).symm.trans hmore)
      obtain ⟨hundecided, hpossible⟩ := hiff.mp htrue
      exact playMove_scripted hcomplete hcurrent.1.toConsistent hundecided hpossible hcurrent.2
        hplay)
    hfirst hloop
  cases later with
  | nil =>
      rw [List.append_nil] at hsplit
      exact hsplit
  | cons move later =>
      -- a proper part of the script is undecided and leaves the field of its next move empty
      exfalso
      have hlength : game.recording.length < script.length := by
        have hlengths := congrArg List.length hsplit
        rw [List.length_append, List.length_cons] at hlengths
        omega
      have htake : script.take game.recording.length = game.recording :=
        (congrArg (List.take game.recording.length) hsplit).symm.trans List.take_left
      obtain ⟨earlier, hreplay, hnone⟩ := hcomplete.undecided _ hlength
      rw [htake, hpending.replay] at hreplay
      obtain rfl := Except.ok.inj hreplay
      rcases hgame.finished with hfive | hfull
      · exact hnone _ hfive
      · have hall := hpending.length_le.2.mp (hpending.reachable.valid.noMovePossible_iff.mpr hfull)
        have hbound := hcomplete.le_fields
        rw [hall] at hlength
        exact absurd hbound (Nat.not_le.mpr hlength)

/-- A game between two actors that follow the script of a complete game is that game. -/
theorem recording_scripted {score score' : Rat}
    (hcomplete : CompleteGame build ⟨script, score⟩ board)
    {stopSignal : Player → Nat → StopSignal} {seeds : PlayerMap Int}
    (hrun : Returns (fun fuel => (Game.start (scriptedLegalActor build script).toActor
      (scriptedLegalActor build script).toActor seeds).playout fuel build stopSignal) game)
    (hgame : CompleteGame build ⟨game.recording, score'⟩ game.board) :
    (⟨game.recording, score'⟩ : Recording Rat) = ⟨script, score⟩ := by
  have hscript := playout_scripted hcomplete hrun hgame
  have hboard : game.board = board := by
    have hreplay := hgame.replay
    rw [hscript, hcomplete.replay] at hreplay
    exact (Except.ok.inj hreplay).symm
  have hscore : score' = score := by
    have hscore := hgame.score
    rw [hboard, ← hcomplete.score] at hscore
    exact hscore
  rw [hscript, hscore]

end Follow

/-- `WorkerImpl::PlayGame` records a complete game that both actors follow. -/
theorem WorkerImpl.playGame_scripted (hcomplete : CompleteGame build recording board)
    (host : Host) (registry : ActorRegistry) (request : PlayGameRequest)
    (hfirst : registry.create request.firstPlayer.type request.firstPlayer.config =
      .ok (scriptedActor build recording.move))
    (hsecond : registry.create request.secondPlayer.type request.secondPlayer.config =
      .ok (scriptedActor build recording.move)) :
    ∃ response, Returns (fun fuel => WorkerImpl.playGame fuel build host registry request)
      response ∧ response.recording = recording := by
  obtain ⟨final, response, hrun, hreturns, hmoves, hgame⟩ := WorkerImpl.playGame_complete
    (scriptedLegalActor build recording.move) (scriptedLegalActor build recording.move) host
    registry request hfirst hsecond
  obtain ⟨⟨moves, score⟩, metrics⟩ := response
  obtain rfl : moves = final.recording := hmoves
  exact ⟨_, hreturns, recording_scripted hcomplete hrun hgame⟩

/-- The recordings that `PlayGame` produces are the complete games. -/
theorem produced_iff : Produced build recording ↔ ∃ board, CompleteGame build recording board := by
  constructor
  · exact Produced.complete
  · intro h
    obtain ⟨board, hcomplete⟩ := h
    obtain ⟨final, recording', hrun, hreturns, hmoves, hgame⟩ := SelfPlay.playGame_complete
      (scriptedLegalActor build recording.move) (scriptedLegalActor build recording.move)
      ⟨fun _ _ => true, fun _ _ => true⟩ ⟨0, 0⟩
    obtain ⟨moves, score⟩ := recording'
    obtain rfl : moves = final.recording := hmoves
    rw [show recording = ⟨final.recording, score⟩ from
      (recording_scripted hcomplete hrun hgame).symm]
    exact .selfPlay _ _ _ _ _ hreturns

end Gomoku
