import Gomoku.Actors.Registry
import Gomoku.Ladder.CompleteGames

/-!
# What the referee guarantees

The actors of a game may be anything: they may lose track of the board, answer with a stone that
is there already, or with a position outside. `PlayGame` checks what it is given only through
`ApplyMove` of its own board. This is enough: a recording that it returns is that of a complete
game as soon as the recorded moves are inside the board (`playGame_complete_iff`). A debug
build enforces that, and the registered actors keep to it in every build
(`WorkerImpl.complete_of_registered`).

The proof lets two legal actors watch the game. They keep up with the referee's board, so what is
known about games between legal actors is known about this one.
-/

namespace Gomoku

open Execution Random PositionalGame

/-- A debug build applies only moves that are inside the board. -/
theorem Board.inside_of_applyMove {board next : Board} {move : Vector2i}
    (h : board.applyMove .debug move = .ok next) : Board.Inside move := by
  obtain ⟨_, hcheck, _⟩ := bind_eq_ok.mp h
  by_contra hout
  rw [Board.inside_eq_decide, decide_eq_false hout] at hcheck
  cases hcheck

/-- `DidWin` does not depend on the limit of its loops once it returns. -/
theorem Board.didWin_mono {build : Build} {board : Board} {position : Vector2i} {fuel fuel' : Nat}
    (hle : fuel ≤ fuel') {won : Bool} (h : board.didWin fuel build position = .ok won) :
    board.didWin fuel' build position = .ok won := by
  unfold Board.didWin at h ⊢
  obtain ⟨_, hcheck, h⟩ := bind_eq_ok.mp h
  rw [hcheck, ok_bind]
  refine anyM_mono ?_ h
  intro direction found hfound
  obtain ⟨player, hplayer, hfound⟩ := bind_eq_ok.mp hfound
  obtain ⟨negativeCount, hnegative, hfound⟩ := bind_eq_ok.mp hfound
  obtain ⟨positiveCount, hpositive, hfound⟩ := bind_eq_ok.mp hfound
  have hnegative' : board.castRay fuel' build position (-direction) player = .ok negativeCount :=
    whileLoop_mono hle hnegative
  have hpositive' : board.castRay fuel' build position direction player = .ok positiveCount :=
    whileLoop_mono hle hpositive
  rw [hplayer, ok_bind, hnegative', ok_bind, hpositive']
  exact hfound

namespace Game

variable {build : Build} {A B : Actor} {game next final : Game A B} {move : Vector2i}
  {stopSignal : Player → Nat → StopSignal} {fuel : Nat}

/-! ## The referee's variables -/

/-- A choice changes the state of an actor and its metrics only. -/
theorem chooseMove_referee {signal : StopSignal} (h : game.chooseMove signal = .ok (move, next)) :
    next.board = game.board ∧ next.recording = game.recording := by
  unfold chooseMove at h
  split at h
  · obtain ⟨⟨move, first, metrics⟩, _, h⟩ := bind_eq_ok.mp h
    obtain ⟨rfl, rfl⟩ := Prod.mk.inj (Except.ok.inj h)
    exact ⟨rfl, rfl⟩
  · obtain ⟨⟨move, second, metrics⟩, _, h⟩ := bind_eq_ok.mp h
    obtain ⟨rfl, rfl⟩ := Prod.mk.inj (Except.ok.inj h)
    exact ⟨rfl, rfl⟩
  · cases h

/-- Whatever the actors do, a pass of the loop applies one move and records it. -/
theorem playMove_referee (h : game.playMove build stopSignal = .ok next) :
    game.board.applyMove build next.move = .ok next.board ∧
      next.recording = game.recording ++ [next.move] := by
  unfold playMove at h
  obtain ⟨⟨move, chosen⟩, hchoose, h⟩ := bind_eq_ok.mp h
  obtain ⟨board, happly, h⟩ := bind_eq_ok.mp h
  obtain ⟨first, _, h⟩ := bind_eq_ok.mp h
  obtain ⟨second, _, h⟩ := bind_eq_ok.mp h
  obtain rfl := Except.ok.inj h
  obtain ⟨hboard, hrecording⟩ := chooseMove_referee hchoose
  refine ⟨?_, ?_⟩
  · rw [← hboard]
    exact happly
  · rw [← hrecording]

/-- The recorded move is the answer of one of the actors. -/
theorem playMove_answer (h : game.playMove build stopSignal = .ok next) :
    (∃ state signal metrics first metrics',
        A.chooseMove state signal metrics = .ok (next.move, first, metrics')) ∨
      ∃ state signal metrics second metrics',
        B.chooseMove state signal metrics = .ok (next.move, second, metrics') := by
  unfold playMove at h
  obtain ⟨⟨move, chosen⟩, hchoose, h⟩ := bind_eq_ok.mp h
  obtain ⟨board, _, h⟩ := bind_eq_ok.mp h
  obtain ⟨first, _, h⟩ := bind_eq_ok.mp h
  obtain ⟨second, _, h⟩ := bind_eq_ok.mp h
  obtain rfl := Except.ok.inj h
  unfold chooseMove at hchoose
  split at hchoose
  · obtain ⟨⟨answer, state, metrics⟩, hanswer, h⟩ := bind_eq_ok.mp hchoose
    obtain ⟨rfl, _⟩ := Prod.mk.inj (Except.ok.inj h)
    exact Or.inl ⟨_, _, _, state, metrics, hanswer⟩
  · obtain ⟨⟨answer, state, metrics⟩, hanswer, h⟩ := bind_eq_ok.mp hchoose
    obtain ⟨rfl, _⟩ := Prod.mk.inj (Except.ok.inj h)
    exact Or.inr ⟨_, _, _, state, metrics, hanswer⟩
  · cases hchoose

/-- What every pass of the loop keeps holds of the game that `playout` returns, and the loop has
ended there. -/
theorem playout_preserves (invariant : Game A B → Prop)
    (hfirst : ∀ next, game.playMove build stopSignal = .ok next → invariant next)
    (hpass : ∀ current next, invariant current → current.continues fuel build = .ok true →
      current.playMove build stopSignal = .ok next → invariant next)
    (h : game.playout fuel build stopSignal = .ok final) :
    invariant final ∧ final.continues fuel build = .ok false := by
  obtain ⟨first, hplay, hloop⟩ := bind_eq_ok.mp h
  exact ⟨whileLoop_preserves invariant hpass (hfirst first hplay) hloop,
    whileLoop_test_final hloop⟩

/-- The condition of the loop does not depend on the limit of the loops of `DidWin`. -/
theorem continues_mono {fuel' : Nat} (hle : fuel ≤ fuel') {more : Bool}
    (h : game.continues fuel build = .ok more) : game.continues fuel' build = .ok more := by
  obtain ⟨won, hwon, h⟩ := bind_eq_ok.mp h
  unfold continues
  rw [Board.didWin_mono hle hwon]
  exact h

/-- Neither does the score. -/
theorem score_mono {fuel' : Nat} (hle : fuel ≤ fuel') {score : Rat}
    (h : game.score fuel build = .ok score) : game.score fuel' build = .ok score := by
  obtain ⟨won, hwon, h⟩ := bind_eq_ok.mp h
  unfold Game.score
  rw [Board.didWin_mono hle hwon]
  exact h

/-! ## Spectators -/

/-- A legal actor that watches a game. -/
def spectator (build : Build) : LegalActor build := randomLegalActor build fun _ => ⟨fun _ => 0⟩

/-- The game with two spectators that have the referee's board. -/
def spectated (build : Build) (game : Game A B) :
    Game (spectator build).toActor (spectator build).toActor where
  board := game.board
  move := game.move
  first := ⟨game.board, ⟨fun _ => 0⟩⟩
  second := ⟨game.board, ⟨fun _ => 0⟩⟩
  metrics := game.metrics
  recording := game.recording

/-- A recorded move that was inside and passed `ApplyMove` is a move of the rules. -/
theorem spectated_playMove (h : (game.spectated build).Consistent)
    (hplay : game.playMove build stopSignal = .ok next) (hinside : Board.Inside next.move) :
    (next.spectated build).Consistent := by
  obtain ⟨happly, hrecording⟩ := playMove_referee hplay
  obtain ⟨howner, _, hboard⟩ := (Board.applyMove_eq_ok hinside).mp happly
  have hnew : next.move ∉ game.recording := (h.represents.owner_eq_none_iff next.move).mp howner
  have hlegal : Legal next.recording := by
    rw [hrecording]
    exact legal_append_iff.mpr ⟨h.legal, hinside, hnew⟩
  have hafter : next.board = Board.after next.recording := by
    rw [hrecording, Board.after_append, hboard]
    exact congrArg (Board.place · next.move) (Board.eq_after_of_replay h.legal h.replay)
  obtain ⟨hreplay, hreachable⟩ := Board.replay_eq_after build hlegal
  have hrepresents := Board.represents_after hlegal
  rw [← hafter] at hreplay hreachable hrepresents
  exact ⟨hlegal, hreplay, hrepresents, hreachable, rfl, rfl⟩

/-- If all recorded moves are inside, spectators agree with the referee. -/
def Refereed (build : Build) (game : Game A B) : Prop :=
  (∀ move ∈ game.recording, Board.Inside move) → (game.spectated build).Pending

/-- A pass of the loop from an undecided game. -/
theorem refereed_playMove (hplay : game.playMove build stopSignal = .ok next)
    (h : (∀ move ∈ game.recording, Board.Inside move) →
      (game.spectated build).Consistent ∧ Board.Undecided game.recording) :
    next.Refereed build := by
  intro hinside
  obtain ⟨_, hrecording⟩ := playMove_referee hplay
  rw [hrecording, List.forall_mem_append, List.forall_mem_singleton] at hinside
  obtain ⟨hconsistent, hundecided⟩ := h hinside.1
  exact { spectated_playMove hconsistent hplay hinside.2 with
    before := ⟨game.recording, hrecording, hundecided⟩ }

/-- The condition of the loop says whether the game goes on. -/
theorem Refereed.continues_iff (h : game.Refereed build)
    (hinside : ∀ move ∈ game.recording, Board.Inside move) {more : Bool}
    (hmore : game.continues fuel build = .ok more) :
    more = true ↔ Board.Undecided game.recording ∧ game.board.noMovePossible = false := by
  obtain ⟨more', hrun, hiff⟩ := (h hinside).continues
  have hmore' : game.continues (max fuel 20) build = .ok more' := hrun _ (le_max_right _ _)
  obtain rfl := Except.ok.inj
    ((continues_mono (le_max_left fuel 20) hmore).symm.trans hmore')
  exact hiff

/-- The game that `playout` returns is refereed, and over. -/
theorem playout_refereed {seeds : PlayerMap Int}
    (h : (start A B seeds).playout fuel build stopSignal = .ok final) :
    final.Refereed build ∧ final.continues fuel build = .ok false := by
  refine playout_preserves (fun game => game.Refereed build) ?_ ?_ h
  · intro next hplay
    refine refereed_playMove hplay fun _ => ⟨?_, Board.undecided_nil⟩
    exact ⟨Legal.nil, rfl, Board.Represents.new, Relation.ReflTransGen.refl, rfl, rfl⟩
  · intro current next hcurrent hmore hplay
    refine refereed_playMove hplay fun hinside => ?_
    -- the condition was true, so the game was undecided before this move
    have hundecided := (hcurrent.continues_iff hinside hmore).mp rfl
    exact ⟨(hcurrent hinside).toConsistent, hundecided.1⟩

/-- If the recorded moves are inside, the game that `playout` returns is complete, and it is scored
by the rules. -/
theorem playout_complete {seeds : PlayerMap Int}
    (h : (start A B seeds).playout fuel build stopSignal = .ok final)
    (hinside : ∀ move ∈ final.recording, Board.Inside move) {score : Rat}
    (hscore : final.score fuel build = .ok score) :
    CompleteGame build ⟨final.recording, score⟩ final.board := by
  obtain ⟨hrefereed, hended⟩ := playout_refereed h
  have hpending := hrefereed hinside
  have hscored : final.score (max fuel 20) build =
      .ok (if final.board.FiveInRow .first then 1 else 0) :=
    hpending.score _ (le_max_right _ _)
  obtain rfl := Except.ok.inj ((score_mono (le_max_left fuel 20) hscore).symm.trans hscored)
  refine hpending.complete fun hgoing => ?_
  have hmore := (hrefereed.continues_iff hinside hended).mpr hgoing
  cases hmore

/-- A property of all answers is a property of the recorded moves. -/
theorem playout_answers {seeds : PlayerMap Int} {P : Vector2i → Prop}
    (hanswer : ∀ current next : Game A B, current.playMove build stopSignal = .ok next →
      P next.move)
    (h : (start A B seeds).playout fuel build stopSignal = .ok final) :
    ∀ move ∈ final.recording, P move := by
  have hpass : ∀ current next : Game A B, (∀ move ∈ current.recording, P move) →
      current.playMove build stopSignal = .ok next → ∀ move ∈ next.recording, P move := by
    intro current next hcurrent hplay
    rw [(playMove_referee hplay).2, List.forall_mem_append, List.forall_mem_singleton]
    exact ⟨hcurrent, hanswer current next hplay⟩
  refine (playout_preserves (fun game => ∀ move ∈ game.recording, P move) ?_ ?_ h).1
  · intro next hplay
    exact hpass _ next (List.forall_mem_nil P) hplay
  · intro current next hcurrent _ hplay
    exact hpass current next hcurrent hplay

end Game

/-! ## Both versions of `PlayGame` -/

section PlayGame

variable {build : Build}

/-- What it takes for `WorkerImpl::PlayGame` to return: both actors are created, and the loop and
the test for the score return. -/
theorem WorkerImpl.playGame_eq_ok {fuel : Nat} {host : Host} {registry : ActorRegistry}
    {request : PlayGameRequest} {response : PlayGameResponse}
    (h : WorkerImpl.playGame fuel build host registry request = .ok response) :
    ∃ A B,
      registry.create request.firstPlayer.type request.firstPlayer.config = .ok A ∧
      registry.create request.secondPlayer.type request.secondPlayer.config = .ok B ∧
      ∃ final score, (WorkerImpl.startGame host request A B).playout fuel build
          (WorkerImpl.stopSignal host request) = .ok final ∧
        final.score fuel build = .ok score ∧
        response = ⟨⟨final.recording, score⟩,
          [.group request.firstPlayer.name final.metrics.first,
            .group request.secondPlayer.name final.metrics.second]⟩ := by
  unfold WorkerImpl.playGame at h
  split at h
  · cases h
  · rename_i A hfirst
    split at h
    · cases h
    · rename_i B hsecond
      obtain ⟨final, hfinal, h⟩ := bind_eq_ok.mp h
      obtain ⟨score, hscore, h⟩ := bind_eq_ok.mp h
      exact ⟨A, B, hfirst, hsecond, final, score, hfinal, hscore, (Except.ok.inj h).symm⟩

/-- What it takes for the `PlayGame` of self-play to return. -/
theorem SelfPlay.playGame_eq_ok {fuel : Nat} {A B : Actor}
    {makeStopSignal : PlayerMap (Nat → StopSignal)} {seeds : PlayerMap Int}
    {recording : Recording Rat}
    (h : SelfPlay.playGame fuel build A B makeStopSignal seeds = .ok recording) :
    ∃ final score, (Game.start A B seeds).playout fuel build
        (SelfPlay.stopSignal makeStopSignal) = .ok final ∧
      final.score fuel build = .ok score ∧ recording = ⟨final.recording, score⟩ := by
  obtain ⟨final, hfinal, h⟩ := bind_eq_ok.mp h
  obtain ⟨score, hscore, h⟩ := bind_eq_ok.mp h
  exact ⟨final, score, hfinal, hscore, (Except.ok.inj h).symm⟩

/-- The moves of a game in a debug build are inside. -/
theorem Game.inside_of_debug {A B : Actor} {seeds : PlayerMap Int} {final : Game A B}
    {stopSignal : Player → Nat → StopSignal} {fuel : Nat}
    (h : (Game.start A B seeds).playout fuel .debug stopSignal = .ok final) :
    ∀ move ∈ final.recording, Board.Inside move :=
  Game.playout_answers
    (fun _ _ hplay => Board.inside_of_applyMove (Game.playMove_referee hplay).1) h

/-- What follows about a game that was played to its end and scored. -/
theorem Game.complete_iff {A B : Actor} {seeds : PlayerMap Int} {final : Game A B}
    {stopSignal : Player → Nat → StopSignal} {fuel : Nat} {score : Rat}
    (h : (Game.start A B seeds).playout fuel build stopSignal = .ok final)
    (hscore : final.score fuel build = .ok score) :
    ((∃ board, CompleteGame build ⟨final.recording, score⟩ board) ↔
        ∀ move ∈ final.recording, Board.Inside move) ∧
      (build = .debug → ∀ move ∈ final.recording, Board.Inside move) := by
  refine ⟨⟨?_, fun hinside => ⟨final.board, Game.playout_complete h hinside hscore⟩⟩, ?_⟩
  · rintro ⟨board, hcomplete⟩
    exact hcomplete.inside
  · rintro rfl
    exact Game.inside_of_debug h

/-- For any actors at all, legal or not, and any limit for the loops: when a version of `PlayGame`
returns, its recording is that of a complete game with the score of the rules exactly if the
recorded moves are inside the board, and in a debug build they are. -/
theorem playGame_complete_iff (fuel : Nat) (host : Host) (registry : ActorRegistry)
    (request : PlayGameRequest) (A B : Actor) (makeStopSignal : PlayerMap (Nat → StopSignal))
    (seeds : PlayerMap Int) :
    (∀ response, WorkerImpl.playGame fuel build host registry request = .ok response →
      ((∃ board, CompleteGame build response.recording board) ↔
        ∀ move ∈ response.recording.move, Board.Inside move) ∧
      (build = .debug → ∀ move ∈ response.recording.move, Board.Inside move)) ∧
    ∀ recording, SelfPlay.playGame fuel build A B makeStopSignal seeds = .ok recording →
      ((∃ board, CompleteGame build recording board) ↔
        ∀ move ∈ recording.move, Board.Inside move) ∧
      (build = .debug → ∀ move ∈ recording.move, Board.Inside move) := by
  refine ⟨fun response hreturns => ?_, fun recording hreturns => ?_⟩
  · obtain ⟨A, B, _, _, final, score, hfinal, hscore, rfl⟩ := WorkerImpl.playGame_eq_ok hreturns
    exact Game.complete_iff hfinal hscore
  · obtain ⟨final, score, hfinal, hscore, rfl⟩ := SelfPlay.playGame_eq_ok hreturns
    exact Game.complete_iff hfinal hscore

end PlayGame

/-- An actor that keeps no board and plays the moves of a script, whatever they are. -/
def blindActor (script : List Vector2i) : Actor where
  State := List Vector2i
  create := script
  gameStarted := fun _ _ _ => script
  observeMove := fun state _ => .ok state.tail
  chooseMove := fun state _ metrics => .ok (state.headD ⟨0, 0⟩, state, metrics)

/-- FIRST fills the start of a row, and SECOND plays outside the board. -/
def offBoard : List Vector2i :=
  [⟨0, 0⟩, ⟨0, 20⟩, ⟨1, 0⟩, ⟨1, 20⟩, ⟨2, 0⟩, ⟨2, 20⟩, ⟨3, 0⟩, ⟨3, 20⟩, ⟨4, 0⟩]

/-- An optimised build plays the moves outside to the end, and the recording is no game. -/
theorem playGame_complete_iff_off_board :
    SelfPlay.playGame 20 .optimised (blindActor offBoard) (blindActor offBoard)
        ⟨fun _ _ => true, fun _ _ => true⟩ ⟨1, 2⟩ = .ok ⟨offBoard, 1⟩ ∧
      ¬ ∃ board, CompleteGame .optimised ⟨offBoard, 1⟩ board := by
  have hplay : SelfPlay.playGame 20 .optimised (blindActor offBoard) (blindActor offBoard)
      ⟨fun _ _ => true, fun _ _ => true⟩ ⟨1, 2⟩ = .ok ⟨offBoard, 1⟩ := by
    decide +kernel
  have hiff := ((playGame_complete_iff 20 ⟨fun _ => ⟨fun _ => 0⟩, fun _ _ _ => true⟩
    (fun _ => none) ⟨⟨"a", "", ⟨[]⟩⟩, ⟨"b", "", ⟨[]⟩⟩, 100, 1⟩ (blindActor offBoard)
    (blindActor offBoard) ⟨fun _ _ => true, fun _ _ => true⟩ ⟨1, 2⟩).2 _ hplay).1
  refine ⟨hplay, fun hcomplete => ?_⟩
  have houtside : ¬ Board.Inside ⟨0, 20⟩ := by decide
  exact houtside (hiff.mp hcomplete ⟨0, 20⟩ (by decide))

/-! ## The registered actors -/

namespace ActorKind

variable {fuel : Nat} {build : Build} {sampleSoftmax : SampleSoftmax} {engine : Int → Rng}

/-- Both registered actors answer with a field of the board, if they answer. A Monte Carlo actor
does so even when its estimates are no probabilities. -/
theorem inside_of_chooseMove {kind : ActorKind}
    {state next : (kind.actor fuel build sampleSoftmax engine).State} {stopSignal : StopSignal}
    {metrics metrics' : Metrics} {move : Vector2i}
    (h : (kind.actor fuel build sampleSoftmax engine).chooseMove state stopSignal metrics =
      .ok (move, next, metrics')) : Board.Inside move := by
  cases kind with
  | random =>
      obtain ⟨⟨drawn, rng⟩, hsample, h⟩ := bind_eq_ok.mp h
      obtain ⟨rfl, _⟩ := Prod.mk.inj (Except.ok.inj h)
      rw [Board.uniformlySampleLegalMove_eq] at hsample
      split at hsample
      · rename_i found hfound
        obtain ⟨rfl, _⟩ := Prod.mk.inj (Except.ok.inj hsample)
        exact Board.mem_scan_iff.mp (List.mem_of_find?_eq_some hfound)
      · cases hsample
  | monteCarlo cell =>
      change MonteCarloActor.chooseMove fuel build cell sampleSoftmax state stopSignal metrics =
        .ok (move, next, metrics') at h
      unfold MonteCarloActor.chooseMove at h
      obtain ⟨search, _, h⟩ := bind_eq_ok.mp h
      obtain ⟨legalMoves, _, h⟩ := bind_eq_ok.mp h
      obtain ⟨value, _, h⟩ := bind_eq_ok.mp h
      obtain ⟨rfl, _⟩ := Prod.mk.inj (Except.ok.inj h)
      exact Field.inside_position _

end ActorKind

/-- What registered actors have played to the end is a complete game, in every build, with every
engine and however `SampleSoftmax` samples. -/
theorem Game.complete_of_registered {fuel searchFuel : Nat} {build : Build}
    {sampleSoftmax : SampleSoftmax} {engine : Int → Rng} {kind kind' : ActorKind}
    {seeds : PlayerMap Int} {stopSignal : Player → Nat → StopSignal} {score : Rat}
    {final : Game (kind.actor searchFuel build sampleSoftmax engine)
      (kind'.actor searchFuel build sampleSoftmax engine)}
    (hfinal : (Game.start _ _ seeds).playout fuel build stopSignal = .ok final)
    (hscore : final.score fuel build = .ok score) :
    ∃ board, CompleteGame build ⟨final.recording, score⟩ board := by
  refine (Game.complete_iff hfinal hscore).1.mpr (Game.playout_answers ?_ hfinal)
  intro current next hplay
  rcases Game.playMove_answer hplay with hanswer | hanswer
  · obtain ⟨_, _, _, _, _, hchoose⟩ := hanswer
    exact ActorKind.inside_of_chooseMove hchoose
  · obtain ⟨_, _, _, _, _, hchoose⟩ := hanswer
    exact ActorKind.inside_of_chooseMove hchoose

/-- What a worker returns for registered actors is a complete game. -/
theorem WorkerImpl.complete_of_registered {fuel searchFuel : Nat} {build : Build} {host : Host}
    {sampleSoftmax : SampleSoftmax} {engine : Int → Rng} {request : PlayGameRequest}
    {response : PlayGameResponse}
    (h : WorkerImpl.playGame fuel build host
      (actorRegistry searchFuel build sampleSoftmax engine) request = .ok response) :
    ∃ board, CompleteGame build response.recording board := by
  obtain ⟨A, B, hfirst, hsecond, final, score, hfinal, hscore, rfl⟩ :=
    WorkerImpl.playGame_eq_ok h
  obtain ⟨kind, _, rfl⟩ := ActorKind.create_eq_ok.mp hfirst
  obtain ⟨kind', _, rfl⟩ := ActorKind.create_eq_ok.mp hsecond
  exact Game.complete_of_registered hfinal hscore

end Gomoku
