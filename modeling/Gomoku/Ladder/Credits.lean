import Gomoku.Core.DrawnGames
import Gomoku.Ladder.ScriptedGames
import Gomoku.Ladder.Statistics
import Mathlib.Data.Rat.Cast.Order
import Mathlib.Tactic.NormNum

/-!
# What the ladder counts as a win

`BasicLadder::GameCompleted` reads the score of a game as one of two outcomes: at least 1/2 is a
win of the first player, everything else one of the second. `PlayGame` has a third outcome, a
full board without five in a row, and gives it the score 0. `credits_winners_iff` says for
which games the credited actor is the winner.
-/

namespace Gomoku

open Execution

namespace BasicLadder

variable {ladder : BasicLadder} {request : PlayGameRequest} {response : PlayGameResponse}

/-- A completed game adds a win to the actor whose colour has five in a row on the final board, and
to nobody else. -/
def CreditsWinners (ladder : BasicLadder) (request : PlayGameRequest)
    (response : PlayGameResponse) (board : Board) : Prop :=
  ∀ name, (ladder.gameCompleted request response).won name = ladder.won name +
    if board.FiveInRow .first ∧ name = request.firstPlayer.name ∨
        board.FiveInRow .second ∧ name = request.secondPlayer.name then 1 else 0

/-- A complete game credits its winner exactly when it has one. -/
theorem creditsWinners_iff_decisive {build : Build} {board : Board}
    (h : CompleteGame build response.recording board) :
    CreditsWinners ladder request response board ↔ ∃ player, board.FiveInRow player := by
  unfold CreditsWinners
  simp only [won_gameCompleted, h.score]
  constructor
  · intro hcredits
    by_contra hnone
    push Not at hnone
    -- in a drawn game the second player is credited
    have hsecond := hcredits request.secondPlayer.name
    simp [hnone] at hsecond
  · intro hdecisive name
    obtain ⟨winner, hfive⟩ := hdecisive
    have hunique : ∀ player, board.FiveInRow player ↔ player = winner := by
      intro player
      constructor
      · intro hother
        exact (h.winner_eq hother).symm.trans (h.winner_eq hfive)
      · intro heq
        exact heq ▸ hfive
    have hplayer := hfive.1
    simp only [hunique]
    cases winner with
    | none => exact absurd rfl hplayer
    | first =>
        have hscore : (1 : Rat) ≥ 1 / 2 := by norm_num
        simp only [reduceCtorEq, false_and, or_false, true_and, if_true, if_pos hscore]
    | second =>
        have hscore : ¬ (0 : Rat) ≥ 1 / 2 := by norm_num
        simp only [reduceCtorEq, false_and, false_or, true_and, if_false, if_neg hscore]

/-- For every game that `WorkerImpl::PlayGame` returns for legal actors, the ladder credits a win
to the winner and to nobody else exactly when somebody has five in a row on the final board. -/
theorem credits_winners_iff {build : Build} (A B : LegalActor build) (host : Host)
    (registry : ActorRegistry) (request : PlayGameRequest) (response : PlayGameResponse)
    (hfirst : registry.create request.firstPlayer.type request.firstPlayer.config = .ok A.toActor)
    (hsecond : registry.create request.secondPlayer.type request.secondPlayer.config =
      .ok B.toActor)
    (hreturns : Returns (fun fuel => WorkerImpl.playGame fuel build host registry request)
      response)
    (ladder : BasicLadder) :
    ∃ board, Board.replay build response.recording.move = .ok board ∧
      (CreditsWinners ladder request response board ↔ ∃ player, board.FiveInRow player) := by
  obtain ⟨final, response', _, hreturns', _, hcomplete⟩ :=
    WorkerImpl.playGame_complete A B host registry request hfirst hsecond
  obtain rfl := hreturns.unique hreturns'
  exact ⟨final.board, hcomplete.replay, creditsWinners_iff_decisive hcomplete⟩

/-- A request for a game between two actors of one type. -/
def requestOf (first second : String) : PlayGameRequest :=
  ⟨⟨first, "ScriptedActor", ⟨[]⟩⟩, ⟨second, "ScriptedActor", ⟨[]⟩⟩, 100, 1⟩

/-- A host whose engines deliver zeros and whose deadlines have always passed. -/
def zeroHost : Host := ⟨fun _ => ⟨fun _ => 0⟩, fun _ _ _ => true⟩

/-- A registry in which every type plays one script. -/
def scriptedRegistry (script : List Vector2i) : ActorRegistry :=
  fun _ => some fun _ => .ok (scriptedActor .debug script)

/-- A ladder before its first game. -/
def freshLadder : BasicLadder := ⟨⟨"ladder", 100, []⟩, ⟨fun _ => 0⟩, ∅⟩

/-- FIRST fills the start of a row and SECOND the one next to it. -/
def rowGame : List Vector2i :=
  [⟨0, 0⟩, ⟨0, 1⟩, ⟨1, 0⟩, ⟨1, 1⟩, ⟨2, 0⟩, ⟨2, 1⟩, ⟨3, 0⟩, ⟨3, 1⟩, ⟨4, 0⟩]

/-- The game of the row is credited to the first player. -/
theorem credits_winners_iff_row :
    ∃ response board,
      Returns (fun fuel => WorkerImpl.playGame fuel .debug zeroHost (scriptedRegistry rowGame)
        (requestOf "a" "b")) response ∧
      Board.replay .debug response.recording.move = .ok board ∧
      CreditsWinners freshLadder (requestOf "a" "b") response board := by
  have hfive : (Board.after rowGame).FiveInRow .first :=
    ⟨by decide, (0, 0), .horizontal, by decide +kernel⟩
  have hcomplete := CompleteGame.of_nine_moves (by decide) rfl hfive .debug
  obtain ⟨response, hreturns, hrecording⟩ := WorkerImpl.playGame_scripted hcomplete zeroHost
    (scriptedRegistry rowGame) (requestOf "a" "b") rfl rfl
  obtain ⟨board, hreplay, hiff⟩ := credits_winners_iff (scriptedLegalActor .debug rowGame)
    (scriptedLegalActor .debug rowGame) _ _ _ _ rfl rfl hreturns freshLadder
  refine ⟨response, board, hreturns, hreplay, hiff.mpr ⟨.first, ?_⟩⟩
  rw [hrecording] at hreplay
  obtain rfl := Except.ok.inj (hcomplete.replay.symm.trans hreplay)
  exact hfive

/-- In the game of the stripes nobody has five in a row, and the second player is credited. -/
theorem credits_second_in_drawnGame :
    ∃ response board,
      Returns (fun fuel => WorkerImpl.playGame fuel .debug zeroHost
        (scriptedRegistry Board.drawnGame) (requestOf "a" "b")) response ∧
      response.recording = ⟨Board.drawnGame, 0⟩ ∧
      Board.replay .debug Board.drawnGame = .ok board ∧ (∀ player, ¬ board.FiveInRow player) ∧
      (freshLadder.gameCompleted (requestOf "a" "b") response).won "b" = 1 ∧
      ¬ CreditsWinners freshLadder (requestOf "a" "b") response board := by
  have hlegal : Legal Board.drawnGame := Board.legal_colouring _
  have hcomplete := CompleteGame.of_undecided hlegal (Board.length_colouring _)
    Board.undecided_drawnGame .debug
  have hnone := (Board.represents_after hlegal).undecided_iff.mp Board.undecided_drawnGame
  obtain ⟨response, hreturns, hrecording⟩ := WorkerImpl.playGame_scripted hcomplete zeroHost
    (scriptedRegistry Board.drawnGame) (requestOf "a" "b") rfl rfl
  refine ⟨response, _, hreturns, hrecording, hcomplete.replay, hnone, ?_, ?_⟩
  · have hscore : ¬ (0 : Rat) ≥ 1 / 2 := by norm_num
    rw [won_gameCompleted, hrecording, if_neg hscore]
    rfl
  · rw [← hrecording] at hcomplete
    rw [creditsWinners_iff_decisive hcomplete, not_exists]
    exact hnone

end BasicLadder

end Gomoku
