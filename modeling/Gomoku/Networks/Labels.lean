import Gomoku.Core.DrawnGames
import Gomoku.Ladder.ScriptedGames
import Gomoku.Networks.Rows

/-!
# Training labels

The recording of a game holds one number, the score of FIRST, and `DecodeReplays` gives
SECOND what is left of 1. For a game that somebody won this is the result of the player to
move in every row. A drawn game is recorded with the score 0 of a game that FIRST lost, so
the rows of SECOND get the label of a win. `labels_right_iff` says that the labels are right
for the won games and for no other.
-/

namespace Gomoku.DecodeReplays

open Execution

/-- The scores of a single decoded game are the ones the op documents: in every state, 1 if the
player to move has five in a row on the final board and 0 otherwise. -/
def LabelsRight (build : Build) (recording : Recording Rat) (board : Board)
    (output : Output Rat) : Prop :=
  ∀ k ≤ recording.move.length, ∃ state,
    Board.replay build (recording.move.take k) = .ok state ∧
      output.scores.read [k] = some (if board.FiveInRow state.currentPlayer then 1 else 0)

variable {build : Build} {recording : Recording Rat} {board : Board} {output : Output Rat}

/-- The output of a complete game has the score of FIRST in the even rows and what is left of 1
in the others. -/
theorem compute_complete {ρ : Type} (h : CompleteGame build recording board)
    {parseFromString : ρ → Option (Recording Rat)} {record : ρ}
    (hparse : parseFromString record = some recording) :
    ∃ output, compute build parseFromString [record] = .ok (.ok output) ∧
      ∀ k ≤ recording.move.length, output.scores.read [k] =
        some (if k % 2 = 0 then recording.score else 1 - recording.score) := by
  have hrecords : [record].mapM parseFromString = some [recording] := by simp [hparse]
  refine ⟨_, compute_eq build hrecords (by simpa using h.legal), ?_⟩
  intro k hk
  have hread := read_scores_table (show [recording] = [] ++ recording :: [] from rfl) h.legal hk
  simpa using hread

/-- The labels are right when every row holds the result of the player to move. -/
theorem labelsRight_iff (h : CompleteGame build recording board)
    (hscores : ∀ k ≤ recording.move.length, output.scores.read [k] =
      some (if k % 2 = 0 then recording.score else 1 - recording.score)) :
    LabelsRight build recording board output ↔
      ∀ k ≤ recording.move.length,
        (if k % 2 = 0 then recording.score else 1 - recording.score) =
          if board.FiveInRow (turn k) then 1 else 0 := by
  apply forall₂_congr
  intro k hk
  have hrep := Board.represents_after (h.legal.take k)
  have hplayer := hrep.currentPlayer_eq
  rw [List.length_take_of_le hk] at hplayer
  rw [hscores k hk]
  constructor
  · intro hlabel
    obtain ⟨state, hreplay, hlabel⟩ := hlabel
    obtain rfl := Board.eq_after_of_replay (h.legal.take k) hreplay
    rw [hplayer] at hlabel
    exact Option.some.inj hlabel
  · intro hlabel
    refine ⟨_, (Board.replay_eq_after build (h.legal.take k)).1, ?_⟩
    rw [hplayer, hlabel]

/-- The labels of a complete game are right exactly when somebody has five in a row. -/
theorem labelsRight_iff_decisive (h : CompleteGame build recording board)
    (hscores : ∀ k ≤ recording.move.length, output.scores.read [k] =
      some (if k % 2 = 0 then recording.score else 1 - recording.score)) :
    LabelsRight build recording board output ↔ ∃ player, board.FiveInRow player := by
  rw [labelsRight_iff h hscores]
  have hlength := h.nine_le
  constructor
  · intro hlabels
    by_contra hnone
    push Not at hnone
    -- in a drawn game SECOND, to move after the first move, gets what FIRST did not get
    have hlabel := hlabels 1 (by omega)
    rw [h.score, if_neg (hnone _), if_neg (hnone _)] at hlabel
    norm_num at hlabel
  · intro hdecisive k hk
    obtain ⟨winner, hfive⟩ := hdecisive
    have hunique : ∀ player, board.FiveInRow player ↔ player = winner := by
      intro player
      constructor
      · intro hother
        exact (h.winner_eq hother).symm.trans (h.winner_eq hfive)
      · intro heq
        exact heq ▸ hfive
    have hplayer := hfive.1
    rw [h.score]
    simp only [hunique]
    cases winner with
    | none => exact absurd rfl hplayer
    | first =>
        by_cases heven : k % 2 = 0
        · simp [turn, heven]
        · simp [turn, heven]
    | second =>
        by_cases heven : k % 2 = 0
        · simp [turn, heven]
        · simp [turn, heven]

/-- For every game that `PlayGame` produces between legal actors, the labels that `DecodeReplays`
gives it are right exactly when the game was won by somebody. -/
theorem labels_right_iff {ρ : Type} (build : Build)
    (parseFromString : ρ → Option (Recording Rat)) (record : ρ) (recording : Recording Rat)
    (hproduced : Produced build recording)
    (hparse : parseFromString record = some recording) :
    ∃ board output, Board.replay build recording.move = .ok board ∧
      compute build parseFromString [record] = .ok (.ok output) ∧
      (LabelsRight build recording board output ↔ ∃ player, board.FiveInRow player) := by
  obtain ⟨board, hcomplete⟩ := hproduced.complete
  obtain ⟨output, hrun, hscores⟩ := compute_complete hcomplete hparse
  exact ⟨board, output, hcomplete.replay, hrun, labelsRight_iff_decisive hcomplete hscores⟩

/-- A game in which FIRST fills the start of a column and SECOND the one next to it. -/
def columnGame : List Vector2i :=
  [⟨0, 0⟩, ⟨1, 0⟩, ⟨0, 1⟩, ⟨1, 1⟩, ⟨0, 2⟩, ⟨1, 2⟩, ⟨0, 3⟩, ⟨1, 3⟩, ⟨0, 4⟩]

theorem fiveInRow_columnGame : (Board.after columnGame).FiveInRow .first := by
  decide +kernel

theorem complete_columnGame : CompleteGame .debug ⟨columnGame, 1⟩ (Board.after columnGame) :=
  CompleteGame.of_nine_moves (by decide) rfl fiveInRow_columnGame .debug

/-- The labels of the column game are right. -/
theorem labels_right_iff_column :
    ∃ board output, Board.replay .debug columnGame = .ok board ∧
      compute .debug some [⟨columnGame, 1⟩] = .ok (.ok output) ∧
      LabelsRight .debug ⟨columnGame, 1⟩ board output := by
  obtain ⟨board, output, hreplay, hrun, hiff⟩ := labels_right_iff .debug some ⟨columnGame, 1⟩
    ⟨columnGame, 1⟩ (produced_iff.mpr ⟨_, complete_columnGame⟩) rfl
  refine ⟨board, output, hreplay, hrun, hiff.mpr ⟨.first, ?_⟩⟩
  obtain rfl := Except.ok.inj (complete_columnGame.replay.symm.trans hreplay)
  exact fiveInRow_columnGame

/-- In the game of the stripes nobody has five in a row, and the state after the first move is
labelled as won by the player to move. -/
theorem labels_wrong_in_drawnGame :
    Produced .debug ⟨Board.drawnGame, 0⟩ ∧
      ∃ board output, Board.replay .debug Board.drawnGame = .ok board ∧
        compute .debug some [⟨Board.drawnGame, 0⟩] = .ok (.ok output) ∧
        (∀ player, ¬ board.FiveInRow player) ∧ output.scores.read [1] = some 1 ∧
        ¬ LabelsRight .debug ⟨Board.drawnGame, 0⟩ board output := by
  have hlegal : Legal Board.drawnGame := Board.legal_colouring _
  have hlength : Board.drawnGame.length = 361 := Board.length_colouring _
  have hcomplete := CompleteGame.of_undecided hlegal hlength Board.undecided_drawnGame .debug
  obtain ⟨output, hrun, hscores⟩ := compute_complete hcomplete
    (show some (⟨Board.drawnGame, 0⟩ : Recording Rat) = some ⟨Board.drawnGame, 0⟩ from rfl)
  have hnone := (Board.represents_after hlegal).undecided_iff.mp Board.undecided_drawnGame
  refine ⟨produced_iff.mpr ⟨_, hcomplete⟩, _, output, hcomplete.replay, hrun, hnone, ?_, ?_⟩
  · have hscore := hscores 1 (by rw [hlength]; omega)
    simpa using hscore
  · rw [labelsRight_iff_decisive hcomplete hscores, not_exists]
    exact hnone

end Gomoku.DecodeReplays
