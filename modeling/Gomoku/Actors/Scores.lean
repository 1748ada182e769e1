import Gomoku.Actors.Rollouts
import Gomoku.Actors.Softmax

/-!
# Scores of rollouts

A simulated game that ends was played by legal moves from the private board and has exactly one
winner, the player who moved last (`Pending.winner_iff`). `simulate` passes to the cell the
score of the player to move on the private board (`rollout_scored`).
-/

namespace Gomoku.MonteCarloActor

open Execution Random PositionalGame

variable {build : Build} {moves game : List Vector2i} {rollout : Rollout}

/-- A simulated game is decided by its last move: the winner is the player who made it. -/
theorem Pending.winner_iff (h : Pending game rollout) (hdecided : ¬ Board.Undecided game)
    (player : Player) :
    rollout.board.FiveInRow player ↔ player = rollout.board.currentPlayer.opponent := by
  have hrep := Board.represents_after h.legal
  rw [← h.board_eq] at hrep
  obtain ⟨earlier, hgame, hbefore⟩ := h.before
  have hmover : rollout.board.currentPlayer.opponent = turn earlier.length := by
    rw [hrep.currentPlayer_eq, hgame, List.length_append, List.length_singleton, turn_succ,
      Player.opponent_opponent]
  -- whoever has five in a row made the last move
  have honly : ∀ player, rollout.board.FiveInRow player → player = turn earlier.length := by
    intro player hfive
    have hcompleted := (hrep.fiveInRow_iff player hfive.1).mp hfive
    rw [hgame] at hcompleted
    exact (hcompleted.through_last (hbefore player)).1.symm
  rw [hmover]
  constructor
  · exact honly player
  · intro hplayer
    obtain ⟨winner, hwinner⟩ : ∃ winner, rollout.board.FiveInRow winner := by
      by_contra hnone
      exact hdecided (hrep.undecided_iff.mpr (not_exists.mp hnone))
    rw [hplayer, ← honly winner hwinner]
    exact hwinner

/-- A pass of the loop of a rollout that returns leads to the condition of the loop. -/
theorem Pending.of_sampleMove (h : Pending game rollout) (hundecided : Board.Undecided game)
    {next : Rollout} (hnext : MonteCarloActor.sampleMove build rollout = .ok next) :
    ∃ move, Pending (game ++ [move]) next := by
  by_cases hlength : game.length < 361
  · obtain ⟨move, next', hsample, hpending⟩ := h.sampleMove hundecided hlength build
    obtain rfl := Except.ok.inj (hsample.symm.trans hnext)
    exact ⟨move, hpending⟩
  · -- on a full board the sampler is fatal
    have hfull := (Board.full_after_iff h.legal).mpr (by
      have hle := Board.length_le_of_legal h.legal
      omega)
    rw [MonteCarloActor.sampleMove, h.board_eq, Board.uniformlySampleLegalMove_of_full hfull] at hnext
    cases hnext

/-- A rollout that returns ends in a decided position reached by legal moves. -/
theorem rollout_decided (h : Pending game rollout) {final : Rollout} {fuel limit : Nat}
    (hfuel : 20 ≤ fuel)
    (hrun : whileLoop (unfinished fuel build) (sampleMove build) limit rollout = .ok final) :
    ∃ later, Pending (game ++ later) final ∧ ¬ Board.Undecided (game ++ later) := by
  have hpending := whileLoop_preserves (fun rollout => ∃ later, Pending (game ++ later) rollout)
    (by
      intro state next hstate htest hnext
      obtain ⟨later, hstate⟩ := hstate
      obtain ⟨more, hmore, hiff⟩ := hstate.unfinished build
      obtain rfl := Except.ok.inj ((hmore fuel hfuel).symm.trans htest)
      obtain ⟨move, hpending⟩ := hstate.of_sampleMove (hiff.mp rfl) hnext
      exact ⟨later ++ [move], by rwa [← List.append_assoc]⟩)
    ⟨[], by rwa [List.append_nil]⟩ hrun
  obtain ⟨later, hpending⟩ := hpending
  obtain ⟨more, hmore, hiff⟩ := hpending.unfinished build
  obtain rfl := Except.ok.inj ((hmore fuel hfuel).symm.trans (whileLoop_test_final hrun))
  exact ⟨later, hpending, fun hundecided => Bool.false_ne_true (hiff.mpr hundecided)⟩

/-- A simulated game that returns explored an empty field and ends in a decided position reached
by legal moves. -/
theorem explore_decided (hlegal : Legal moves) (hundecided : Board.Undecided moves)
    {sampleSoftmax : SampleSoftmax}
    (hinside : ∀ winProb legalMoves temperature rng,
      Board.Inside (sampleSoftmax winProb legalMoves temperature rng).1)
    {winProb : FeatureMatrix Rat} {rng : Rng} {exploringMove : Vector2i} {final : Rollout}
    {fuel : Nat} (hfuel : 20 ≤ fuel)
    (hrun : explore fuel build sampleSoftmax (Board.after moves) winProb rng =
      .ok (exploringMove, final)) :
    Board.Inside exploringMove ∧ (Board.after moves).owner exploringMove = .none ∧
      ∃ later, Pending (moves ++ exploringMove :: later) final ∧
        ¬ Board.Undecided (moves ++ exploringMove :: later) := by
  simp only [explore, stoneMatrix_eq, ok_bind] at hrun
  have hmove := hinside winProb
    (fun field => if (Board.after moves).owner field.position = .none then 1 else 0) 1 rng
  obtain ⟨next, happly, hrun⟩ := bind_eq_ok.mp hrun
  obtain ⟨rolled, hloop, hrun⟩ := bind_eq_ok.mp hrun
  obtain ⟨rfl, rfl⟩ := Prod.mk.inj (Except.ok.inj hrun)
  obtain ⟨hempty, _, rfl⟩ := (Board.applyMove_eq_ok hmove).mp happly
  obtain ⟨_, hpending⟩ := Pending.next build hlegal hundecided hmove hempty (sampleSoftmax winProb
    (fun field => if (Board.after moves).owner field.position = .none then 1 else 0) 1 rng).2
  rw [Board.after_append] at hpending
  obtain ⟨later, hfinal, hdecided⟩ := rollout_decided hpending hfuel hloop
  rw [List.append_assoc, List.singleton_append] at hfinal hdecided
  exact ⟨hmove, hempty, later, hfinal, hdecided⟩

/-- From a board reached by legal moves and without five in a row, a simulated game that ends
explored an empty field, extended the board by legal moves from there, and has five in a row
for exactly one player; the cell is updated at the exploring move with score 1 if this is the
player to move on the board, and with score 0 otherwise. -/
theorem rollout_scored (build : Build) (moves : List Vector2i) (board : Board)
    (hlegal : Legal moves) (hreplay : Board.replay build moves = .ok board)
    (hnofive : ∀ player, ¬ board.FiveInRow player)
    (exp : Rat → Rat) (discreteDistribution : List Rat → Rng → Nat × Rng)
    (hdiscrete : ∀ weights rng, weights ≠ [] →
      (discreteDistribution weights rng).1 < weights.length)
    (cell : McCell) (search : Search cell) (exploringMove : Vector2i) (final : Rollout)
    (hfinished : Returns (fun fuel => explore fuel build (sampleSoftmax exp discreteDistribution)
      board (cell.winProb search.cellState) search.rng) (exploringMove, final)) :
    Board.Inside exploringMove ∧ board.stoneAt build exploringMove = .ok .none ∧
      ∃ later winner,
        Legal (moves ++ exploringMove :: later) ∧
        (exploringMove :: later).foldlM (Board.applyMove build) board = .ok final.board ∧
        (∀ player, final.board.FiveInRow player ↔ player = winner) ∧
        ∃ bound, ∀ fuel, bound ≤ fuel →
          simulate fuel build cell (sampleSoftmax exp discreteDistribution) board search =
            (cell.update search.cellState exploringMove
              (if winner = board.currentPlayer then 1 else 0)).map
                (fun cellState => ⟨cellState, final.rng, search.iterations + 1⟩) := by
  obtain rfl := Board.eq_after_of_replay hlegal hreplay
  have hundecided := (Board.represents_after hlegal).undecided_iff.mpr hnofive
  obtain ⟨bound, hrun⟩ := hfinished
  obtain ⟨hmove, hempty, later, hfinal, hdecided⟩ := explore_decided hlegal hundecided
    (sampleSoftmax_inside hdiscrete) (Nat.le_max_right bound 20)
    (hrun (max bound 20) (Nat.le_max_left bound 20))
  have hreached := (Board.replay_eq_after build hfinal.legal).1
  rw [Board.replay, List.foldlM_append, ← Board.replay, hreplay, ok_bind, ← hfinal.board_eq]
    at hreached
  have hplayer : final.board.currentPlayer ≠ .none := by
    rw [hfinal.board_eq]
    exact (Board.represents_after hfinal.legal).currentPlayer_ne_none
  refine ⟨hmove, ?_, later, final.board.currentPlayer.opponent, hfinal.legal, hreached,
    hfinal.winner_iff hdecided, bound, fun fuel hfuel => ?_⟩
  · rw [Board.stoneAt_of_inside build _ hmove, hempty]
  · simp only [simulate, hrun fuel hfuel, ok_bind, kOpponent_get hplayer]
    cases cell.update search.cellState exploringMove _ <;> rfl

/-- FIRST has four stones in the first row, from the corner on, and is to move. -/
def fourInRow : List Vector2i :=
  [⟨0, 0⟩, ⟨0, 5⟩, ⟨1, 0⟩, ⟨0, 7⟩, ⟨2, 0⟩, ⟨0, 9⟩, ⟨3, 0⟩, ⟨0, 11⟩]

/-- The exponential function to the second order. -/
def secondOrderExp (value : Rat) : Rat := 1 + value + value ^ 2 / 2

/-- With the smallest draw the exploring move is the first empty field, which completes the row of
FIRST, and the simulation ends there. -/
theorem explore_fourInRow :
    Returns (fun fuel => explore fuel .debug (sampleSoftmax secondOrderExp inverseTransform)
        (Board.after fourInRow) (fun _ => 1 / 2) ⟨fun _ => 0⟩)
      (⟨4, 0⟩, ⟨Board.after (fourInRow ++ [⟨4, 0⟩]), ⟨4, 0⟩, ⟨fun _ => 0⟩⟩) := by
  have hlegal : Legal (fourInRow ++ [⟨4, 0⟩]) := by decide
  obtain ⟨hbefore, hmove, hnew⟩ := legal_append_iff.mp hlegal
  have hundecided : Board.Undecided fourInRow := Board.undecided_of_length_lt (by decide)
  have hempty := ((Board.represents_after hbefore).owner_eq_none_iff ⟨4, 0⟩).mpr hnew
  obtain ⟨happly, hpending⟩ :=
    Pending.next .debug hbefore hundecided hmove hempty ⟨fun _ => 0⟩
  have hfive : (Board.after (fourInRow ++ [⟨4, 0⟩])).FiveInRow .first :=
    ⟨by decide, (0, 0), .horizontal, by decide +kernel⟩
  obtain ⟨more, hmore, hiff⟩ := hpending.unfinished .debug
  obtain rfl : more = false := by
    rw [← Bool.not_eq_true, hiff, hpending.undecided_iff]
    exact fun hnone => hnone .first hfive
  have hsample : sampleSoftmax secondOrderExp inverseTransform (fun _ => 1 / 2)
      (fun field : Field =>
        if (Board.after fourInRow).owner field.position = .none then 1 else 0) 1
      ⟨fun _ => 0⟩ = (⟨4, 0⟩, ⟨fun _ => 0⟩) := by
    refine Prod.ext ?_ rfl
    decide +kernel
  refine ⟨20, fun fuel hfuel => ?_⟩
  obtain ⟨rest, rfl⟩ : ∃ rest, fuel = rest + 1 := ⟨fuel - 1, by omega⟩
  simp only [explore, stoneMatrix_eq, ok_bind, hsample, happly,
    whileLoop_of_false (hmore (rest + 1) hfuel), pure_eq_ok]

/-- The move that completes the row of FIRST updates the cell with score 1. -/
theorem rollout_scored_four_in_row :
    (Board.after (fourInRow ++ [⟨4, 0⟩])).FiveInRow .first ∧
      ∃ bound, ∀ fuel, bound ≤ fuel →
        simulate fuel .debug mcLinearCell (sampleSoftmax secondOrderExp inverseTransform)
            (Board.after fourInRow) (startSearch mcLinearCell ⟨fun _ => 0⟩) =
          (mcLinearCell.update (startSearch mcLinearCell ⟨fun _ => 0⟩).cellState ⟨4, 0⟩ 1).map
            (fun cellState => ⟨cellState, ⟨fun _ => 0⟩, 0 + 1⟩) := by
  have hlegal : Legal fourInRow := by decide
  have hundecided : Board.Undecided fourInRow := Board.undecided_of_length_lt (by decide)
  have hturn : (Board.after fourInRow).currentPlayer = .first :=
    (Board.represents_after hlegal).currentPlayer_eq
  have hfive : (Board.after (fourInRow ++ [⟨4, 0⟩])).FiveInRow .first :=
    ⟨by decide, (0, 0), .horizontal, by decide +kernel⟩
  obtain ⟨_, _, later, winner, _, _, hwinner, bound, hsimulate⟩ :=
    rollout_scored .debug fourInRow (Board.after fourInRow) hlegal
      (Board.replay_eq_after .debug hlegal).1
      ((Board.represents_after hlegal).undecided_iff.mp hundecided) secondOrderExp
      inverseTransform (fun weights rng hne => firstExceeding_lt hne _) mcLinearCell
      (startSearch mcLinearCell ⟨fun _ => 0⟩) _ _ explore_fourInRow
  refine ⟨hfive, bound, fun fuel hfuel => ?_⟩
  rw [hsimulate fuel hfuel, ← (hwinner .first).mp hfive, hturn, if_pos rfl]
  rfl

end Gomoku.MonteCarloActor
