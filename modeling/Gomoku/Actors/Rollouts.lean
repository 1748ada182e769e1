import Gomoku.Actors.MonteCarloActor
import Gomoku.Core.DrawnGames

/-!
# Rollouts of the Monte Carlo actor

The loop of a rollout tests `DidWin` only, where `PlayGame` also tests `NoMovePossible`. While
the simulated game is undecided and some field is empty, the sampler returns an empty field
and the next move passes (`Pending.sampleMove`). A rollout that fills the board without five
in a row then asks the sampler once more, which is fatal (`rollout_fatal`).
`rollouts_return_iff` says for which boards every rollout returns.
-/

namespace Gomoku.MonteCarloActor

open Execution Random PositionalGame

/-- The states of the loop of `ChooseMove` before a call of the stop signal. -/
inductive Searches (build : Build) (cell : McCell) (sampleSoftmax : SampleSoftmax) (board : Board)
    (stopSignal : StopSignal) (rng : Rng) : Search cell → Prop where
  | start : Searches build cell sampleSoftmax board stopSignal rng (startSearch cell rng)
  | again (search next) :
      Searches build cell sampleSoftmax board stopSignal rng search →
      stopSignal search.iterations = false →
      Returns (fun fuel => simulate fuel build cell sampleSoftmax board search) next →
      Searches build cell sampleSoftmax board stopSignal rng next

/-- Whatever the cell, the random draws and the stop signal are, every simulated game that
`ChooseMove` starts from the board ends, without a fault. -/
def RolloutsReturn (build : Build) (board : Board) : Prop :=
  ∀ (cell : McCell) (sampler : SoftmaxSampler) (rng : Rng) (stopSignal : StopSignal)
    (search : Search cell),
    Searches build cell sampler.sample board stopSignal rng search →
    stopSignal search.iterations = false →
    ∃ outcome, Returns (fun fuel => explore fuel build sampler.sample board
      (cell.winProb search.cellState) search.rng) outcome

/-- The rollout shows the position after `game`, whose last move was made in an undecided
position. -/
structure Pending (game : List Vector2i) (rollout : Rollout) : Prop where
  legal : Legal game
  board_eq : rollout.board = Board.after game
  before : ∃ earlier, game = earlier ++ [rollout.move] ∧ Board.Undecided earlier

variable {build : Build} {moves game rest : List Vector2i} {rollout : Rollout} {drawn : Rng}

/-- The simulated game is undecided exactly when its board has no five in a row. -/
theorem Pending.undecided_iff (h : Pending game rollout) :
    Board.Undecided game ↔ ∀ player, ¬ rollout.board.FiveInRow player := by
  rw [h.board_eq]
  exact (Board.represents_after h.legal).undecided_iff

/-- The loop of a rollout goes on exactly while the simulated game is undecided. -/
theorem Pending.unfinished (h : Pending game rollout) (build : Build) :
    ∃ more, (∀ fuel, 20 ≤ fuel → unfinished fuel build rollout = .ok more) ∧
      (more = true ↔ Board.Undecided game) := by
  obtain ⟨earlier, hgame, hbefore⟩ := h.before
  have hrep := Board.represents_after h.legal
  rw [← h.board_eq] at hrep
  have hlegal := h.legal
  rw [hgame] at hrep hlegal
  obtain ⟨won, hrun, hwon⟩ := hrep.didWin hlegal hbefore build
  refine ⟨!won, fun fuel hfuel => ?_, ?_⟩
  · rw [MonteCarloActor.unfinished, hrun fuel hfuel]
    rfl
  · rw [Bool.not_eq_true', Board.eq_false_iff_undecided hwon, ← hgame]

/-- A board after fewer than 361 legal moves has an empty field. -/
theorem exists_empty (hlegal : Legal game) (hlength : game.length < 361) :
    ∃ position, Board.Inside position ∧ (Board.after game).owner position = .none := by
  by_contra hnone
  push Not at hnone
  have hfull := (Board.full_after_iff hlegal).mp hnone
  omega

/-- A move on an empty field of an undecided game leads to the condition of the loop. -/
theorem Pending.next (build : Build) (h : Legal game) (hundecided : Board.Undecided game)
    {move : Vector2i} (hmove : Board.Inside move)
    (hempty : (Board.after game).owner move = .none) (rng : Rng) :
    (Board.after game).applyMove build move = .ok (Board.after (game ++ [move])) ∧
      Pending (game ++ [move]) ⟨Board.after (game ++ [move]), move, rng⟩ := by
  have hrep := Board.represents_after h
  have hnew := (hrep.owner_eq_none_iff move).mp hempty
  refine ⟨?_, legal_append_iff.mpr ⟨h, hmove, hnew⟩, rfl, game, rfl, hundecided⟩
  rw [Board.after_append]
  exact hrep.applyMove build hmove hnew

/-- While the game is undecided and the board not full, a sampled move leads to the condition of
the loop. -/
theorem Pending.sampleMove (h : Pending game rollout) (hundecided : Board.Undecided game)
    (hlength : game.length < 361) (build : Build) :
    ∃ move next, sampleMove build rollout = .ok next ∧ Pending (game ++ [move]) next := by
  obtain ⟨move, hsample, hmove, hempty⟩ := Board.uniformlySampleLegalMove_of_exists
    (exists_empty h.legal hlength) build rollout.rng
  obtain ⟨happly, hpending⟩ := Pending.next build h.legal hundecided hmove hempty
    rollout.rng.tail.tail
  refine ⟨move, _, ?_, hpending⟩
  simp only [MonteCarloActor.sampleMove, h.board_eq, hsample, ok_bind, happly, pure_eq_ok]

/-- Every way to fill the board with legal moves after `moves` is decided. -/
def AlwaysDecided (moves : List Vector2i) : Prop :=
  ∀ later, Legal (moves ++ later) → (moves ++ later).length = 361 →
    ¬ Board.Undecided (moves ++ later)

/-- If the board cannot be filled without five in a row, the loop of a rollout ends. -/
theorem rollout_total (hdecided : AlwaysDecided moves) (build : Build) {later : List Vector2i}
    (h : Pending (moves ++ later) rollout) :
    ∃ final, ∀ fuel, 362 ≤ fuel →
      whileLoop (unfinished fuel build) (sampleMove build) fuel rollout = .ok final := by
  obtain ⟨final, hrun, _⟩ := whileLoop_total
    (fun fuel rollout => unfinished fuel build rollout)
    (fun _ rollout => sampleMove build rollout) 20
    (fun rollout => ∃ later, Pending (moves ++ later) rollout)
    (fun rollout => ∀ player, ¬ rollout.board.FiveInRow player)
    (fun rollout => 361 - rollout.board.movesMade.toNat)
    (by
      intro rollout hpending
      obtain ⟨later, hpending⟩ := hpending
      obtain ⟨more, hmore, hiff⟩ := hpending.unfinished build
      exact ⟨more, hmore, hiff.trans hpending.undecided_iff⟩)
    (by
      intro rollout hpending hgoing
      obtain ⟨later, hpending⟩ := hpending
      have hundecided := hpending.undecided_iff.mpr hgoing
      -- an undecided game does not fill the board
      have hlength : (moves ++ later).length < 361 := by
        have hle := Board.length_le_of_legal hpending.legal
        have hne : (moves ++ later).length ≠ 361 :=
          fun heq => hdecided later hpending.legal heq hundecided
        omega
      obtain ⟨move, next, hsample, hnext⟩ := hpending.sampleMove hundecided hlength build
      rw [List.append_assoc] at hnext
      refine ⟨next, fun _ _ => hsample, ⟨_, hnext⟩, ?_⟩
      have hcount := (Board.represents_after hpending.legal).movesMade_eq
      have hcount' := (Board.represents_after hnext.legal).movesMade_eq
      rw [← hpending.board_eq] at hcount
      rw [← hnext.board_eq, ← List.append_assoc, List.length_append, List.length_singleton]
        at hcount'
      omega)
    ⟨later, h⟩
  refine ⟨final, fun fuel hfuel => hrun fuel fuel (by omega) (by omega)⟩

/-- A rollout that fills the board without five in a row is fatal. -/
theorem rollout_fatal (build : Build) (h : Pending game rollout) (hlegal : Legal (game ++ rest))
    (hundecided : Board.Undecided (game ++ rest)) (hlength : (game ++ rest).length = 361)
    (hdraws : rollout.rng = Board.draws rest drawn) {fuel limit : Nat} (hfuel : 20 ≤ fuel)
    (hlimit : rest.length < limit) :
    whileLoop (unfinished fuel build) (sampleMove build) limit rollout =
      .error (.fatal "All legal moves exhausted") := by
  induction rest generalizing game rollout limit with
  | nil =>
      obtain ⟨limit, rfl⟩ : ∃ n, limit = n + 1 := ⟨limit - 1, by omega⟩
      rw [List.append_nil] at hlength hundecided
      obtain ⟨more, hmore, hiff⟩ := h.unfinished build
      have htest := hmore fuel hfuel
      rw [hiff.mpr hundecided] at htest
      have hfull := (Board.full_after_iff h.legal).mpr hlength
      rw [whileLoop_of_true htest, sampleMove, h.board_eq,
        Board.uniformlySampleLegalMove_of_full hfull]
      rfl
  | cons move rest ih =>
      obtain ⟨limit, rfl⟩ : ∃ n, limit = n + 1 := ⟨limit - 1, by omega⟩
      have hsplit : game ++ move :: rest = (game ++ [move]) ++ rest := by simp
      rw [hsplit] at hlegal hundecided hlength
      have hgame : Board.Undecided game := hundecided.of_append.of_append
      obtain ⟨more, hmore, hiff⟩ := h.unfinished build
      have htest := hmore fuel hfuel
      rw [hiff.mpr hgame] at htest
      obtain ⟨hearlier, hmove, hnew⟩ := legal_append_iff.mp hlegal.of_append
      have hempty := ((Board.represents_after hearlier).owner_eq_none_iff move).mpr hnew
      obtain ⟨happly, hpending⟩ :=
        Pending.next build hearlier hgame hmove hempty (Board.draws rest drawn)
      have hsample : sampleMove build rollout =
          .ok ⟨Board.after (game ++ [move]), move, Board.draws rest drawn⟩ := by
        rw [sampleMove, hdraws, h.board_eq, Board.draws, List.foldr_cons,
          Board.uniformlySampleLegalMove_push build hmove hempty, ok_bind]
        show (Board.after game).applyMove build move >>= _ = _
        rw [happly]
        rfl
      rw [whileLoop_of_true htest, hsample, ok_bind]
      exact ih hpending hlegal hundecided hlength rfl (by simpa using hlimit)

/-! ## Simulated games -/

/-- The legal moves of the exploring move are the empty fields. -/
theorem sample_empty (sampler : SoftmaxSampler) (winProb : FeatureMatrix Rat) (rng : Rng)
    {board : Board} (hempty : ∃ position, Board.Inside position ∧ board.owner position = .none) :
    ∃ field : Field, (sampler.sample winProb
        (fun field => if board.owner field.position = .none then 1 else 0) 1 rng).1 =
          field.position ∧ board.owner field.position = .none := by
  obtain ⟨position, hposition, howner⟩ := hempty
  obtain ⟨marked, rfl⟩ := Field.exists_position hposition
  obtain ⟨field, hfield, hlegal⟩ := sampler.sample_legal winProb
    (fun field => if board.owner field.position = .none then 1 else 0) 1 rng
    ⟨marked, by simp [howner]⟩
  refine ⟨field, hfield, ?_⟩
  by_contra hnot
  simp [hnot] at hlegal

/-- If the board cannot be filled without five in a row, every simulated game ends. -/
theorem explore_total (hlegal : Legal moves) (hundecided : Board.Undecided moves)
    (hempty : ∃ position, Board.Inside position ∧ (Board.after moves).owner position = .none)
    (hdecided : AlwaysDecided moves) (build : Build) (sampler : SoftmaxSampler)
    (winProb : FeatureMatrix Rat) (rng : Rng) :
    ∃ outcome, Returns (fun fuel => explore fuel build sampler.sample (Board.after moves) winProb
      rng) outcome := by
  obtain ⟨field, hfield, hfree⟩ := sample_empty sampler winProb rng hempty
  obtain ⟨happly, hpending⟩ := Pending.next build hlegal hundecided field.inside_position hfree
    (sampler.sample winProb
      (fun field => if (Board.after moves).owner field.position = .none then 1 else 0) 1 rng).2
  obtain ⟨final, hrun⟩ := rollout_total hdecided build hpending
  refine ⟨(field.position, final), 362, fun fuel hfuel => ?_⟩
  simp only [explore, stoneMatrix_eq, ok_bind, hfield, happly, hrun fuel hfuel, pure_eq_ok]

/-- A sampler that returns the chosen field whenever it is legal. -/
def preferring (choice : Field) : SoftmaxSampler where
  sample := fun _ legalMoves _ rng =>
    ((((choice :: Board.allFields).find? fun field =>
      decide (legalMoves field ≠ 0)).getD choice).position, rng)
  sample_legal := by
    intro winProb legalMoves temperature rng hlegal
    obtain ⟨marked, hmarked⟩ := hlegal
    cases hfound : (choice :: Board.allFields).find? fun field =>
        decide (legalMoves field ≠ 0) with
    | none =>
        rw [List.find?_eq_none] at hfound
        have hnot := hfound marked (by simp [Board.mem_allFields])
        simp [hmarked] at hnot
    | some field =>
        have hfield := List.find?_some hfound
        exact ⟨field, rfl, by simpa using hfield⟩

/-- Some simulated game is fatal if the board can be filled without five in a row. -/
theorem explore_fatal (hundecided : Board.Undecided moves) (build : Build) {choice : Field}
    (hlegal : Legal (moves ++ choice.position :: rest))
    (hdrawn : Board.Undecided (moves ++ choice.position :: rest))
    (hlength : (moves ++ choice.position :: rest).length = 361) (winProb : FeatureMatrix Rat)
    (drawn : Rng) {fuel : Nat} (hfuel : 362 ≤ fuel) :
    explore fuel build (preferring choice).sample (Board.after moves) winProb
      (Board.draws rest drawn) = .error (.fatal "All legal moves exhausted") := by
  have hsplit : moves ++ choice.position :: rest = (moves ++ [choice.position]) ++ rest := by simp
  rw [hsplit] at hlegal hdrawn hlength
  obtain ⟨hmoves, hmove, hnew⟩ := legal_append_iff.mp hlegal.of_append
  have hempty := ((Board.represents_after hmoves).owner_eq_none_iff choice.position).mpr hnew
  obtain ⟨happly, hpending⟩ := Pending.next build hmoves hundecided hmove hempty
    (Board.draws rest drawn)
  have hlimit : rest.length < fuel := by
    rw [List.length_append] at hlength
    omega
  have hrun := rollout_fatal build hpending hlegal hdrawn hlength rfl (by omega : 20 ≤ fuel) hlimit
  have hsample : (preferring choice).sample winProb
      (fun field => if (Board.after moves).owner field.position = .none then 1 else 0) 1
        (Board.draws rest drawn) = (choice.position, Board.draws rest drawn) := by
    simp [preferring, hempty]
  simp only [explore, stoneMatrix_eq, ok_bind, hsample, happly, hrun, error_bind]

/-- Not every rollout returns if the board can be filled without five in a row: the sampler
explores the first of these moves and the draws give the others. -/
theorem not_rolloutsReturn (hundecided : Board.Undecided moves) (build : Build) {choice : Field}
    (hlegal : Legal (moves ++ choice.position :: rest))
    (hdrawn : Board.Undecided (moves ++ choice.position :: rest))
    (hlength : (moves ++ choice.position :: rest).length = 361) :
    ¬ RolloutsReturn build (Board.after moves) := by
  intro hreturn
  obtain ⟨outcome, bound, hrun⟩ := hreturn mcLinearCell (preferring choice)
    (Board.draws rest ⟨fun _ => 0⟩) (fun _ => false) _ .start rfl
  have hok := hrun (max bound 362) (Nat.le_max_left bound 362)
  have hfatal := explore_fatal hundecided build hlegal hdrawn hlength
    (mcLinearCell.winProb (startSearch mcLinearCell (Board.draws rest ⟨fun _ => 0⟩)).cellState)
    ⟨fun _ => 0⟩ (Nat.le_max_right bound 362)
  exact absurd (hfatal.symm.trans hok) (by simp)

/-- For a board reached by legal moves, without five in a row and with an empty field: every
rollout of every search from it returns exactly when every way to fill the board with legal
moves makes five in a row. -/
theorem rollouts_return_iff (build : Build) (moves : List Vector2i) (board : Board)
    (hlegal : Legal moves) (hreplay : Board.replay build moves = .ok board)
    (hnofive : ∀ player, ¬ board.FiveInRow player)
    (hempty : ∃ position, Board.Inside position ∧ board.owner position = .none) :
    RolloutsReturn build board ↔
      ∀ later final, Legal (moves ++ later) →
        Board.replay build (moves ++ later) = .ok final →
        (∀ position, Board.Inside position → final.owner position ≠ .none) →
        ∃ player, final.FiveInRow player := by
  obtain rfl := Board.eq_after_of_replay hlegal hreplay
  have hundecided := (Board.represents_after hlegal).undecided_iff.mpr hnofive
  constructor
  · intro hreturn later final hlegal' hreplay' hfull
    obtain rfl := Board.eq_after_of_replay hlegal' hreplay'
    by_contra hnone
    have hdrawn := (Board.represents_after hlegal').undecided_iff.mpr (not_exists.mp hnone)
    cases later with
    | nil =>
        obtain ⟨position, hposition, howner⟩ := hempty
        rw [List.append_nil] at hfull
        exact hfull position hposition howner
    | cons move rest =>
        obtain ⟨choice, rfl⟩ := Field.exists_position (hlegal'.inside move (by simp))
        exact not_rolloutsReturn hundecided build hlegal' hdrawn
          ((Board.full_after_iff hlegal').mp hfull) hreturn
  · intro hall cell sampler rng stopSignal search _ _
    apply explore_total hlegal hundecided hempty
    intro later hlegal' hlength hdrawn
    obtain ⟨player, hfive⟩ := hall later _ hlegal' (Board.replay_eq_after build hlegal').1
      ((Board.full_after_iff hlegal').mpr hlength)
    exact (Board.represents_after hlegal').undecided_iff.mp hdrawn player hfive

/-- A pair of FIRST in the first corner, and the gap before the last field of FIRST in its row. -/
def movedFields : List Vector2i := [⟨0, 0⟩, ⟨1, 0⟩, ⟨16, 17⟩, ⟨17, 17⟩]

/-- The stripes, with the pair moved into the gap. -/
def movedStripes (position : Vector2i) : Bool :=
  if position ∈ movedFields then !Board.stripes position else Board.stripes position

theorem balance_movedStripes : (Board.coloured movedStripes).length = 181 := by decide +kernel

theorem split_movedStripes :
    Board.colouring movedStripes = (Board.colouring movedStripes).take 360 ++ [⟨18, 17⟩] := by
  have hlength := Board.length_colouring movedStripes
  have hlast : (Board.colouring movedStripes)[360]? = some ⟨18, 17⟩ := by decide +kernel
  obtain ⟨hbound, hlast⟩ := List.getElem?_eq_some_iff.mp hlast
  rw [← hlast, List.take_append_getElem hbound, List.take_of_length_le (by omega)]

/-- Every window without the last field has both colours. -/
theorem mixed_movedStripes (start : Vector2i) (line : Line) :
    ∃ j : Fin 5, ¬ Board.Inside (start + (j : Int) * line.step) ∨
      start + (j : Int) * line.step = ⟨18, 17⟩ ∨
      movedStripes (start + (j : Int) * line.step) ≠ movedStripes start := by
  by_cases hmoved : ∃ i : Fin 5, start + (i : Int) * line.step ∈ movedFields
  · -- the windows through the moved fields
    have hnear : ∀ field ∈ movedFields, ∀ (line : Line) (i : Fin 5), ∃ j : Fin 5,
        ¬ Board.Inside (field + ((j : Int) - (i : Int)) * line.step) ∨
          field + ((j : Int) - (i : Int)) * line.step = ⟨18, 17⟩ ∨
          movedStripes (field + ((j : Int) - (i : Int)) * line.step) ≠
            movedStripes (field + ((0 : Int) - (i : Int)) * line.step) := by
      decide +kernel
    obtain ⟨i, hi⟩ := hmoved
    obtain ⟨j, hj⟩ := hnear _ hi line i
    have hshift : ∀ n : Int, start + (i : Int) * line.step + (n - (i : Int)) * line.step =
        start + n * line.step := by
      intro n
      apply Vector2i.ext <;> simp [sub_mul, add_assoc]
    have hzero : start + (0 : Int) * line.step = start := by apply Vector2i.ext <;> simp
    rw [hshift, hshift, hzero] at hj
    exact ⟨j, hj⟩
  · have hsame : ∀ position ∈ window start line, movedStripes position = Board.stripes position := by
      intro position hposition
      obtain ⟨i, hi, rfl⟩ := hposition
      exact if_neg fun hmem => hmoved ⟨⟨i, hi⟩, hmem⟩
    obtain ⟨p, hp, q, hq, hcolour, hcolour'⟩ := Board.mixed_stripes start line
    rw [← hsame p hp] at hcolour
    rw [← hsame q hq] at hcolour'
    obtain ⟨i, hi, rfl⟩ := hp
    obtain ⟨j, hj, rfl⟩ := hq
    cases hstart : movedStripes start with
    | true => exact ⟨⟨j, hj⟩, Or.inr (Or.inr (by rw [hcolour']; simp))⟩
    | false => exact ⟨⟨i, hi⟩, Or.inr (Or.inr (by rw [hcolour]; simp))⟩

/-- Before the last move no player has five in a row. -/
theorem noFive_movedStripes (player : Player) :
    ¬ (Board.after ((Board.colouring movedStripes).take 360)).FiveInRow player := by
  have hgame : Legal (Board.colouring movedStripes) := Board.legal_colouring _
  have hrep := Board.represents_after (hgame.take 360)
  intro hfive
  obtain ⟨hplayer, start, line, hwindow⟩ := hfive
  have hcolour : ∀ j : Fin 5, start.position + (j : Int) * line.step ≠ ⟨18, 17⟩ ∧
      player = if movedStripes (start.position + (j : Int) * line.step) then .first else .second := by
    intro j
    obtain ⟨hinside, howner⟩ := hwindow j
    have howns := (hrep.owner_iff _ player hplayer).mp howner
    constructor
    · intro hlast
      have hnew := (legal_append_iff.mp (split_movedStripes ▸ hgame)).2.2
      exact hnew (hlast ▸ howns.mem)
    · rw [← Board.owner_colouring balance_movedStripes hinside, eq_comm,
        (Board.represents_after hgame).owner_iff _ player hplayer, split_movedStripes]
      exact howns.append [⟨18, 17⟩]
  obtain ⟨j, hout | hlast | hother⟩ := mixed_movedStripes start.position line
  · exact hout (hwindow j).1
  · exact (hcolour j).1 hlast
  · have hstart := (hcolour 0).2
    have hsame := (hcolour j).2
    have hzero : start.position + ((0 : Fin 5) : Int) * line.step = start.position := by
      apply Vector2i.ext <;> simp
    rw [hzero] at hstart
    rw [hstart] at hsame
    revert hsame hother
    cases movedStripes start.position <;>
      cases movedStripes (start.position + (j : Int) * line.step) <;> simp

/-- After it FIRST has. -/
theorem five_movedStripes : (Board.after (Board.colouring movedStripes)).FiveInRow .first := by
  have hwindow : ∀ j : Fin 5,
      Board.Inside (Field.position (14, 17) + (j : Int) * Line.horizontal.step) ∧
        movedStripes (Field.position (14, 17) + (j : Int) * Line.horizontal.step) = true := by
    decide
  refine ⟨by simp, (14, 17), .horizontal, fun j => ⟨(hwindow j).1, ?_⟩⟩
  rw [Board.owner_colouring balance_movedStripes (hwindow j).1, if_pos (hwindow j).2]

/-- From the starting board not every rollout returns. One move before the end of the game of the
moved stripes every one does: the last field completes five in a row for FIRST. -/
theorem rollouts_return_iff_moved_stripes :
    ¬ RolloutsReturn .debug Board.new ∧
      RolloutsReturn .debug (Board.after ((Board.colouring movedStripes).take 360)) := by
  constructor
  · have hstart := rollouts_return_iff .debug [] Board.new Legal.nil rfl
      (Board.Represents.new.undecided_iff.mp Board.undecided_nil)
      ⟨⟨0, 0⟩, by decide, by decide +kernel⟩
    have hlegal : Legal Board.drawnGame := Board.legal_colouring _
    rw [hstart]
    intro hall
    obtain ⟨player, hfive⟩ := hall Board.drawnGame _ hlegal
      (Board.replay_eq_after .debug hlegal).1
      ((Board.full_after_iff hlegal).mpr (Board.length_colouring _))
    exact (Board.represents_after hlegal).undecided_iff.mp Board.undecided_drawnGame player hfive
  · have hgame : Legal (Board.colouring movedStripes) := Board.legal_colouring _
    have hlegal := hgame.take 360
    have htaken : ((Board.colouring movedStripes).take 360).length = 360 := by
      rw [List.length_take, Board.length_colouring]
      rfl
    refine (rollouts_return_iff .debug _ _ hlegal (Board.replay_eq_after .debug hlegal).1
      noFive_movedStripes (exists_empty hlegal (by omega))).mpr ?_
    intro later final hlater hreplay hfull
    obtain rfl := Board.eq_after_of_replay hlater hreplay
    have hfilled := (Board.full_after_iff hlater).mp hfull
    rw [List.length_append, htaken] at hfilled
    obtain ⟨move, rfl⟩ := List.length_eq_one_iff.mp (show later.length = 1 by omega)
    obtain ⟨_, hmove, hnew⟩ := legal_append_iff.mp hlater
    -- only the last field of the game is left
    have hmem := (Board.mem_colouring_iff movedStripes).mpr hmove
    rw [split_movedStripes, List.mem_append, List.mem_singleton, or_iff_right hnew] at hmem
    rw [hmem, ← split_movedStripes]
    exact ⟨.first, five_movedStripes⟩

/-- One move before the end of the game of the stripes the board has no five in a row and an empty
field, and a rollout that takes it asks the sampler for a move on a full board. -/
theorem rollout_fatal_before_last_move :
    Legal (Board.drawnGame.take 360) ∧
      Board.replay .debug (Board.drawnGame.take 360) =
        .ok (Board.after (Board.drawnGame.take 360)) ∧
      (∀ player, ¬ (Board.after (Board.drawnGame.take 360)).FiveInRow player) ∧
      (∃ position, Board.Inside position ∧
        (Board.after (Board.drawnGame.take 360)).owner position = .none) ∧
      (∃ sampler rng, ∀ fuel, 362 ≤ fuel →
        explore fuel .debug (SoftmaxSampler.sample sampler)
            (Board.after (Board.drawnGame.take 360)) (fun _ => 1 / 2) rng =
          .error (.fatal "All legal moves exhausted")) ∧
      ¬ RolloutsReturn .debug (Board.after (Board.drawnGame.take 360)) := by
  have hgame : Legal Board.drawnGame := Board.legal_colouring _
  have hlength : Board.drawnGame.length = 361 := Board.length_colouring _
  have hsplit : Board.drawnGame =
      Board.drawnGame.take 360 ++ Board.drawnGame[360] :: [] := by
    rw [List.take_append_getElem, List.take_of_length_le (by omega)]
  have hlegal := hgame.take 360
  have hdrawn := Board.undecided_drawnGame
  obtain ⟨choice, hchoice⟩ := Field.exists_position
    (hgame.inside Board.drawnGame[360] (List.getElem_mem _))
  rw [hsplit, ← hchoice] at hgame hlength hdrawn
  have hundecided : Board.Undecided (Board.drawnGame.take 360) := hdrawn.of_append
  refine ⟨hlegal, (Board.replay_eq_after .debug hlegal).1,
    (Board.represents_after hlegal).undecided_iff.mp hundecided, ?_,
    ⟨preferring choice, ⟨fun _ => 0⟩, fun fuel hfuel => ?_⟩, ?_⟩
  · apply exists_empty hlegal
    rw [List.length_append, List.length_singleton] at hlength
    omega
  · exact explore_fatal hundecided .debug hgame hdrawn hlength (fun _ => 1 / 2) ⟨fun _ => 0⟩ hfuel
  · exact not_rolloutsReturn hundecided .debug hgame hdrawn hlength

end Gomoku.MonteCarloActor
