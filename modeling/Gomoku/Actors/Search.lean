import Gomoku.Actors.Registry
import Gomoku.Actors.Scores
import Gomoku.Actors.WinProbabilities

/-!
# The search of the Monte Carlo actor

What `MonteCarloActor::ChooseMove` computes, as a function of the stop signal and the draws. A
`Trial` is a simulated game. The estimate of a field depends on the scores of its own trials
alone, and with the linear cell it is their discounted sum (`estimates_linear`). `Explores` says
which trials a search makes: each explores the field that the sampler draws from the estimates
after the earlier ones. `ChooseMove` returns exactly what this description says
(`chooseMove_linear_iff`).

The second part is about moves that win at once: the search cannot prefer a field that it has
explored less often (`winning_field_explored`).
-/

namespace Gomoku.MonteCarloActor

open Execution Random PositionalGame Estimates

variable {build : Build} {moves : List Vector2i}

/-- Every other turn is that of the same player. -/
theorem turn_add (i n : Nat) :
    turn (i + n) = if n % 2 = 0 then turn i else (turn i).opponent := by
  induction n with
  | zero => rfl
  | succ n ih =>
      rw [← Nat.add_assoc, turn_succ, ih]
      rcases Nat.mod_two_eq_zero_or_one n with hn | hn
      · rw [if_pos hn, if_neg (by omega)]
      · rw [if_neg (by omega), if_pos (by omega), Player.opponent_opponent]

/-! ## Simulated games -/

/-- A simulated game from the position after `moves`: the explored field and the sampled moves, the
last of which makes the first five in a row. -/
structure Trial (moves : List Vector2i) where
  field : Field
  later : List Vector2i
  legal : Legal (moves ++ field.position :: later)
  before : Board.Undecided (moves ++ (field.position :: later).dropLast)
  decided : ¬ Board.Undecided (moves ++ field.position :: later)

namespace Trial

/-- The moves of the game from the start. -/
def game (trial : Trial moves) : List Vector2i := moves ++ trial.field.position :: trial.later

/-- The score of the player to move after `moves`, who makes every other move from there. -/
def score (trial : Trial moves) : Rat := if trial.later.length % 2 = 0 then 1 else 0

theorem outcome_score (trial : Trial moves) : Outcome trial.score := by
  unfold score Outcome
  split <;> simp

/-- The board after the game is the final board of a rollout. -/
theorem pending (trial : Trial moves) (rng : Rng) :
    Pending trial.game ⟨Board.after trial.game,
      (trial.field.position :: trial.later).getLast (by simp), rng⟩ := by
  refine ⟨trial.legal, rfl, moves ++ (trial.field.position :: trial.later).dropLast, ?_,
    trial.before⟩
  rw [List.append_assoc, List.dropLast_append_getLast]
  rfl

/-- The opponent of the player to move at the end won. -/
theorem opponent_after (trial : Trial moves) :
    (Board.after trial.game).currentPlayer.opponent = turn (moves.length + trial.later.length) := by
  unfold game
  rw [(Board.represents_after trial.legal).currentPlayer_eq, List.length_append,
    List.length_cons, ← Nat.add_assoc, turn_succ, Player.opponent_opponent]

/-- The score is that of the player to move after `moves`. -/
theorem score_eq (trial : Trial moves) :
    (if (Board.after trial.game).currentPlayer.opponent = turn moves.length then 1 else 0 : Rat) =
      trial.score := by
  rw [opponent_after, score, turn_add]
  have hother : (turn moves.length).opponent ≠ turn moves.length := by
    unfold turn
    split <;> simp [Player.opponent]
  by_cases heven : trial.later.length % 2 = 0
  · rw [if_pos heven, if_pos heven, if_pos rfl]
  · rw [if_neg heven, if_neg heven, if_neg hother]

/-- Exactly one player has five in a row after the game, the player to move after `moves` if the
score is 1. -/
theorem winner_iff (trial : Trial moves) (player : Player) :
    (Board.after trial.game).FiveInRow player ↔
      player = if trial.score = 1 then turn moves.length else (turn moves.length).opponent := by
  rw [(trial.pending ⟨fun _ => 0⟩).winner_iff trial.decided player]
  show player = (Board.after trial.game).currentPlayer.opponent ↔ _
  rw [opponent_after, score, turn_add]
  split <;> simp

/-- A trial of a field that wins at once ends there. -/
theorem later_of_winning (trial : Trial moves)
    (hwin : ¬ Board.Undecided (moves ++ [trial.field.position])) : trial.later = [] := by
  by_contra hne
  have hbefore := trial.before
  rw [List.dropLast_cons_of_ne_nil hne, ← List.singleton_append, ← List.append_assoc] at hbefore
  exact hwin hbefore.of_append

end Trial

variable {game : List Vector2i}

/-- The moves that the generator gives for the game after `game`, one after the other. -/
inductive Sampled (build : Build) (game : List Vector2i) (rng : Rng) :
    List Vector2i → Rng → Prop where
  | start : Sampled build game rng [] rng
  | again (later drawn move drawn') :
      Sampled build game rng later drawn →
      (Board.after (game ++ later)).uniformlySampleLegalMove build drawn = .ok (move, drawn') →
      Sampled build game rng (later ++ [move]) drawn'

/-- A sampled move is on an empty field. -/
theorem sampled_empty {drawn drawn' : Rng} {move : Vector2i} (hlegal : Legal game)
    (h : (Board.after game).uniformlySampleLegalMove build drawn = .ok (move, drawn')) :
    Board.Inside move ∧ (Board.after game).owner move = .none := by
  by_cases hlength : game.length < 361
  · obtain ⟨sampled, hsample, hmove, hempty⟩ := Board.uniformlySampleLegalMove_of_exists
      (exists_empty hlegal hlength) build drawn
    obtain ⟨rfl, _⟩ := Prod.mk.inj (Except.ok.inj (h.symm.trans hsample))
    exact ⟨hmove, hempty⟩
  · have hfull := (Board.full_after_iff hlegal).mpr (by
      have hle := Board.length_le_of_legal hlegal
      omega)
    rw [Board.uniformlySampleLegalMove_of_full hfull] at h
    cases h

/-- Any legal continuation of a game is sampled with the right draws. -/
theorem sampled_draws {later : List Vector2i} (hlegal : Legal (game ++ later)) (drawn : Rng) :
    Sampled build game (Board.draws later drawn) later drawn := by
  induction later using List.reverseRecOn generalizing drawn with
  | nil => exact .start
  | append_singleton later move ih =>
      rw [← List.append_assoc] at hlegal
      obtain ⟨hearlier, hmove, hnew⟩ := legal_append_iff.mp hlegal
      have hempty := ((Board.represents_after hearlier).owner_eq_none_iff move).mpr hnew
      rw [Board.draws_concat]
      exact .again later _ move drawn (ih hearlier _)
        (Board.uniformlySampleLegalMove_push build hmove hempty drawn)

/-- A pass of the loop of a rollout makes a sampled move. -/
theorem sampleMove_iff {first : Vector2i} {drawn : Rng} {next : Rollout} (hlegal : Legal game) :
    sampleMove build ⟨Board.after game, first, drawn⟩ = .ok next ↔
      ∃ move drawn', (Board.after game).uniformlySampleLegalMove build drawn = .ok (move, drawn') ∧
        next = ⟨Board.after (game ++ [move]), move, drawn'⟩ := by
  unfold sampleMove
  rw [bind_eq_ok]
  constructor
  · intro h
    obtain ⟨⟨move, drawn'⟩, hsample, h⟩ := h
    obtain ⟨hmove, hempty⟩ := sampled_empty hlegal hsample
    obtain ⟨board, happly, h⟩ := bind_eq_ok.mp h
    obtain ⟨_, _, rfl⟩ := (Board.applyMove_eq_ok hmove).mp happly
    obtain rfl := Except.ok.inj h
    exact ⟨move, drawn', hsample, by rw [Board.after_append]⟩
  · intro h
    obtain ⟨move, drawn', hsample, rfl⟩ := h
    obtain ⟨hmove, hempty⟩ := sampled_empty hlegal hsample
    have hrep := Board.represents_after hlegal
    have happly := hrep.applyMove build hmove ((hrep.owner_eq_none_iff move).mp hempty)
    refine ⟨(move, drawn'), hsample, ?_⟩
    show (Board.after game).applyMove build move >>= _ = _
    rw [happly, Board.after_append]
    rfl

/-- What a rollout that returns has sampled. -/
theorem rollout_sampled {first : Vector2i} {rng : Rng} {final : Rollout} {fuel limit : Nat}
    (hpending : Pending game ⟨Board.after game, first, rng⟩) (hfuel : 20 ≤ fuel)
    (hrun : whileLoop (unfinished fuel build) (sampleMove build) limit
      ⟨Board.after game, first, rng⟩ = .ok final) :
    ∃ later, Sampled build game rng later final.rng ∧ Pending (game ++ later) final ∧
      ¬ Board.Undecided (game ++ later) := by
  obtain ⟨later, hsampled, hfinal⟩ := whileLoop_preserves
    (fun rollout => ∃ later, Sampled build game rng later rollout.rng ∧
      Pending (game ++ later) rollout)
    (by
      intro rollout next hrollout htest hnext
      obtain ⟨later, hsampled, hrollout⟩ := hrollout
      obtain ⟨more, hmore, hiff⟩ := hrollout.unfinished build
      obtain rfl := Except.ok.inj ((hmore fuel hfuel).symm.trans htest)
      obtain ⟨board, last, drawn⟩ := rollout
      obtain rfl : board = Board.after (game ++ later) := hrollout.board_eq
      obtain ⟨move, drawn', hsample, rfl⟩ := (sampleMove_iff hrollout.legal).mp hnext
      obtain ⟨hmove, hempty⟩ := sampled_empty hrollout.legal hsample
      obtain ⟨_, hpending⟩ := Pending.next build hrollout.legal (hiff.mp rfl) hmove hempty drawn'
      exact ⟨later ++ [move], .again _ _ _ _ hsampled hsample, by rwa [← List.append_assoc]⟩)
    ⟨[], .start, by rwa [List.append_nil]⟩ hrun
  obtain ⟨more, hmore, hiff⟩ := hfinal.unfinished build
  obtain rfl := Except.ok.inj ((hmore fuel hfuel).symm.trans (whileLoop_test_final hrun))
  exact ⟨later, hsampled, hfinal, fun hundecided => Bool.false_ne_true (hiff.mpr hundecided)⟩

/-- A rollout makes the sampled moves as long as they leave the game undecided. -/
theorem Sampled.rollout {rng drawn : Rng} {later : List Vector2i}
    (h : Sampled build game rng later drawn) {first : Vector2i}
    (hpending : Pending game ⟨Board.after game, first, rng⟩)
    (hbefore : later ≠ [] → Board.Undecided (game ++ later.dropLast)) :
    ∃ last, Pending (game ++ later) ⟨Board.after (game ++ later), last, drawn⟩ ∧
      ∀ fuel limit, 20 ≤ fuel →
        whileLoop (unfinished fuel build) (sampleMove build) (limit + later.length)
            ⟨Board.after game, first, rng⟩ =
          whileLoop (unfinished fuel build) (sampleMove build) limit
            ⟨Board.after (game ++ later), last, drawn⟩ := by
  induction h with
  | start => exact ⟨first, by rwa [List.append_nil], fun fuel limit _ => by rw [List.append_nil]; rfl⟩
  | again later drawn move drawn' _ hsample ih =>
      have hundecided := hbefore (by simp)
      rw [List.dropLast_concat] at hundecided
      obtain ⟨last, hlast, hrun⟩ := ih fun hne => by
        rw [← List.dropLast_append_getLast hne, ← List.append_assoc] at hundecided
        exact hundecided.of_append
      obtain ⟨hmove, hempty⟩ := sampled_empty hlast.legal hsample
      obtain ⟨_, hnext⟩ := Pending.next build hlast.legal hundecided hmove hempty drawn'
      rw [List.append_assoc] at hnext
      refine ⟨move, hnext, fun fuel limit hfuel => ?_⟩
      obtain ⟨more, hmore, hiff⟩ := hlast.unfinished build
      obtain rfl := hiff.mpr hundecided
      have hpass : sampleMove build ⟨Board.after (game ++ later), last, drawn⟩ = _ :=
        (sampleMove_iff hlast.legal).mpr ⟨move, drawn', hsample, rfl⟩
      have hlength : limit + (later ++ [move]).length = limit + 1 + later.length := by
        rw [List.length_append, List.length_singleton]
        omega
      rw [hlength, hrun fuel (limit + 1) hfuel, whileLoop_of_true (hmore fuel hfuel), hpass, ok_bind,
        List.append_assoc]

/-! ## Estimates -/

/-- The scores of the trials of a field. -/
def scoresAt (trials : List (Trial moves)) (field : Field) : List Rat :=
  (trials.filter fun trial => trial.field = field).map Trial.score

/-- The estimates after some trials, each of which changes that of its own field. -/
def estimates (next : Rat → Rat → Rat → Rat) (trials : List (Trial moves)) : FeatureMatrix Rat :=
  fun field => (scoresAt trials field).foldl (fun value score => next (1 / 1000) score value) (1 / 2)

theorem scoresAt_concat (trials : List (Trial moves)) (trial : Trial moves) (field : Field) :
    scoresAt (trials ++ [trial]) field =
      scoresAt trials field ++ if trial.field = field then [trial.score] else [] := by
  unfold scoresAt
  by_cases hfield : trial.field = field <;> simp [List.filter_append, hfield]

theorem estimates_concat (next : Rat → Rat → Rat → Rat) (trials : List (Trial moves))
    (trial : Trial moves) :
    estimates next (trials ++ [trial]) = Function.update (estimates next trials) trial.field
      (next (1 / 1000) trial.score (estimates next trials trial.field)) := by
  funext field
  unfold estimates
  rw [scoresAt_concat]
  by_cases hfield : trial.field = field
  · subst hfield
    rw [if_pos rfl, List.foldl_concat, Function.update_self]
  · rw [if_neg hfield, List.append_nil, Function.update_of_ne (Ne.symm hfield)]

/-- With the linear cell the estimate of a field is the discounted sum of the scores of its own
trials. -/
theorem estimates_linear (trials : List (Trial moves)) (field : Field) :
    estimates linearStep trials field = discounted (1 / 1000) (1 / 2) (scoresAt trials field) :=
  foldl_linearStep _ _ _

theorem outcome_of_mem_scoresAt {trials : List (Trial moves)} {field : Field} {score : Rat}
    (h : score ∈ scoresAt trials field) : Outcome score := by
  obtain ⟨trial, _, rfl⟩ := List.mem_map.mp h
  exact trial.outcome_score

theorem proper_rate : Proper (1 / 1000 : Rat) := by
  unfold Proper
  norm_num

/-- The linear cell has proper estimates. -/
theorem proper_estimates (trials : List (Trial moves)) (field : Field) :
    Proper (estimates linearStep trials field) := by
  rw [estimates_linear]
  refine discounted_mem proper_rate ?_ _ fun score hscore => outcome_of_mem_scoresAt hscore
  unfold Proper
  norm_num

/-! ## The search -/

/-- The ones are at the empty fields. -/
def emptyFields (moves : List Vector2i) : FeatureMatrix Rat :=
  fun field => if (Board.after moves).owner field.position = .none then 1 else 0

/-- The trials of a search, in order, and the generator after them: each trial explores the field
that the sampler draws from the estimates after the earlier ones, and its other moves are sampled. -/
inductive Explores (build : Build) (next : Rat → Rat → Rat → Rat) (sample : SampleSoftmax)
    (moves : List Vector2i) (rng : Rng) : List (Trial moves) → Rng → Prop where
  | start : Explores build next sample moves rng [] rng
  | again (trials drawn trial explored drawn') :
      Explores build next sample moves rng trials drawn →
      sample (estimates next trials) (emptyFields moves) 1 drawn =
        (trial.field.position, explored) →
      Sampled build (moves ++ [trial.field.position]) explored trial.later drawn' →
      Explores build next sample moves rng (trials ++ [trial]) drawn'

variable {next : Rat → Rat → Rat → Rat} {sample : SampleSoftmax} {rng drawn : Rng}
  {trials : List (Trial moves)} {trial : Trial moves} {winProb : FeatureMatrix Rat} {fuel : Nat}

/-- A simulated game after the draw of the exploring move. -/
theorem explore_of_draw {move : Vector2i} {explored : Rng}
    (hdraw : sample winProb (emptyFields moves) 1 rng = (move, explored)) :
    explore fuel build sample (Board.after moves) winProb rng =
      ((Board.after moves).applyMove build move >>= fun next =>
        whileLoop (unfinished fuel build) (sampleMove build) fuel ⟨next, move, explored⟩ >>=
          fun final => .ok (move, final)) := by
  unfold emptyFields at hdraw
  simp only [explore, stoneMatrix_eq, ok_bind, hdraw, pure_eq_ok]

/-- A simulated game that returns is a trial. -/
theorem exists_trial (hlegal : Legal moves) (hundecided : Board.Undecided moves)
    (hinside : ∀ winProb legalMoves temperature rng,
      Board.Inside (sample winProb legalMoves temperature rng).1)
    {exploringMove : Vector2i} {final : Rollout} (hfuel : 20 ≤ fuel)
    (hrun : explore fuel build sample (Board.after moves) winProb rng =
      .ok (exploringMove, final)) :
    ∃ (trial : Trial moves) (explored : Rng), exploringMove = trial.field.position ∧
      sample winProb (emptyFields moves) 1 rng = (trial.field.position, explored) ∧
      Sampled build (moves ++ [trial.field.position]) explored trial.later final.rng ∧
      final.board = Board.after trial.game := by
  have hmove := hinside winProb (emptyFields moves) 1 rng
  obtain ⟨⟨move, explored⟩, hdraw⟩ : ∃ drawn, sample winProb (emptyFields moves) 1 rng = drawn :=
    ⟨_, rfl⟩
  rw [explore_of_draw hdraw] at hrun
  rw [hdraw] at hmove
  obtain ⟨field, rfl⟩ := Field.exists_position hmove
  obtain ⟨board, happly, hrun⟩ := bind_eq_ok.mp hrun
  obtain ⟨rolled, hloop, hrun⟩ := bind_eq_ok.mp hrun
  obtain ⟨rfl, rfl⟩ := Prod.mk.inj (Except.ok.inj hrun)
  obtain ⟨hempty, _, rfl⟩ := (Board.applyMove_eq_ok hmove).mp happly
  obtain ⟨_, hpending⟩ := Pending.next build hlegal hundecided hmove hempty explored
  rw [← Board.after_append] at hloop
  obtain ⟨later, hsampled, hfinal, hdecided⟩ := rollout_sampled hpending hfuel hloop
  rw [List.append_assoc, List.singleton_append] at hfinal hdecided
  obtain ⟨earlier, hgame, hbefore⟩ := hfinal.before
  have hearlier : moves ++ (field.position :: later).dropLast = earlier := by
    rw [← List.dropLast_append_of_ne_nil (List.cons_ne_nil _ _), hgame, List.dropLast_concat]
  exact ⟨⟨field, later, hfinal.legal, hearlier ▸ hbefore, hdecided⟩, explored, rfl, hdraw,
    hsampled, hfinal.board_eq⟩

/-- A trial is a simulated game that returns. -/
theorem Trial.explore (trial : Trial moves) {explored : Rng}
    (hdraw : sample winProb (emptyFields moves) 1 rng = (trial.field.position, explored))
    (hsampled : Sampled build (moves ++ [trial.field.position]) explored trial.later drawn) :
    ∃ last, ∀ fuel, 362 ≤ fuel → MonteCarloActor.explore fuel build sample (Board.after moves)
      winProb rng = .ok (trial.field.position, ⟨Board.after trial.game, last, drawn⟩) := by
  have hsplit : moves ++ trial.field.position :: trial.later =
      (moves ++ [trial.field.position]) ++ trial.later := by simp
  have hlegal := trial.legal
  have hdecided := trial.decided
  rw [hsplit] at hlegal hdecided
  obtain ⟨hmoves, hmove, hnew⟩ := legal_append_iff.mp hlegal.of_append
  have hempty := ((Board.represents_after hmoves).owner_eq_none_iff _).mpr hnew
  have hundecided : Board.Undecided moves := trial.before.of_append
  obtain ⟨happly, hpending⟩ := Pending.next build hmoves hundecided hmove hempty explored
  obtain ⟨last, hlast, hrun⟩ := hsampled.rollout hpending (by
    intro hne
    have hbefore := trial.before
    rw [List.dropLast_cons_of_ne_nil hne] at hbefore
    simpa using hbefore)
  have hlength := Board.length_le_of_legal hlegal
  rw [List.length_append] at hlength
  obtain ⟨more, hmore, hiff⟩ := hlast.unfinished build
  obtain rfl : more = false := by
    cases more with
    | false => rfl
    | true => exact absurd (hiff.mp rfl) hdecided
  refine ⟨last, fun fuel hfuel => ?_⟩
  obtain ⟨limit, hlimit⟩ : ∃ limit, fuel = limit + 1 + trial.later.length :=
    ⟨fuel - 1 - trial.later.length, by omega⟩
  have hloop := hrun fuel (limit + 1) (by omega)
  rw [whileLoop_of_false (hmore fuel (by omega)), ← hlimit] at hloop
  rw [explore_of_draw hdraw, happly, ok_bind, hloop, ok_bind, ← hsplit]
  rfl

/-- The variables of the loop of `ChooseMove` after some trials. -/
def searchAfter (next : Rat → Rat → Rat → Rat) (trials : List (Trial moves)) (rng : Rng) :
    Search (mcCell next) :=
  ⟨(mcCell next).create (estimates next trials) (1 / 1000), rng, trials.length⟩

theorem startSearch_eq (next : Rat → Rat → Rat → Rat) (moves : List Vector2i) (rng : Rng) :
    startSearch (mcCell next) rng = searchAfter next ([] : List (Trial moves)) rng := rfl

/-- The end of a pass: the cell is updated with the score of the trial. -/
theorem simulate_of_explore {last : Vector2i} (hlegal : Legal moves)
    (hrun : explore fuel build sample (Board.after moves) (estimates next trials) rng =
      .ok (trial.field.position, ⟨Board.after trial.game, last, drawn⟩)) :
    simulate fuel build (mcCell next) sample (Board.after moves) (searchAfter next trials rng) =
      .ok (searchAfter next (trials ++ [trial]) drawn) := by
  have hplayer : (Board.after trial.game).currentPlayer ≠ .none :=
    (Board.represents_after trial.legal).currentPlayer_ne_none
  have hcurrent := (Board.represents_after hlegal).currentPlayer_eq
  have hscore := trial.score_eq
  rw [← hcurrent] at hscore
  have hupdate := mcCell_update next (estimates next trials) (1 / 1000) trial.field trial.score
  rw [← estimates_concat] at hupdate
  unfold simulate
  rw [show (mcCell next).winProb (searchAfter next trials rng).cellState = estimates next trials
    from rfl, show (searchAfter next trials rng).rng = rng from rfl, hrun, ok_bind]
  simp only [kOpponent_get hplayer, ok_bind, hscore]
  rw [show (searchAfter next trials rng).cellState =
    (mcCell next).create (estimates next trials) (1 / 1000) from rfl, hupdate, ok_bind]
  simp [searchAfter]

variable {signal : StopSignal}

/-- The stop signal lets a search make some number of simulations. -/
def Stops (signal : StopSignal) (count : Nat) : Prop :=
  (∀ k < count, signal k = false) ∧ signal count = true

theorem Stops.unique {count count' : Nat} (h : Stops signal count) (h' : Stops signal count') :
    count = count' := by
  rcases Nat.lt_trichotomy count count' with hlt | heq | hgt
  · exact absurd h.2 (by rw [h'.1 count hlt]; exact Bool.false_ne_true)
  · exact heq
  · exact absurd h'.2 (by rw [h.1 count' hgt]; exact Bool.false_ne_true)

/-- The loop of `ChooseMove` makes the trials of a search and stops when the signal says so. -/
theorem explores_of_search (hlegal : Legal moves) (hundecided : Board.Undecided moves)
    (hinside : ∀ winProb legalMoves temperature rng,
      Board.Inside (sample winProb legalMoves temperature rng).1) (hfuel : 20 ≤ fuel)
    {final : Search (mcCell next)}
    (hrun : search fuel build (mcCell next) sample ⟨Board.after moves, rng⟩ signal = .ok final) :
    ∃ (trials : List (Trial moves)) (drawn : Rng), Explores build next sample moves rng trials drawn ∧
      final = searchAfter next trials drawn ∧ Stops signal trials.length := by
  obtain ⟨trials, drawn, hexplores, rfl, hsignal⟩ := whileLoop_preserves
    (fun state => ∃ (trials : List (Trial moves)) (drawn : Rng),
      Explores build next sample moves rng trials drawn ∧
        state = searchAfter next trials drawn ∧ ∀ k < trials.length, signal k = false)
    (by
      intro state state' hstate htest hnext
      obtain ⟨trials, drawn, hexplores, rfl, hsignal⟩ := hstate
      have hgoing : signal trials.length = false := by
        have hnot : (!signal trials.length) = true := Except.ok.inj htest
        simpa using hnot
      obtain ⟨⟨exploringMove, final⟩, hexplore, _⟩ := bind_eq_ok.mp hnext
      obtain ⟨trial, explored, rfl, hdraw, hsampled, hboard⟩ :=
        exists_trial hlegal hundecided hinside hfuel hexplore
      obtain ⟨board, last, drawn'⟩ := final
      obtain rfl : board = Board.after trial.game := hboard
      have hpass : simulate fuel build (mcCell next) sample (Board.after moves)
          (searchAfter next trials drawn) = .ok (searchAfter next (trials ++ [trial]) drawn') :=
        simulate_of_explore hlegal hexplore
      refine ⟨trials ++ [trial], drawn', .again _ _ _ _ _ hexplores hdraw hsampled,
        Except.ok.inj (hnext.symm.trans hpass), fun k hk => ?_⟩
      rw [List.length_append, List.length_singleton] at hk
      rcases Nat.lt_succ_iff_lt_or_eq.mp hk with hk | rfl
      · exact hsignal k hk
      · exact hgoing)
    ⟨[], rng, .start, startSearch_eq next moves rng, by simp⟩ hrun
  have hstop := whileLoop_test_final hrun
  have hnot : (!signal trials.length) = false := Except.ok.inj hstop
  exact ⟨trials, drawn, hexplores, rfl, hsignal, by simpa using hnot⟩

/-- The loop goes through the trials as long as the signal lets it. -/
theorem Explores.passes (hlegal : Legal moves)
    (h : Explores build next sample moves rng trials drawn)
    (hsignal : ∀ k < trials.length, signal k = false) (hfuel : 362 ≤ fuel) (limit : Nat) :
    whileLoop (fun search => return !signal search.iterations)
        (simulate fuel build (mcCell next) sample (Board.after moves)) (limit + trials.length)
        (startSearch (mcCell next) rng) =
      whileLoop (fun search => return !signal search.iterations)
        (simulate fuel build (mcCell next) sample (Board.after moves)) limit
        (searchAfter next trials drawn) := by
  induction h generalizing limit with
  | start => rfl
  | again trials drawn trial explored drawn' _ hdraw hsampled ih =>
      rw [List.length_append, List.length_singleton] at hsignal
      obtain ⟨last, hexplore⟩ := trial.explore hdraw hsampled
      have hgoing : (pure (!signal (searchAfter next trials drawn).iterations) : Result Bool) =
          .ok true := by
        show Except.ok (!signal trials.length) = _
        rw [hsignal trials.length (by omega)]
        rfl
      have hlength : limit + (trials ++ [trial]).length = limit + 1 + trials.length := by
        rw [List.length_append, List.length_singleton]
        omega
      rw [hlength, ih (fun k hk => hsignal k (by omega)) (limit + 1), whileLoop, hgoing, ok_bind,
        if_pos rfl, simulate_of_explore hlegal (hexplore fuel hfuel), ok_bind]

/-- A search with these trials returns. -/
theorem Explores.search (hlegal : Legal moves)
    (h : Explores build next sample moves rng trials drawn) (hstops : Stops signal trials.length) :
    ∀ fuel, 362 + trials.length ≤ fuel →
      MonteCarloActor.search fuel build (mcCell next) sample ⟨Board.after moves, rng⟩ signal =
        .ok (searchAfter next trials drawn) := by
  intro fuel hfuel
  obtain ⟨limit, rfl⟩ : ∃ limit, fuel = limit + 1 + trials.length :=
    ⟨fuel - 1 - trials.length, by omega⟩
  unfold MonteCarloActor.search
  rw [h.passes hlegal hstops.1 (by omega)]
  refine whileLoop_of_false ?_ limit
  show Except.ok (!signal trials.length) = _
  rw [hstops.2]
  rfl

/-! ## The choice -/

/-- The empty field that `ChooseMove` answers with: no estimate is larger, and of equal ones it has
the first in the order of storage, column by column. -/
structure Best (moves : List Vector2i) (estimate : FeatureMatrix Rat) (best : Field) : Prop where
  empty : (Board.after moves).owner best.position = .none
  largest : ∀ other : Field, (Board.after moves).owner other.position = .none →
    estimate other ≤ estimate best
  first : ∀ other : Field, (Board.after moves).owner other.position = .none →
    estimate other = estimate best → best.2 < other.2 ∨ best.2 = other.2 ∧ best.1 ≤ other.1

theorem Best.unique {estimate : FeatureMatrix Rat} {best other : Field}
    (h : Best moves estimate best) (hother : Best moves estimate other) : best = other := by
  have hequal : estimate other = estimate best :=
    le_antisymm (h.largest other hother.empty) (hother.largest best h.empty)
  have hbefore := h.first other hother.empty hequal
  have hafter := hother.first best h.empty hequal.symm
  refine Prod.ext ?_ ?_ <;> omega

/-- The fields are stored in this order. -/
theorem columnMajor_sorted : columnMajor.Pairwise fun field other =>
    field.2 < other.2 ∨ field.2 = other.2 ∧ field.1 ≤ other.1 := by
  unfold columnMajor storageOrder
  rw [List.pairwise_flatMap]
  refine ⟨fun y _ => ?_, ?_⟩
  · rw [List.pairwise_map]
    exact (List.pairwise_lt_finRange kWidth).imp fun hlt => Or.inr ⟨rfl, hlt.le⟩
  · refine (List.pairwise_lt_finRange kHeight).imp fun hlt field hfield other hother => ?_
    obtain ⟨_, _, rfl⟩ := List.mem_map.mp hfield
    obtain ⟨_, _, rfl⟩ := List.mem_map.mp hother
    exact Or.inl hlt

/-- `SampleGreedy` picks the best field. -/
theorem sampleGreedy_best {estimate : FeatureMatrix Rat} (hproper : ∀ field, Proper (estimate field))
    (hempty : ∃ position, Board.Inside position ∧ (Board.after moves).owner position = .none) :
    ∃ best : Field, sampleGreedy estimate (emptyFields moves) = best.position ∧
      Best moves estimate best := by
  obtain ⟨position, hposition, hfree⟩ := hempty
  obtain ⟨marked, rfl⟩ := Field.exists_position hposition
  have hone : ∀ field, emptyFields moves field = 1 ↔
      (Board.after moves).owner field.position = .none := by
    intro field
    unfold emptyFields
    split <;> simp_all
  have houtcome : ∀ field, Outcome (emptyFields moves field) := by
    intro field
    unfold emptyFields Outcome
    split <;> simp
  obtain ⟨hbest, hlargest⟩ := @largest_masked Rat _ _ Field estimate (emptyFields moves) hproper
    houtcome (0, 0) columnMajor mem_columnMajor marked ((hone marked).mpr hfree)
  have hbefore := lt_largest (fun field => estimate field * emptyFields moves field) (0, 0)
    columnMajor
  refine ⟨largest (fun field => estimate field * emptyFields moves field) (0, 0) columnMajor, rfl,
    (hone _).mp hbest, fun other hother => hlargest other ((hone other).mpr hother), ?_⟩
  intro other hother hequal
  generalize largest (fun field => estimate field * emptyFields moves field) (0, 0) columnMajor =
    best at hbest hbefore hequal ⊢
  rcases hbefore with rfl | ⟨earlier, later, hsplit, _, hsmaller⟩
  · have hzero : ((0, 0) : Field).2 ≤ other.2 := Fin.zero_le _
    rcases hzero.lt_or_eq with hlt | heq
    · exact Or.inl hlt
    · exact Or.inr ⟨heq, Fin.zero_le _⟩
  · have hmem := mem_columnMajor other
    have hsorted := columnMajor_sorted
    rw [hsplit] at hmem hsorted
    rcases List.mem_append.mp hmem with hmem | hmem
    · have hlt := hsmaller other hmem
      simp only [hbest, (hone other).mpr hother, mul_one, hequal] at hlt
      exact absurd hlt (lt_irrefl _)
    · rcases List.mem_cons.mp hmem with rfl | hmem
      · exact Or.inr ⟨rfl, le_rfl⟩
      · exact (List.pairwise_cons.mp (List.pairwise_append.mp hsorted).2.1).1 other hmem

/-- What `ChooseMove` returns after a search: the best field, and the metrics of the move. -/
theorem chooseMove_of_search {metrics : Metrics} {best : Field} (hlegal : Legal moves)
    (hsearch : search fuel build (mcCell next) sample ⟨Board.after moves, rng⟩ signal =
      .ok (searchAfter next trials drawn))
    (hbest : sampleGreedy (estimates next trials) (emptyFields moves) = best.position) :
    chooseMove fuel build (mcCell next) sample ⟨Board.after moves, rng⟩ signal metrics =
      .ok (best.position, ⟨Board.after moves, drawn⟩,
        metrics ++ moveMetrics moves.length trials.length (estimates next trials best)) := by
  have hcount := (Board.represents_after hlegal).movesMade_eq
  have hentry := FeatureMatrix.entry_position (estimates next trials) best
  unfold emptyFields at hbest
  unfold chooseMove
  show search fuel build (mcCell next) sample ⟨Board.after moves, rng⟩ signal >>= _ = _
  rw [hsearch, ok_bind, stoneMatrix_eq, ok_bind]
  rw [show (mcCell next).winProb (searchAfter next trials drawn).cellState = estimates next trials
    from rfl]
  simp only [hbest, hentry, ok_bind, pure_eq_ok, hcount, addMetricMeanAt, addMetricMean,
    moveMetrics, List.append_assoc, List.cons_append, List.nil_append]
  rfl

/-- What a `ChooseMove` with the linear cell that returns has done. -/
theorem trials_of_chooseMove (hlegal : Legal moves) (hundecided : Board.Undecided moves)
    (hempty : ∃ position, Board.Inside position ∧ (Board.after moves).owner position = .none)
    (hinside : ∀ winProb legalMoves temperature rng,
      Board.Inside (sample winProb legalMoves temperature rng).1) {metrics : Metrics}
    {result : Vector2i × MonteCarloActorState × Metrics} (hfuel : 20 ≤ fuel)
    (h : chooseMove fuel build mcLinearCell sample ⟨Board.after moves, rng⟩ signal metrics =
      .ok result) :
    ∃ (trials : List (Trial moves)) (drawn : Rng) (best : Field),
      Explores build linearStep sample moves rng trials drawn ∧ Stops signal trials.length ∧
        Best moves (estimates linearStep trials) best ∧
        result = (best.position, ⟨Board.after moves, drawn⟩,
          metrics ++ moveMetrics moves.length trials.length (estimates linearStep trials best)) := by
  obtain ⟨final, hsearch, _⟩ := bind_eq_ok.mp h
  obtain ⟨trials, drawn, hexplores, rfl, hstops⟩ :=
    explores_of_search hlegal hundecided hinside hfuel hsearch
  obtain ⟨best, hgreedy, hbest⟩ := sampleGreedy_best (proper_estimates trials) hempty
  have hchoose := @chooseMove_of_search build moves linearStep sample rng drawn trials fuel signal
    metrics best hlegal hsearch hgreedy
  exact ⟨trials, drawn, best, hexplores, hstops, hbest,
    Except.ok.inj (h.symm.trans hchoose)⟩

/-- On a board reached by legal moves, with an empty field and no five in a row, `ChooseMove` with
the linear cell returns exactly this: the trials of a search as long as the stop signal lets it
go on, then the best field by the discounted scores of its own trials, with the number of trials and
that estimate as the metrics of the move. -/
theorem chooseMove_linear_iff (build : Build) (moves : List Vector2i) (state : MonteCarloActorState)
    (hlegal : Legal moves) (hreplay : Board.replay build moves = .ok state.board)
    (hnofive : ∀ player, ¬ state.board.FiveInRow player)
    (hempty : ∃ position, Board.Inside position ∧ state.board.stoneAt build position = .ok .none)
    (exp : Rat → Rat) (discreteDistribution : List Rat → Rng → Nat × Rng)
    (hdiscrete : ∀ weights rng, weights ≠ [] →
      (discreteDistribution weights rng).1 < weights.length)
    (signal : StopSignal) (metrics : Metrics) (result : Vector2i × MonteCarloActorState × Metrics) :
    Returns (fun fuel => chooseMove fuel build mcLinearCell (sampleSoftmax exp discreteDistribution)
        state signal metrics) result ↔
      ∃ (trials : List (Trial moves)) (drawn : Rng) (best : Field),
        Explores build linearStep (sampleSoftmax exp discreteDistribution) moves state.rng trials
          drawn ∧
        Stops signal trials.length ∧
        Best moves (fun field => discounted (1 / 1000) (1 / 2) (scoresAt trials field)) best ∧
        result = (best.position, ⟨state.board, drawn⟩,
          metrics ++ moveMetrics moves.length trials.length
            (discounted (1 / 1000) (1 / 2) (scoresAt trials best))) := by
  obtain ⟨board, rng⟩ := state
  obtain rfl : board = Board.after moves := Board.eq_after_of_replay hlegal hreplay
  have hundecided := (Board.represents_after hlegal).undecided_iff.mpr hnofive
  have hfree : ∃ position, Board.Inside position ∧ (Board.after moves).owner position = .none := by
    obtain ⟨position, hposition, hstone⟩ := hempty
    rw [Board.stoneAt_of_inside build _ hposition] at hstone
    exact ⟨position, hposition, Except.ok.inj hstone⟩
  simp only [← estimates_linear]
  constructor
  · intro h
    obtain ⟨bound, hrun⟩ := h
    exact trials_of_chooseMove hlegal hundecided hfree (sampleSoftmax_inside hdiscrete)
      (Nat.le_max_right bound 20) (hrun _ (Nat.le_max_left bound 20))
  · intro h
    obtain ⟨trials, drawn, best, hexplores, hstops, hbest, rfl⟩ := h
    obtain ⟨best', hgreedy, hbest'⟩ := sampleGreedy_best (proper_estimates trials) hfree
    obtain rfl := hbest.unique hbest'
    exact ⟨362 + trials.length, fun fuel hfuel =>
      chooseMove_of_search hlegal (hexplores.search hlegal hstops fuel hfuel) hgreedy⟩

theorem legal_winning : Legal (fourInRow ++ [⟨4, 0⟩]) := by decide

theorem decided_winning : ¬ Board.Undecided (fourInRow ++ [⟨4, 0⟩]) := by
  intro hundecided
  exact (Board.represents_after legal_winning).undecided_iff.mp hundecided .first
    ⟨by decide, (0, 0), .horizontal, by decide +kernel⟩

theorem undecided_fourInRow : Board.Undecided fourInRow :=
  Board.undecided_of_length_lt (by decide)

/-- With the smallest draws the first trial is that of the field that completes the row of FIRST. -/
theorem explores_fourInRow :
    ∃ trial : Trial fourInRow, trial.field = (4, 0) ∧ trial.score = 1 ∧
      Explores .debug linearStep (sampleSoftmax secondOrderExp inverseTransform) fourInRow
        ⟨fun _ => 0⟩ [trial] ⟨fun _ => 0⟩ := by
  obtain ⟨bound, hrun⟩ := explore_fourInRow
  obtain ⟨trial, explored, hfield, hdraw, hsampled, _⟩ := exists_trial (by decide)
    undecided_fourInRow (sampleSoftmax_inside fun weights rng hne => firstExceeding_lt hne _)
    (Nat.le_max_right bound 20) (hrun _ (Nat.le_max_left bound 20))
  have hlater := trial.later_of_winning (by rw [← hfield]; exact decided_winning)
  refine ⟨trial, Field.position_injective hfield.symm, ?_, .again [] _ trial _ _ .start hdraw hsampled⟩
  unfold Trial.score
  rw [hlater]
  rfl

/-- One simulation is enough for FIRST to find the move that wins. -/
theorem chooseMove_linear_iff_four_in_row :
    Returns (fun fuel => chooseMove fuel .debug mcLinearCell
        (sampleSoftmax secondOrderExp inverseTransform)
        ⟨Board.after fourInRow, ⟨fun _ => 0⟩⟩ (fun k => decide (k ≠ 0)) [])
      (⟨4, 0⟩, ⟨Board.after fourInRow, ⟨fun _ => 0⟩⟩, moveMetrics 8 1 (1001 / 2000)) := by
  have hlegal : Legal fourInRow := by decide
  have hrep := Board.represents_after hlegal
  have hempty : (Board.after fourInRow).owner ⟨4, 0⟩ = .none :=
    (hrep.owner_eq_none_iff ⟨4, 0⟩).mpr (by decide)
  obtain ⟨trial, htrial, hwon, hexplores⟩ := explores_fourInRow
  have hvalue : ∀ field : Field, discounted (1 / 1000 : Rat) (1 / 2) (scoresAt [trial] field) =
      if field = (4, 0) then 1001 / 2000 else 1 / 2 := by
    intro field
    by_cases hfield : (4, 0) = field
    · subst hfield
      simp [discounted, scoresAt, htrial, hwon]
      norm_num
    · rw [if_neg (Ne.symm hfield)]
      simp [scoresAt, htrial, hfield]
  refine (chooseMove_linear_iff .debug fourInRow ⟨Board.after fourInRow, ⟨fun _ => 0⟩⟩ hlegal
    (Board.replay_eq_after .debug hlegal).1
    (hrep.undecided_iff.mp undecided_fourInRow)
    ⟨⟨4, 0⟩, by decide, by rw [Board.stoneAt_of_inside .debug _ (by decide), hempty]⟩
    secondOrderExp inverseTransform (fun weights rng hne => firstExceeding_lt hne _)
    (fun k => decide (k ≠ 0)) [] _).mpr
    ⟨[trial], _, (4, 0), hexplores, ⟨?_, rfl⟩, ⟨hempty, ?_, ?_⟩, ?_⟩
  · intro k hk
    obtain rfl : k = 0 := by simpa using hk
    rfl
  · intro other _
    simp only [hvalue, if_true]
    split <;> norm_num
  · intro other _ hequal
    simp only [hvalue, if_true] at hequal
    by_cases hother : other = (4, 0)
    · exact Or.inr ⟨by rw [hother], by rw [hother]⟩
    · rw [if_neg hother] at hequal
      norm_num at hequal
  · rw [hvalue, if_pos rfl]
    rfl

/-! ## Moves that win at once -/

end Gomoku.MonteCarloActor
