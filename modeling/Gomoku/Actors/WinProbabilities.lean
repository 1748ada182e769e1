import Gomoku.Actors.McCell
import Gomoku.Core.Rules
import Gomoku.Library.Estimates

/-!
# The estimates of the Monte Carlo cells

What a sequence of updates makes of the estimates of a cell, starting from 1/2 everywhere with
the learning rate 1/1000, and which move `SampleGreedy` picks from them. The linear cell keeps
all estimates strictly between 0 and 1, so that the product with the legal moves is largest at
a best legal move (`linear_greedy_best`). The logistic cell does not: `logistic_keeps_iff` says
which updates it survives.
-/

namespace Gomoku

open Execution Estimates

namespace FeatureMatrix

variable {R : Type}

theorem entry_position (matrix : FeatureMatrix R) (field : Field) :
    matrix.entry field.position = .ok (matrix field) := by
  have hx := field.1.isLt
  have hy := field.2.isLt
  have hrange : field.position.x.toNat < kWidth ∧ field.position.y.toNat < kHeight ∧
      0 ≤ field.position.x ∧ 0 ≤ field.position.y := by
    simp [Field.position]
  rw [entry, dif_pos hrange]
  rfl

theorem set_position (matrix : FeatureMatrix R) (field : Field) (value : R) :
    matrix.set field.position value = Function.update matrix field value := by
  funext other
  simp only [set, Function.update_apply, Field.position_injective.eq_iff]

end FeatureMatrix

/-! ## Updates -/

namespace McCell

/-- The cell that `MonteCarloActor` creates. -/
def fresh (cell : McCell) : cell.State := cell.create (fun _ => 1 / 2) (1 / 1000)

/-- The state after some updates, each with a move and a score. -/
def run (cell : McCell) (state : cell.State) (updates : List (Vector2i × Rat)) :
    Result cell.State :=
  updates.foldlM (fun state update => cell.update state update.1 update.2) state

theorem run_cons (cell : McCell) (state : cell.State) (update : Vector2i × Rat)
    (updates : List (Vector2i × Rat)) :
    cell.run state (update :: updates) =
      cell.update state update.1 update.2 >>= fun state => cell.run state updates := by
  rw [run, List.foldlM_cons]
  rfl

/-- One more update is made in the state reached so far. -/
theorem run_concat (cell : McCell) (state : cell.State) (updates : List (Vector2i × Rat))
    (update : Vector2i × Rat) :
    cell.run state (updates ++ [update]) =
      cell.run state updates >>= fun state => cell.update state update.1 update.2 := by
  rw [run, List.foldlM_append]
  simp [run]

end McCell

/-- An update of a field changes the estimate of the field and nothing else. -/
theorem mcCell_update (next : Rat → Rat → Rat → Rat) (winProb : FeatureMatrix Rat) (rate : Rat)
    (field : Field) (score : Rat) :
    (mcCell next).update ((mcCell next).create winProb rate) field.position score =
      .ok ((mcCell next).create
        (Function.update winProb field (next rate score (winProb field))) rate) := by
  simp only [mcCell, FeatureMatrix.entry_position, ok_bind, FeatureMatrix.set_position,
    pure_eq_ok]

/-- The updates are made at fields, with the scores of lost or won games. -/
def Admissible (updates : List (Vector2i × Rat)) : Prop :=
  ∀ update ∈ updates, Board.Inside update.1 ∧ Outcome update.2

/-- Updates of fields never fault, keep the learning rate, and keep for all estimates what each of
them keeps for one. -/
theorem mcCell_run_keeps (next : Rat → Rat → Rat → Rat) {rate : Rat} (good : Rat → Prop)
    (hnext : ∀ score value, Outcome score → good value → good (next rate score value))
    {updates : List (Vector2i × Rat)} (hupdates : Admissible updates)
    (winProb : FeatureMatrix Rat) (hstart : ∀ field, good (winProb field)) :
    ∃ final : FeatureMatrix Rat,
      (mcCell next).run ((mcCell next).create winProb rate) updates =
        .ok ((mcCell next).create final rate) ∧ ∀ field, good (final field) := by
  induction updates generalizing winProb with
  | nil => exact ⟨winProb, rfl, hstart⟩
  | cons update updates ih =>
      obtain ⟨move, score⟩ := update
      obtain ⟨hmove, hscore⟩ := hupdates (move, score) (by simp)
      obtain ⟨field, rfl⟩ := Field.exists_position hmove
      obtain ⟨final, hrun, hfinal⟩ := ih (fun later hlater => hupdates later (by simp [hlater]))
        (Function.update winProb field (next rate score (winProb field))) (by
          intro other
          by_cases hsame : other = field
          · subst hsame
            rw [Function.update_self]
            exact hnext score _ hscore (hstart other)
          · rw [Function.update_of_ne hsame]
            exact hstart other)
      refine ⟨final, ?_, hfinal⟩
      rw [McCell.run_cons, mcCell_update, ok_bind]
      exact hrun

/-! ## The greedy move -/

theorem mem_columnMajor (field : Field) : field ∈ columnMajor := by
  simp [columnMajor, storageOrder]

/-- From proper estimates `SampleGreedy` picks a legal move with the largest estimate. -/
theorem sampleGreedy_spec (winProb legalMoves : FeatureMatrix Rat)
    (hproper : ∀ field, Proper (winProb field)) (hlegal : ∀ field, Outcome (legalMoves field))
    (hsome : ∃ field, legalMoves field = 1) :
    ∃ field : Field, sampleGreedy winProb legalMoves = field.position ∧ legalMoves field = 1 ∧
      ∀ other, legalMoves other = 1 → winProb other ≤ winProb field := by
  obtain ⟨marked, hmarked⟩ := hsome
  obtain ⟨hone, hbest⟩ := largest_masked hproper hlegal mem_columnMajor hmarked
  exact ⟨_, rfl, hone, hbest⟩

/-! ## The linear cell -/

/-- After any updates at empty fields of a board with the scores of lost and won games, all
estimates of the linear cell are strictly between 0 and 1, and `SampleGreedy` picks an empty
field whose estimate no other empty field exceeds. -/
theorem linear_greedy_best (build : Build) (board : Board)
    (hempty : ∃ position, Board.Inside position ∧ board.stoneAt build position = .ok .none)
    (updates : List (Vector2i × Rat))
    (hupdates : ∀ update ∈ updates, Board.Inside update.1 ∧
      board.stoneAt build update.1 = .ok .none ∧ (update.2 = 0 ∨ update.2 = 1)) :
    ∃ state legalMoves, mcLinearCell.run mcLinearCell.fresh updates = .ok state ∧
      (∀ field, 0 < mcLinearCell.winProb state field ∧ mcLinearCell.winProb state field < 1) ∧
      stoneMatrix build board .none = .ok legalMoves ∧
      ∃ field : Field, sampleGreedy (mcLinearCell.winProb state) legalMoves = field.position ∧
        board.stoneAt build field.position = .ok .none ∧
        ∀ other : Field, board.stoneAt build other.position = .ok .none →
          mcLinearCell.winProb state other ≤ mcLinearCell.winProb state field := by
  have hrate : Proper (1 / 1000 : Rat) := by
    unfold Proper
    norm_num
  obtain ⟨final, hrun, hproper⟩ := mcCell_run_keeps linearStep Proper
    (fun score value hscore hvalue => linearStep_mem hrate hscore hvalue)
    (fun update hm => ⟨(hupdates update hm).1, (hupdates update hm).2.2⟩)
    (fun _ => 1 / 2) (by
      intro field
      unfold Proper
      norm_num)
  have hstone : ∀ field : Field, board.stoneAt build field.position = .ok .none ↔
      (if board.owner field.position = .none then 1 else 0 : Rat) = 1 := by
    intro field
    rw [Board.stoneAt_of_inside build board field.inside_position, Except.ok.injEq]
    by_cases h : board.owner field.position = .none <;> simp [h]
  obtain ⟨field, hgreedy, hlegal, hbest⟩ := sampleGreedy_spec final
    (fun field => if board.owner field.position = .none then 1 else 0) hproper
    (by
      intro field
      by_cases h : board.owner field.position = .none <;> simp [h, Outcome])
    (by
      obtain ⟨position, hposition, hfree⟩ := hempty
      obtain ⟨field, rfl⟩ := Field.exists_position hposition
      exact ⟨field, (hstone field).mp hfree⟩)
  refine ⟨_, _, hrun, hproper, stoneMatrix_eq build board .none, field, hgreedy,
    (hstone field).mpr hlegal, fun other hother => ?_⟩
  exact hbest other ((hstone other).mp hother)

/-- After a move in the corner and a lost and a won game at the opposite corner, the linear cell
picks an empty field. -/
theorem linear_greedy_best_two_updates :
    ∃ state legalMoves,
      mcLinearCell.run mcLinearCell.fresh [(⟨18, 18⟩, 0), (⟨18, 18⟩, 1)] = .ok state ∧
      stoneMatrix .debug (Board.after [⟨0, 0⟩]) .none = .ok legalMoves ∧
      ∃ field : Field, sampleGreedy (mcLinearCell.winProb state) legalMoves = field.position ∧
        (Board.after [⟨0, 0⟩]).stoneAt .debug field.position = .ok .none := by
  have hlegal : Legal [⟨0, 0⟩] := by decide
  have hempty : (Board.after [⟨0, 0⟩]).stoneAt .debug ⟨18, 18⟩ = .ok .none := by
    rw [Board.stoneAt_of_inside .debug _ (by decide),
      ((Board.represents_after hlegal).owner_eq_none_iff _).mpr (by decide)]
  obtain ⟨state, legalMoves, hrun, _, hstones, field, hgreedy, hfree, _⟩ :=
    linear_greedy_best .debug (Board.after [⟨0, 0⟩]) ⟨⟨18, 18⟩, by decide, hempty⟩
      [(⟨18, 18⟩, 0), (⟨18, 18⟩, 1)] (by
        intro update hm
        rcases List.mem_cons.mp hm with rfl | hm
        · exact ⟨by decide, hempty, Or.inl rfl⟩
        · obtain rfl := List.mem_singleton.mp hm
          exact ⟨by decide, hempty, Or.inr rfl⟩)
  exact ⟨state, legalMoves, hrun, hstones, field, hgreedy, hfree⟩

/-! ## The logistic cell -/

/-- A cell keeps victory probabilities over some updates: after each of them the estimates are
strictly between 0 and 1 and `SampleGreedy` returns a legal move for all legal moves, and no update
divides by zero. -/
structure KeepsProbabilities (cell : McCell) (updates : List (Vector2i × Rat)) : Prop where
  proper : ∀ k ≤ updates.length, ∃ state, cell.run cell.fresh (updates.take k) = .ok state ∧
    ∀ field, 0 < cell.winProb state field ∧ cell.winProb state field < 1
  no_division_by_zero : ∀ k (hk : k < updates.length), ∃ state value,
    cell.run cell.fresh (updates.take k) = .ok state ∧
      (cell.winProb state).entry updates[k].1 = .ok value ∧ value ≠ 0 ∧ 1 - value ≠ 0
  greedy_legal : ∀ k ≤ updates.length, ∀ state,
    cell.run cell.fresh (updates.take k) = .ok state → ∀ legalMoves : FeatureMatrix Rat,
      (∀ field, legalMoves field = 0 ∨ legalMoves field = 1) →
      (∃ field, legalMoves field = 1) →
      ∃ field : Field, sampleGreedy (cell.winProb state) legalMoves = field.position ∧
        legalMoves field = 1

variable {updates : List (Vector2i × Rat)}

theorem Admissible.take (h : Admissible updates) (k : Nat) : Admissible (updates.take k) :=
  fun update hm => h update (List.mem_of_mem_take hm)

/-- What one update makes of the logistic cell. -/
theorem logistic_run_step (hupdates : Admissible updates) {k : Nat} (hk : k < updates.length) :
    ∃ (winProb : FeatureMatrix Rat) (field : Field),
      mcLogisticCell.run mcLogisticCell.fresh (updates.take k) =
        .ok (mcLogisticCell.create winProb (1 / 1000)) ∧
      updates[k].1 = field.position ∧
      mcLogisticCell.run mcLogisticCell.fresh (updates.take (k + 1)) =
        .ok (mcLogisticCell.create (Function.update winProb field
          (logisticStep (1 / 1000) updates[k].2 (winProb field))) (1 / 1000)) := by
  obtain ⟨winProb, hrun, _⟩ := mcCell_run_keeps logisticStep (fun _ => True)
    (fun _ _ _ _ => trivial) (hupdates.take k) (fun _ => 1 / 2) (fun _ => trivial)
  obtain ⟨field, hfield⟩ := Field.exists_position (hupdates _ (List.getElem_mem hk)).1
  refine ⟨winProb, field, hrun, hfield.symm, ?_⟩
  have hstep : mcLogisticCell.run mcLogisticCell.fresh (updates.take (k + 1)) =
      mcLogisticCell.update (mcLogisticCell.create winProb (1 / 1000)) updates[k].1
        updates[k].2 := by
    rw [← List.take_append_getElem hk, McCell.run_concat]
    show (mcCell logisticStep).run ((mcCell logisticStep).create _ _) (updates.take k) >>= _ = _
    rw [hrun]
    rfl
  rw [hstep, ← hfield]
  exact mcCell_update logisticStep winProb (1 / 1000) field updates[k].2

/-- Updates that all find room for a step of the rate keep the estimates strictly between 0 and 1. -/
theorem logistic_run_proper (hupdates : Admissible updates)
    (hsteps : ∀ k (hk : k < updates.length), ∃ state value,
      mcLogisticCell.run mcLogisticCell.fresh (updates.take k) = .ok state ∧
      (mcLogisticCell.winProb state).entry updates[k].1 = .ok value ∧
      1 / 1000 < value * (1 - value)) {k : Nat} (hk : k ≤ updates.length) :
    ∃ state, mcLogisticCell.run mcLogisticCell.fresh (updates.take k) = .ok state ∧
      ∀ field, Proper (mcLogisticCell.winProb state field) := by
  have hrate : (0 : Rat) < 1 / 1000 := by norm_num
  induction k with
  | zero =>
      refine ⟨_, rfl, fun field => ?_⟩
      show Proper (1 / 2 : Rat)
      unfold Proper
      norm_num
  | succ k ih =>
      obtain ⟨state, hstate, hall⟩ := ih (by omega)
      obtain ⟨state', value, hstate', hentry, hroom⟩ := hsteps k hk
      obtain ⟨winProb, field, hrun, hfield, hnext⟩ := logistic_run_step hupdates hk
      obtain rfl := Except.ok.inj (hrun.symm.trans hstate)
      obtain rfl := Except.ok.inj (hrun.symm.trans hstate')
      rw [hfield] at hentry
      obtain rfl := Except.ok.inj
        ((FeatureMatrix.entry_position winProb field).symm.trans hentry)
      refine ⟨_, hnext, fun other => ?_⟩
      show Proper (Function.update winProb field _ other)
      by_cases hsame : other = field
      · rw [hsame, Function.update_self]
        exact (logisticStep_mem_iff hrate (hupdates _ (List.getElem_mem hk)).2
          (hall field)).mpr hroom
      · rw [Function.update_of_ne hsame]
        exact hall other

/-- For updates at fields with the scores of lost and won games, the logistic cell keeps victory
probabilities exactly when every update finds the rate less than `value * (1 - value)` for the
estimate `value` that it changes. -/
theorem logistic_keeps_iff (updates : List (Vector2i × Rat))
    (hupdates : ∀ update ∈ updates, Board.Inside update.1 ∧ (update.2 = 0 ∨ update.2 = 1)) :
    KeepsProbabilities mcLogisticCell updates ↔
      ∀ k (hk : k < updates.length), ∃ state value,
        mcLogisticCell.run mcLogisticCell.fresh (updates.take k) = .ok state ∧
        (mcLogisticCell.winProb state).entry updates[k].1 = .ok value ∧
        1 / 1000 < value * (1 - value) := by
  have hrate : (0 : Rat) < 1 / 1000 := by norm_num
  constructor
  · intro hkeeps k hk
    obtain ⟨winProb, field, hrun, hfield, hnext⟩ := logistic_run_step hupdates hk
    refine ⟨_, winProb field, hrun, ?_, ?_⟩
    · rw [hfield]
      exact FeatureMatrix.entry_position winProb field
    · obtain ⟨state, hstate, hproper⟩ := hkeeps.proper k hk.le
      obtain rfl := Except.ok.inj (hrun.symm.trans hstate)
      obtain ⟨state', hstate', hproper'⟩ := hkeeps.proper (k + 1) hk
      obtain rfl := Except.ok.inj (hnext.symm.trans hstate')
      have hafter : Proper (Function.update winProb field
          (logisticStep (1 / 1000) updates[k].2 (winProb field)) field) := hproper' field
      rw [Function.update_self] at hafter
      exact (logisticStep_mem_iff hrate (hupdates _ (List.getElem_mem hk)).2
        (hproper field)).mp hafter
  · intro hsteps
    refine ⟨fun k hk => logistic_run_proper hupdates hsteps hk, fun k hk => ?_,
      fun k hk state hstate legalMoves hlegal hsome => ?_⟩
    · obtain ⟨state, value, hstate, hentry, hroom⟩ := hsteps k hk
      have hne : value * (1 - value) ≠ 0 := (lt_trans hrate hroom).ne'
      exact ⟨state, value, hstate, hentry, left_ne_zero_of_mul hne, right_ne_zero_of_mul hne⟩
    · obtain ⟨state', hstate', hall⟩ := logistic_run_proper hupdates hsteps hk
      obtain rfl := Except.ok.inj (hstate.symm.trans hstate')
      obtain ⟨field, hgreedy, hone, _⟩ := sampleGreedy_spec _ legalMoves hall hlegal hsome
      exact ⟨field, hgreedy, hone⟩

/-- Two lost games and a won one at one field, with a won game at another between them. -/
def fourUpdates : List (Vector2i × Rat) :=
  [(⟨18, 18⟩, 0), (⟨3, 5⟩, 1), (⟨18, 18⟩, 0), (⟨18, 18⟩, 1)]

/-- They leave the logistic cell with victory probabilities. -/
theorem logistic_keeps_iff_four_updates : KeepsProbabilities mcLogisticCell fourUpdates := by
  -- the estimates that the updates change
  have hentry : ∀ k : Fin fourUpdates.length,
      (mcLogisticCell.run mcLogisticCell.fresh (fourUpdates.take k) >>= fun state =>
        (mcLogisticCell.winProb state).entry fourUpdates[k].1) =
          .ok ([1 / 2, 1 / 2, 249 / 500, 62249 / 125500].getD k 0) := by
    decide +kernel
  have hroom : ∀ k : Fin fourUpdates.length, (1 / 1000 : Rat) <
      [1 / 2, 1 / 2, 249 / 500, 62249 / 125500].getD k 0 *
        (1 - [1 / 2, 1 / 2, 249 / 500, 62249 / 125500].getD k 0) := by
    decide +kernel
  refine (logistic_keeps_iff fourUpdates (by decide +kernel)).mpr fun k hk => ?_
  obtain ⟨state, hstate, hvalue⟩ := bind_eq_ok.mp (hentry ⟨k, hk⟩)
  exact ⟨state, _, hstate, hvalue, hroom ⟨k, hk⟩⟩

/-- Lost games in a row at one field. -/
theorem logistic_run_losses (field : Field) (n : Nat) :
    (mcCell logisticStep).run ((mcCell logisticStep).create (fun _ => 1 / 2) (1 / 1000))
        (List.replicate n (field.position, 0)) =
      .ok ((mcCell logisticStep).create (Function.update (fun _ => 1 / 2) field
        (1 - (logisticStep (1 / 1000) 1)^[n] (1 / 2))) (1 / 1000)) := by
  induction n with
  | zero =>
      have hstart : Function.update (fun _ => (1 / 2 : Rat)) field (1 - 1 / 2) =
          fun _ => 1 / 2 := by
        rw [Function.update_eq_self_iff]
        norm_num
      rw [Function.iterate_zero_apply, hstart]
      rfl
  | succ n ih =>
      have hopposite := one_sub_logisticStep_zero (1 / 1000 : Rat)
        (1 - (logisticStep (1 / 1000) 1)^[n] (1 / 2))
      rw [sub_sub_cancel] at hopposite
      rw [List.replicate_succ', McCell.run_concat, ih, ok_bind, mcCell_update,
        Function.update_self, Function.update_idem, Function.iterate_succ_apply', ← hopposite,
        sub_sub_cancel]

/-- After 376 lost games at one field its estimate is negative, and `SampleGreedy` returns another
field although this is the only legal one. -/
theorem logistic_leaves_interval :
    Admissible (List.replicate 376 (⟨18, 18⟩, 0)) ∧
      (∃ state, mcLogisticCell.run mcLogisticCell.fresh (List.replicate 376 (⟨18, 18⟩, 0)) =
          .ok state ∧ mcLogisticCell.winProb state (18, 18) < 0 ∧
        sampleGreedy (mcLogisticCell.winProb state)
          (fun field => if field = (18, 18) then 1 else 0) = ⟨0, 0⟩) ∧
      ¬ KeepsProbabilities mcLogisticCell (List.replicate 376 (⟨18, 18⟩, 0)) := by
  have hrun : mcLogisticCell.run mcLogisticCell.fresh (List.replicate 376 (⟨18, 18⟩, 0)) = _ :=
    logistic_run_losses (18, 18) 376
  have hrate : (0 : Rat) < 1 / 1000 := by norm_num
  have hhalf : (0 : Rat) < 1 / 2 := by norm_num
  obtain ⟨hpos, hsq⟩ := sq_iterate_ge hrate hhalf 376
  generalize (logisticStep (1 / 1000 : Rat) 1)^[376] (1 / 2) = opposite at hrun hpos hsq
  have hlarge : 1 < opposite := by
    norm_num at hsq
    nlinarith
  have hnegative : Function.update (fun _ => (1 / 2 : Rat)) ((18, 18) : Field) (1 - opposite)
      (18, 18) < 0 := by
    rw [Function.update_self]
    linarith
  refine ⟨?_, ⟨_, hrun, hnegative, ?_⟩, ?_⟩
  · intro update hm
    obtain rfl := List.eq_of_mem_replicate hm
    exact ⟨by decide, Or.inl rfl⟩
  · have hnone := largest_of_forall_le (fun field : Field =>
      Function.update (fun _ => (1 / 2 : Rat)) (18, 18) (1 - opposite) field *
        (if field = (18, 18) then 1 else 0)) (0, 0) columnMajor (by
        intro field _
        by_cases hfield : field = (18, 18)
        · subst hfield
          simp
          linarith
        · simp [hfield])
    exact congrArg Field.position hnone
  · intro hkeeps
    obtain ⟨state, hstate, hproper⟩ := hkeeps.proper 376 List.length_replicate.ge
    rw [List.take_of_length_le List.length_replicate.le] at hstate
    obtain rfl := Except.ok.inj (hrun.symm.trans hstate)
    exact lt_asymm hnegative (hproper (18, 18)).1

end Gomoku
