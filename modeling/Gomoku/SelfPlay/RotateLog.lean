import Mathlib.Data.Finset.Card
import Mathlib.Data.Finset.Image
import Mathlib.Order.Interval.Finset.Nat
import Mathlib.Tactic.Lift
import Std.Data.String.ToNat

/-!
# Rotating the replay logs

`Supervisor::RotateLog` of `self_play/supervisor.cc`. Every call deletes the log that is
`max_replay_files` calls old and opens the next one. The number of the next log is a member of
the supervisor and starts from zero in every process, while the directory stays: a supervisor
deletes only logs with the numbers it has used itself. `rotations_eq` says which logs there
are during a process, and `history_bounded_iff` for which processes, run one after the other, the
directory never holds more than `max_replay_files` logs.

The directory is the set of the names of its files. Creating and deleting files succeeds.
-/

namespace Gomoku.SelfPlay

/-- The members of `Supervisor` that `RotateLog` uses: `next_log_` and the name of the open file. -/
structure Supervisor where
  nextLog : Int
  file : Option String

/-- The name of a replay log, `replay%d.tfrecords`. -/
def replayName (log : Int) : String := "replay" ++ toString log ++ ".tfrecords"

/-- `Supervisor::RotateLog`, with the directory before and after it. The number of the log is an `int`
in the source, which is enough for `2 ^ 31 - 1` rotations. -/
def rotateLog (maxReplayFiles : Int) (directory : Finset String) (supervisor : Supervisor) :
    Finset String × Supervisor :=
  let directory :=
    if supervisor.nextLog - maxReplayFiles ≥ 0 then
      directory.erase (replayName (supervisor.nextLog - maxReplayFiles))
    else directory
  let filename := replayName supervisor.nextLog
  (insert filename directory, ⟨supervisor.nextLog + 1, some filename⟩)

/-- The states after each of some calls of `RotateLog`. -/
def rotations (maxReplayFiles : Int) :
    Nat → Finset String × Supervisor → List (Finset String × Supervisor)
  | 0, _ => []
  | calls + 1, state =>
      let next := rotateLog maxReplayFiles state.1 state.2
      next :: rotations maxReplayFiles calls next

/-- The states after each call of `RotateLog` when supervisors run one after the other on a
directory. Each is constructed, which calls `RotateLog` once, and then makes the given number
of calls. -/
def history (maxReplayFiles : Int) : List Nat → Finset String → List (Finset String × Supervisor)
  | [], _ => []
  | calls :: rest, directory =>
      let states := rotations maxReplayFiles (1 + calls) (directory, ⟨0, none⟩)
      states ++ history maxReplayFiles rest ((states.getLast?.map Prod.fst).getD directory)

/-! ## The logs of a process -/

theorem replayName_injective : Function.Injective fun n : Nat => replayName n := by
  intro n n' h
  have hlist : ("replay" ++ toString n ++ ".tfrecords").toList =
      ("replay" ++ toString n' ++ ".tfrecords").toList := congrArg String.toList h
  simp only [String.toList_append] at hlist
  exact Nat.repr_injective (String.toList_inj.mp
    (List.append_cancel_left (List.append_cancel_right hlist)))

/-- The directory with the given logs and nothing else. -/
def directoryOf (logs : Finset Nat) : Finset String := logs.image fun n : Nat => replayName n

/-- The logs after `calls` calls of one process that found some logs in the directory: the old logs
with higher numbers, and its own last `maxFiles` ones. -/
def logsAfter (maxFiles calls : Nat) (logs : Finset Nat) : Finset Nat :=
  logs.filter (calls ≤ ·) ∪ Finset.Ico (calls - maxFiles) calls

variable {maxFiles calls : Nat} {logs : Finset Nat}

theorem mem_logsAfter {n : Nat} :
    n ∈ logsAfter maxFiles calls logs ↔
      n ∈ logs ∧ calls ≤ n ∨ calls - maxFiles ≤ n ∧ n < calls := by
  rw [logsAfter, Finset.mem_union, Finset.mem_filter, Finset.mem_Ico]

theorem logsAfter_zero (maxFiles : Nat) (logs : Finset Nat) : logsAfter maxFiles 0 logs = logs := by
  ext n
  rw [mem_logsAfter]
  simp

theorem card_logsAfter (maxFiles calls : Nat) (logs : Finset Nat) :
    (logsAfter maxFiles calls logs).card =
      (logs.filter (calls ≤ ·)).card + min calls maxFiles := by
  have hdisjoint : Disjoint (logs.filter (calls ≤ ·)) (Finset.Ico (calls - maxFiles) calls) := by
    rw [Finset.disjoint_left]
    intro n hold hown
    have hle := (Finset.mem_filter.mp hold).2
    have hlt := (Finset.mem_Ico.mp hown).2
    omega
  rw [logsAfter, Finset.card_union_of_disjoint hdisjoint, Nat.card_Ico]
  omega

/-- One call deletes the oldest own log, if there are enough, and adds the next one. -/
theorem logsAfter_succ (hmax : 1 ≤ maxFiles) (calls : Nat) (logs : Finset Nat) :
    logsAfter maxFiles (calls + 1) logs = insert calls
      (if maxFiles ≤ calls then (logsAfter maxFiles calls logs).erase (calls - maxFiles)
        else logsAfter maxFiles calls logs) := by
  ext n
  by_cases hfull : maxFiles ≤ calls
  · rw [if_pos hfull, Finset.mem_insert, Finset.mem_erase, mem_logsAfter, mem_logsAfter]
    by_cases hold : n ∈ logs
    · simp only [hold, true_and]
      omega
    · simp only [hold, false_and, false_or]
      omega
  · rw [if_neg hfull, Finset.mem_insert, mem_logsAfter, mem_logsAfter]
    by_cases hold : n ∈ logs
    · simp only [hold, true_and]
      omega
    · simp only [hold, false_and, false_or]
      omega

theorem rotateLog_eq (hmax : 1 ≤ maxFiles) (calls : Nat) (logs : Finset Nat)
    (file : Option String) :
    rotateLog maxFiles (directoryOf (logsAfter maxFiles calls logs)) ⟨calls, file⟩ =
      (directoryOf (logsAfter maxFiles (calls + 1) logs),
        ⟨(calls + 1 : Nat), some (replayName calls)⟩) := by
  have hdirectory : directoryOf (logsAfter maxFiles (calls + 1) logs) =
      insert (replayName calls) (if (calls : Int) - maxFiles ≥ 0 then
        (directoryOf (logsAfter maxFiles calls logs)).erase (replayName (calls - maxFiles))
      else directoryOf (logsAfter maxFiles calls logs)) := by
    rw [logsAfter_succ hmax, directoryOf, Finset.image_insert]
    by_cases hfull : maxFiles ≤ calls
    · have hindex : ((calls - maxFiles : Nat) : Int) = (calls : Int) - maxFiles := by omega
      rw [if_pos hfull, if_pos (by omega), Finset.image_erase replayName_injective, hindex]
      rfl
    · rw [if_neg hfull, if_neg (by omega)]
      rfl
  rw [hdirectory]
  rfl

/-- The state after `calls + 1` calls of a process. -/
def stateAfter (maxFiles : Nat) (logs : Finset Nat) (calls : Nat) : Finset String × Supervisor :=
  (directoryOf (logsAfter maxFiles (calls + 1) logs),
    ⟨(calls + 1 : Nat), some (replayName calls)⟩)

/-- The states during a process. -/
theorem rotations_eq (hmax : 1 ≤ maxFiles) (logs : Finset Nat) (calls more : Nat)
    (file : Option String) :
    rotations maxFiles more (directoryOf (logsAfter maxFiles calls logs), ⟨calls, file⟩) =
      (List.range' calls more).map (stateAfter maxFiles logs) := by
  induction more generalizing calls file with
  | zero => rfl
  | succ more ih =>
      rw [rotations, rotateLog_eq hmax]
      show stateAfter maxFiles logs calls :: rotations maxFiles more (_, ⟨(calls + 1 : Nat), _⟩) = _
      rw [ih]
      rfl

/-- The states of the first of some processes and of the others. -/
theorem history_cons (hmax : 1 ≤ maxFiles) (calls : Nat) (rest : List Nat) (logs : Finset Nat) :
    history maxFiles (calls :: rest) (directoryOf logs) =
      (List.range' 0 (1 + calls)).map (stateAfter maxFiles logs) ++
        history maxFiles rest (directoryOf (logsAfter maxFiles (1 + calls) logs)) := by
  have hstates : rotations maxFiles (1 + calls) (directoryOf logs, ⟨0, none⟩) =
      (List.range' 0 (1 + calls)).map (stateAfter maxFiles logs) := by
    have hrotations := rotations_eq hmax logs 0 (1 + calls) none
    rwa [logsAfter_zero] at hrotations
  rw [history, hstates, List.getLast?_map, List.getLast?_range']
  simp [stateAfter, Nat.add_comm]

/-! ## The number of logs -/

open Classical in
/-- The files of a directory that are named as replay logs. -/
noncomputable def replayFiles (directory : Finset String) : Finset String :=
  directory.filter fun name => ∃ n : Nat, name = replayName n

/-- There are at most `max_replay_files` replay logs, and the open log is one of them. -/
def Bounded (maxReplayFiles : Int) (state : Finset String × Supervisor) : Prop :=
  ((replayFiles state.1).card : Int) ≤ maxReplayFiles ∧
    ∃ name ∈ replayFiles state.1, state.2.file = some name

theorem replayFiles_directoryOf (logs : Finset Nat) :
    replayFiles (directoryOf logs) = directoryOf logs := by
  classical
  unfold replayFiles
  rw [Finset.filter_true_of_mem]
  intro name hname
  obtain ⟨n, _, rfl⟩ := Finset.mem_image.mp hname
  exact ⟨n, rfl⟩

/-- Only the number of logs matters, since the open log is always there. -/
theorem bounded_stateAfter (hmax : 1 ≤ maxFiles) (logs : Finset Nat) (calls : Nat) :
    Bounded maxFiles (stateAfter maxFiles logs calls) ↔
      (logs.filter (calls + 1 ≤ ·)).card + min (calls + 1) maxFiles ≤ maxFiles := by
  unfold Bounded
  show ((replayFiles (directoryOf _)).card : Int) ≤ _ ∧ _ ↔ _
  rw [replayFiles_directoryOf, directoryOf, Finset.card_image_of_injective _ replayName_injective,
    card_logsAfter, Int.ofNat_le]
  apply and_iff_left
  refine ⟨replayName calls, ?_, rfl⟩
  show replayName calls ∈ replayFiles (directoryOf _)
  rw [replayFiles_directoryOf]
  apply Finset.mem_image_of_mem
  rw [mem_logsAfter]
  omega

/-- A process that finds only low numbers keeps the bound. -/
theorem bounded_of_range (hmax : 1 ≤ maxFiles) {found : Nat} (hfound : found ≤ maxFiles)
    (calls : Nat) : Bounded maxFiles (stateAfter maxFiles (Finset.range found) calls) := by
  rw [bounded_stateAfter hmax]
  have hcard : ((Finset.range found).filter (calls + 1 ≤ ·)).card = found - (calls + 1) := by
    have hinterval : (Finset.range found).filter (calls + 1 ≤ ·) = Finset.Ico (calls + 1) found := by
      ext n
      rw [Finset.mem_filter, Finset.mem_range, Finset.mem_Ico, and_comm]
    rw [hinterval, Nat.card_Ico]
  omega

/-- A process with few calls leaves only low numbers. -/
theorem logsAfter_range (found : Nat) (hcalls : calls ≤ maxFiles) :
    logsAfter maxFiles calls (Finset.range found) = Finset.range (max found calls) := by
  ext n
  rw [mem_logsAfter, Finset.mem_range, Finset.mem_range]
  omega

/-- A process with more calls leaves `maxFiles` logs, none of them with the number zero. -/
theorem not_bounded_of_many {found : Nat} (hmax : 1 ≤ maxFiles) (hfound : found ≤ maxFiles)
    (hcalls : maxFiles < calls) :
    ¬ Bounded maxFiles
      (stateAfter maxFiles (logsAfter maxFiles calls (Finset.range found)) 0) := by
  have hlogs : (logsAfter maxFiles calls (Finset.range found)).filter (0 + 1 ≤ ·) =
      Finset.Ico (calls - maxFiles) calls := by
    ext n
    rw [Finset.mem_filter, mem_logsAfter, Finset.mem_range, Finset.mem_Ico]
    omega
  rw [bounded_stateAfter hmax, hlogs, Nat.card_Ico]
  omega

/-- Processes that start with low numbers in the directory. -/
theorem history_range_bounded_iff (hmax : 1 ≤ maxFiles) (instances : List Nat) (found : Nat)
    (hfound : found ≤ maxFiles) :
    (∀ state ∈ history maxFiles instances (directoryOf (Finset.range found)),
        Bounded maxFiles state) ↔
      ∀ calls ∈ instances.dropLast, 1 + calls ≤ maxFiles := by
  induction instances generalizing found with
  | nil => simp [history]
  | cons calls rest ih =>
      have hown : ∀ state ∈ (List.range' 0 (1 + calls)).map
          (stateAfter maxFiles (Finset.range found)), Bounded maxFiles state := by
        rw [List.forall_mem_map]
        exact fun i _ => bounded_of_range hmax hfound i
      rw [history_cons hmax, List.forall_mem_append, and_iff_right hown]
      cases rest with
      | nil => simp [history]
      | cons next rest =>
          rw [List.dropLast_cons_cons, List.forall_mem_cons]
          by_cases hfew : 1 + calls ≤ maxFiles
          · rw [logsAfter_range found hfew, ih _ (by omega), and_iff_right hfew]
          · -- the next process adds a log before it deletes any
            have hbroken := not_bounded_of_many hmax hfound (Nat.lt_of_not_le hfew)
            refine iff_of_false (fun hall => hbroken (hall _ ?_)) (fun h => hfew h.1)
            rw [history_cons hmax]
            exact List.mem_append_left _ (List.mem_map_of_mem (List.mem_range'_1.mpr (by omega)))

/-- When supervisors run one after the other on an empty directory, each constructed and then
calling `RotateLog` any number of times: after every call there are at most
`max_replay_files` replay logs with the open one among them, exactly when every supervisor
but the last calls `RotateLog` at most `max_replay_files` times, its constructor included. -/
theorem history_bounded_iff (maxReplayFiles : Int) (hmax : 1 ≤ maxReplayFiles)
    (instances : List Nat) :
    (∀ state ∈ history maxReplayFiles instances ∅, Bounded maxReplayFiles state) ↔
      ∀ calls ∈ instances.dropLast, 1 + (calls : Int) ≤ maxReplayFiles := by
  lift maxReplayFiles to Nat using by omega
  have hbound := history_range_bounded_iff (by omega) instances 0 (Nat.zero_le maxReplayFiles)
  have hempty : directoryOf (Finset.range 0) = ∅ := rfl
  rw [hempty] at hbound
  rw [hbound]
  apply forall₂_congr
  intro calls _
  omega

/-- A supervisor that has rotated once leaves room for the next one. -/
theorem history_bounded_iff_two_files :
    (∀ calls ∈ [1, 5].dropLast, 1 + (calls : Int) ≤ 2) ∧
      ∀ state ∈ history 2 [1, 5] ∅, Bounded 2 state :=
  ⟨by decide, (history_bounded_iff 2 (by decide) [1, 5]).mpr (by decide)⟩

/-- With the default of ten files: after ten rotations the supervisor is restarted, and there are
eleven logs. -/
theorem history_not_bounded_restart :
    ∃ state ∈ history 10 [10, 0] ∅, (replayFiles state.1).card = 11 ∧ ¬ Bounded 10 state := by
  have hmax : 1 ≤ 10 := by decide
  have hhistory := history_cons hmax 10 [0] (Finset.range 0)
  rw [history_cons hmax 0 []] at hhistory
  refine ⟨stateAfter 10 (logsAfter 10 (1 + 10) (Finset.range 0)) 0, ?_, ?_, ?_⟩
  · show _ ∈ history (10 : Nat) [10, 0] (directoryOf (Finset.range 0))
    rw [hhistory]
    simp
  · show (replayFiles (directoryOf _)).card = 11
    rw [replayFiles_directoryOf, directoryOf,
      Finset.card_image_of_injective _ replayName_injective]
    decide
  · exact not_bounded_of_many hmax (Nat.zero_le 10) (by decide)

end Gomoku.SelfPlay
