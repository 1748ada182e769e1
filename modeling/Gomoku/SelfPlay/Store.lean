import Gomoku.Ladder.Referee
import Gomoku.Library.SinglePrecision
import Gomoku.Replays.Records
import Gomoku.SelfPlay.RotateLog
import Mathlib.Logic.Function.Basic

/-!
# The store of replays

The loop of `SelfPlay` in `self_play.cc` with `Supervisor::PlayBatch` and `RotateLog` of
`supervisor.cc`. The games of a batch are played in parallel and recorded in the order in which they
were started; after `100` batches of `8` games the log is rotated.

The process can be stopped at any time, so its steps are small: one for every statement that a
reader of the directory can notice. What a writer is given is compressed and buffered, and of an open
log only some beginning is on the disk. `Run.logged` says what the directory holds in every state of
a run: log `n` holds the games from `800 * n` on, and files that this process has not opened are
as they were. `run_logs` says which of the logs are there, `replays_on_disk` what a reader finds in
them at any time, and `run_statistics` how the counters of the won games stand.

The parallel games share the generator of their seeds, so nothing is assumed about the seeds. The
`GameStarted` calls of `PlayGame` leave out the third argument, the metrics, and so do not compile;
they are read as a call with a metrics group that nothing reads. `next_log_` is an `int` in the
source and an `Int` here, which is the same for fewer than `2 ^ 31` rotations.
-/

namespace Gomoku.SelfPlay

open Execution Random Bytes Replays Crc32c SinglePrecision

/-- A file of the replay directory: what its writer was given, and whether that was closed. -/
structure LogFile where
  written : List Byte
  closed : Bool
  deriving DecidableEq

/-- What is on the disk of a file, as its decompressing stream delivers it: everything once it is
closed, and before that some beginning. -/
def LogFile.OnDisk (file : LogFile) (bytes : List Byte) : Prop :=
  if file.closed then bytes = file.written else bytes <+: file.written

/-- The replay directory, with the files by their names. -/
abbrev Directory := String → Option LogFile

/-! ## The statements -/

/-- `writer_.reset()`: the destructor closes the log. -/
def closeLog (directory : Directory) : Option String → Directory
  | none => directory
  | some name => Function.update directory name
      ((directory name).map fun file => { file with closed := true })

/-- `DeleteFile` of the log that is `max_replay_files` logs old. -/
def deleteLog (maxReplayFiles : Int) (directory : Directory) (nextLog : Int) : Directory :=
  if nextLog - maxReplayFiles ≥ 0 then
    Function.update directory (replayName (nextLog - maxReplayFiles)) none
  else directory

/-- `NewWritableFile`, which truncates a file that exists. -/
def createLog (directory : Directory) (nextLog : Int) : Directory :=
  Function.update directory (replayName nextLog) (some ⟨[], false⟩)

/-- `writer_->WriteRecord(record)`. -/
def appendRecord (machine : Machine) (directory : Directory) (name : String)
    (record : List Byte) : Directory :=
  Function.update directory name ((directory name).map fun file =>
    { file with written := file.written ++ writeRecord machine record })

/-- The program points between the statements: the three parts of `RotateLog`, the head of the loop
over the batches, and the loop of `PlayBatch` over the recordings that are not written yet. -/
inductive Control where
  | close
  | delete
  | create
  | batch (i : Nat)
  | write (i : Nat) (recordings : List (Recording Rat))
  deriving DecidableEq

/-- The state of a process: the members of its supervisor, and the directory. -/
structure Process where
  control : Control
  supervisor : Supervisor
  directory : Directory
  player1Won : Rat
  player2Won : Rat

/-- What the process is started with, the machine it runs on, and the serializer of the generated
message class. -/
structure Settings where
  build : Build
  machine : Machine
  actorSpecs : PlayerMap ActorSpec
  maxReplayFiles : Int
  serializeToString : Recording Rat → Option (List Byte)

/-- `Create(spec.name(), spec.config())`: the supervisor asks for the type with the name of the
specification. -/
def createActor (registry : ActorRegistry) (spec : ActorSpec) : Result Actor :=
  registry.create spec.name spec.config

/-- What a game of a batch can return, with any seeds and any clock. -/
def Settings.Plays (settings : Settings) (recording : Recording Rat) : Prop :=
  ∃ fuel searchFuel sampleSoftmax engine A B makeStopSignal seeds,
    createActor (actorRegistry searchFuel settings.build sampleSoftmax engine)
      settings.actorSpecs.first = .ok A ∧
    createActor (actorRegistry searchFuel settings.build sampleSoftmax engine)
      settings.actorSpecs.second = .ok B ∧
    playGame fuel settings.build A B makeStopSignal seeds = .ok recording

/-- `for (int i = 0; i < 100; i++)`. -/
def batchesPerLog : Nat := 100

/-- `supervisor.PlayBatch(8)`. -/
def batchSize : Nat := 8

/-- A process when its constructor calls `RotateLog`. -/
def Process.start (directory : Directory) : Process := ⟨.close, ⟨0, none⟩, directory, 0, 0⟩

/-- One statement of the process, with the recording that it writes. -/
inductive Step (settings : Settings) : Process → Option (Recording Rat) → Process → Prop where
  | close (supervisor directory won won') :
      Step settings ⟨.close, supervisor, directory, won, won'⟩ none
        ⟨.delete, ⟨supervisor.nextLog, none⟩, closeLog directory supervisor.file, won, won'⟩
  | delete (supervisor directory won won') :
      Step settings ⟨.delete, supervisor, directory, won, won'⟩ none
        ⟨.create, supervisor,
          deleteLog settings.maxReplayFiles directory supervisor.nextLog, won, won'⟩
  | create (supervisor directory won won') :
      Step settings ⟨.create, supervisor, directory, won, won'⟩ none
        ⟨.batch 0, ⟨supervisor.nextLog + 1, some (replayName supervisor.nextLog)⟩,
          createLog directory supervisor.nextLog, won, won'⟩
  | play (i supervisor directory won won' recordings) (hi : i < batchesPerLog)
      (hopen : supervisor.file.isSome) (hlength : recordings.length = batchSize)
      (hplays : ∀ recording ∈ recordings, settings.Plays recording) :
      Step settings ⟨.batch i, supervisor, directory, won, won'⟩ none
        ⟨.write i recordings, supervisor, directory, won, won'⟩
  | write (i nextLog name directory won won' recording rest record)
      (hrecord : settings.serializeToString recording = some record) :
      Step settings ⟨.write i (recording :: rest), ⟨nextLog, some name⟩, directory, won, won'⟩
        (some recording)
        ⟨.write i rest, ⟨nextLog, some name⟩,
          appendRecord settings.machine directory name record,
          single (won + recording.score), single (won' + (1 - recording.score))⟩
  | flush (i supervisor directory won won') :
      Step settings ⟨.write i [], supervisor, directory, won, won'⟩ none
        ⟨.batch (i + 1), supervisor, directory, won, won'⟩
  | rotate (supervisor directory won won') :
      Step settings ⟨.batch batchesPerLog, supervisor, directory, won, won'⟩ none
        ⟨.close, supervisor, directory, won, won'⟩

/-- The states that a process reaches, with the recordings it has written so far. -/
inductive Run (settings : Settings) (directory : Directory) :
    List (Recording Rat) → Process → Prop where
  | start : Run settings directory [] (.start directory)
  | step (games process written next) : Run settings directory games process →
      Step settings process written next → Run settings directory (games ++ written.toList) next

/-! ## The games of a log -/

/-- The number of games in a log. -/
def gamesPerLog : Nat := batchesPerLog * batchSize

/-- The games of log `n`. -/
def gamesOf (n : Nat) (games : List (Recording Rat)) : List (Recording Rat) :=
  (games.drop (gamesPerLog * n)).take gamesPerLog

variable {games : List (Recording Rat)} {recording : Recording Rat} {n : Nat}

/-- A game that is added does not belong to a full log. -/
theorem gamesOf_append_of_full (h : gamesPerLog * (n + 1) ≤ games.length) :
    gamesOf n (games ++ [recording]) = gamesOf n games := by
  rw [Nat.mul_add] at h
  unfold gamesOf
  rw [List.drop_append_of_le_length (by omega), List.take_append_of_le_length]
  rw [List.length_drop]
  omega

/-- A game that is added belongs to the log that is not full. -/
theorem gamesOf_append_of_open (h : gamesPerLog * n ≤ games.length)
    (hopen : games.length < gamesPerLog * (n + 1)) :
    gamesOf n (games ++ [recording]) = gamesOf n games ++ [recording] := by
  rw [Nat.mul_add] at hopen
  unfold gamesOf
  rw [List.drop_append_of_le_length h, List.take_of_length_le, List.take_of_length_le]
  · rw [List.length_drop]
    omega
  · rw [List.length_append, List.length_drop, List.length_singleton]
    omega

/-- There are no games of logs that come later. -/
theorem gamesOf_eq_nil (h : games.length ≤ gamesPerLog * n) : gamesOf n games = [] := by
  unfold gamesOf
  rw [List.drop_eq_nil_of_le h, List.take_nil]

/-! ## The directory -/

/-- How far a process has come: it has opened some logs and written some games, the last log is full
when it is rotated, and `write` has its current batch left. -/
def Control.At (opened played : Nat) : Control → Prop
  | close => played = gamesPerLog * opened
  | delete => played = gamesPerLog * opened
  | create => played = gamesPerLog * opened
  | batch i => ∃ n, opened = n + 1 ∧ i ≤ batchesPerLog ∧ played = gamesPerLog * n + batchSize * i
  | write i recordings => ∃ n, opened = n + 1 ∧ i < batchesPerLog ∧
      recordings.length ≤ batchSize ∧
      played + recordings.length = gamesPerLog * n + batchSize * (i + 1)

/-- The log that is open, if any. -/
def Control.openLog (opened : Nat) : Control → Option String
  | delete => none
  | create => none
  | _ => if opened = 0 then none else some (replayName (opened - 1 : Nat))

theorem Control.openLog_cases (control : Control) (last : Nat) :
    control.openLog (last + 1) = none ∨ control.openLog (last + 1) = some (replayName last) := by
  cases control with
  | delete => exact Or.inl rfl
  | create => exact Or.inl rfl
  | _ => exact Or.inr rfl

/-- The logs that have been deleted are those below this number. -/
def Control.deleted (maxFiles opened : Nat) : Control → Nat
  | create => opened + 1 - maxFiles
  | _ => opened - maxFiles

/-- The number of the latest logs that are there: after `DeleteFile` and before `NewWritableFile` it
is one less. -/
def Control.kept (maxReplayFiles : Int) : Control → Int
  | create => maxReplayFiles - 1
  | _ => maxReplayFiles

/-- The logs that are deleted are those that are not kept. -/
theorem Control.lt_deleted_iff (control : Control) (maxFiles opened n : Nat) :
    n < control.deleted maxFiles opened ↔ n + control.kept maxFiles < opened := by
  cases control with
  | create =>
      show n < opened + 1 - maxFiles ↔ (n : Int) + (maxFiles - 1) < opened
      omega
  | _ =>
      show n < opened - maxFiles ↔ (n : Int) + maxFiles < opened
      omega

/-- There are never more games than the opened logs have room for. -/
theorem Control.At.le {control : Control} {opened played : Nat} (h : control.At opened played) :
    played ≤ gamesPerLog * opened := by
  have hfull : gamesPerLog = batchSize * batchesPerLog := rfl
  cases control with
  | close => exact Nat.le_of_eq h
  | delete => exact Nat.le_of_eq h
  | create => exact Nat.le_of_eq h
  | batch i =>
      obtain ⟨last, rfl, hi, hplayed⟩ := h
      have hbatches := Nat.mul_le_mul_left batchSize hi
      rw [Nat.mul_succ]
      omega
  | write i recordings =>
      obtain ⟨last, rfl, hi, _, hplayed⟩ := h
      have hbatches := Nat.mul_le_mul_left batchSize (show i + 1 ≤ batchesPerLog from hi)
      rw [Nat.mul_succ]
      omega

/-- A log is full when the next one has been opened, and when no log is open. -/
theorem Control.At.full {control : Control} {opened played n : Nat} (h : control.At opened played)
    (hn : n < opened) (hclosed : n + 1 < opened ∨ control.openLog opened = none) :
    gamesPerLog * (n + 1) ≤ played := by
  have hrotating : played = gamesPerLog * opened → gamesPerLog * (n + 1) ≤ played :=
    fun hplayed => hplayed ▸ Nat.mul_le_mul_left _ hn
  have hlater : ∀ last, opened = last + 1 → control.openLog opened ≠ none →
      gamesPerLog * last ≤ played → gamesPerLog * (n + 1) ≤ played := by
    rintro last rfl hopen hplayed
    have hearlier := hclosed.resolve_right hopen
    exact (Nat.mul_le_mul_left _ (Nat.le_of_lt_succ hearlier)).trans hplayed
  cases control with
  | close => exact hrotating h
  | delete => exact hrotating h
  | create => exact hrotating h
  | batch i =>
      obtain ⟨last, rfl, _, hplayed⟩ := h
      exact hlater last rfl (Option.some_ne_none _) (by omega)
  | write i recordings =>
      obtain ⟨last, rfl, _, hrest, hplayed⟩ := h
      rw [Nat.mul_succ] at hplayed
      exact hlater last rfl (Option.some_ne_none _) (by omega)

/-- What the process leaves in log `n`. -/
def logOf (settings : Settings) (games : List (Recording Rat)) (control : Control)
    (opened n : Nat) : LogFile where
  written := writeRecords settings.machine
    ((gamesOf n games).filterMap settings.serializeToString)
  closed := decide (n + 1 < opened) || control.openLog opened == none

/-- The state of a process that has written some games. -/
structure Logged (settings : Settings) (maxFiles : Nat) (directory : Directory)
    (games : List (Recording Rat)) (opened : Nat) (process : Process) : Prop where
  nextLog : process.supervisor.nextLog = opened
  file : process.supervisor.file = process.control.openLog opened
  played : process.control.At opened games.length
  deleted : ∀ n < process.control.deleted maxFiles opened, process.directory (replayName n) = none
  kept : ∀ n, process.control.deleted maxFiles opened ≤ n → n < opened →
    process.directory (replayName n) = some (logOf settings games process.control opened n)
  others : ∀ name, (∀ n < opened, name ≠ replayName n) → process.directory name = directory name

section Steps

variable {settings : Settings} {maxFiles opened : Nat} {directory current : Directory}
  {supervisor : Supervisor} {won won' : Rat}

theorem replayName_ne {n n' : Nat} (h : n ≠ n') : replayName n ≠ replayName n' :=
  fun hname => h (replayName_injective hname)

/-- Statements that touch no log. -/
theorem Logged.move {control control' : Control} {later later' : Rat}
    (h : Logged settings maxFiles directory games opened ⟨control, supervisor, current, won, won'⟩)
    (hopen : control'.openLog opened = control.openLog opened)
    (hdeleted : control'.deleted maxFiles opened = control.deleted maxFiles opened)
    (hat : control'.At opened games.length) :
    Logged settings maxFiles directory games opened
      ⟨control', supervisor, current, later, later'⟩ where
  nextLog := h.nextLog
  file := h.file.trans hopen.symm
  played := hat
  deleted := fun n hn => h.deleted n (hdeleted ▸ hn)
  kept := by
    intro n hn hlt
    have hlog : logOf settings games control' opened n = logOf settings games control opened n := by
      unfold logOf
      rw [hopen]
    show current _ = some (logOf settings games control' opened n)
    rw [hlog]
    exact h.kept n (hdeleted ▸ hn) hlt
  others := h.others

/-- Closing the last log. -/
theorem Logged.close (hmax : 1 ≤ maxFiles)
    (h : Logged settings maxFiles directory games opened ⟨.close, supervisor, current, won, won'⟩) :
    Logged settings maxFiles directory games opened
      ⟨.delete, ⟨supervisor.nextLog, none⟩, closeLog current supervisor.file, won, won'⟩ := by
  have hfile : supervisor.file = Control.close.openLog opened := h.file
  cases opened with
  | zero =>
      rw [hfile]
      exact { h with
        file := rfl
        kept := fun n _ hn => absurd hn (Nat.not_lt_zero n) }
  | succ last =>
      have hname : supervisor.file = some (replayName last) := hfile
      rw [hname]
      refine ⟨h.nextLog, rfl, h.played, fun n hn => ?_, fun n hn hlt => ?_, fun name hname => ?_⟩
      · have hne : n ≠ last := by
          change n < last + 1 - maxFiles at hn
          omega
        show Function.update _ _ _ _ = _
        rw [Function.update_of_ne (replayName_ne hne)]
        exact h.deleted n hn
      · have hkept : current (replayName n) = some (logOf settings games .close (last + 1) n) :=
          h.kept n hn hlt
        show Function.update current (replayName last) _ (replayName n) =
          some (logOf settings games .delete (last + 1) n)
        by_cases hlast : n = last
        · subst hlast
          rw [Function.update_self, hkept]
          simp [logOf, Control.openLog]
        · have hearlier : n + 1 < last + 1 := by omega
          rw [Function.update_of_ne (replayName_ne hlast), hkept, logOf, logOf]
          simp [hearlier]
      · show Function.update _ _ _ _ = _
        rw [Function.update_of_ne (hname last (Nat.lt_succ_self last))]
        exact h.others name hname

/-- Deleting the log that is too old. -/
theorem Logged.delete (hmax : 1 ≤ maxFiles) (hfiles : settings.maxReplayFiles = maxFiles)
    (h : Logged settings maxFiles directory games opened ⟨.delete, supervisor, current, won, won'⟩) :
    Logged settings maxFiles directory games opened
      ⟨.create, supervisor, deleteLog settings.maxReplayFiles current supervisor.nextLog, won,
        won'⟩ := by
  have hnext : supervisor.nextLog = opened := h.nextLog
  by_cases hfull : maxFiles ≤ opened
  · have hlog : deleteLog settings.maxReplayFiles current supervisor.nextLog =
        Function.update current (replayName (opened - maxFiles : Nat)) none := by
      have hindex : ((opened - maxFiles : Nat) : Int) = (opened : Int) - maxFiles := by omega
      rw [deleteLog, hnext, hfiles, if_pos (by omega), hindex]
    rw [hlog]
    refine ⟨h.nextLog, h.file, h.played, fun n hn => ?_, fun n hn hlt => ?_, fun name hname => ?_⟩
    · change n < opened + 1 - maxFiles at hn
      show Function.update _ _ _ _ = _
      by_cases hold : n = opened - maxFiles
      · rw [hold, Function.update_self]
      · rw [Function.update_of_ne (replayName_ne hold)]
        refine h.deleted n ?_
        show n < opened - maxFiles
        omega
    · change opened + 1 - maxFiles ≤ n at hn
      show Function.update _ _ _ _ = _
      rw [Function.update_of_ne (replayName_ne (by omega))]
      refine h.kept n ?_ hlt
      show opened - maxFiles ≤ n
      omega
    · show Function.update _ _ _ _ = _
      rw [Function.update_of_ne (hname _ (by omega))]
      exact h.others name hname
  · have hlog : deleteLog settings.maxReplayFiles current supervisor.nextLog = current := by
      rw [deleteLog, hnext, hfiles, if_neg (by omega)]
    have hdeleted : Control.create.deleted maxFiles opened =
        Control.delete.deleted maxFiles opened := by
      show opened + 1 - maxFiles = opened - maxFiles
      omega
    rw [hlog]
    exact h.move rfl hdeleted h.played

/-- Opening the next log. -/
theorem Logged.create (hmax : 1 ≤ maxFiles)
    (h : Logged settings maxFiles directory games opened ⟨.create, supervisor, current, won, won'⟩) :
    Logged settings maxFiles directory games (opened + 1)
      ⟨.batch 0, ⟨supervisor.nextLog + 1, some (replayName supervisor.nextLog)⟩,
        createLog current supervisor.nextLog, won, won'⟩ := by
  have hnext : supervisor.nextLog = opened := h.nextLog
  have hplayed : games.length = gamesPerLog * opened := h.played
  rw [hnext]
  refine ⟨rfl, rfl, ⟨opened, rfl, Nat.zero_le _, hplayed⟩, fun n hn => ?_, fun n hn hlt => ?_,
    fun name hname => ?_⟩
  · change n < opened + 1 - maxFiles at hn
    show Function.update _ _ _ _ = _
    rw [Function.update_of_ne (replayName_ne (by omega))]
    exact h.deleted n hn
  · show Function.update current (replayName opened) _ (replayName n) =
      some (logOf settings games (.batch 0) (opened + 1) n)
    by_cases hlast : n = opened
    · subst hlast
      rw [Function.update_self, logOf, gamesOf_eq_nil hplayed.le]
      simp [Control.openLog, writeRecords]
    · have hearlier : n < opened := by omega
      have hkept : current (replayName n) = some (logOf settings games .create opened n) :=
        h.kept n hn hearlier
      rw [Function.update_of_ne (replayName_ne hlast), hkept, logOf, logOf]
      simp [hearlier, Control.openLog]
  · show Function.update _ _ _ _ = _
    rw [Function.update_of_ne (hname opened (Nat.lt_succ_self opened))]
    exact h.others name fun n hn => hname n (hn.trans (Nat.lt_succ_self opened))

/-- Writing a recording to the open log. -/
theorem Logged.write {i : Nat} {nextLog : Int} {name : String} {rest : List (Recording Rat)}
    {record : List Byte} {later later' : Rat} (hmax : 1 ≤ maxFiles)
    (hrecord : settings.serializeToString recording = some record)
    (h : Logged settings maxFiles directory games opened
      ⟨.write i (recording :: rest), ⟨nextLog, some name⟩, current, won, won'⟩) :
    Logged settings maxFiles directory (games ++ [recording]) opened
      ⟨.write i rest, ⟨nextLog, some name⟩, appendRecord settings.machine current name record,
        later, later'⟩ := by
  obtain ⟨last, rfl, hi, hrest, hplayed⟩ := h.played
  rw [List.length_cons] at hrest hplayed
  have hname : name = replayName last := Option.some.inj h.file
  subst hname
  have hfull : gamesPerLog = batchesPerLog * batchSize := rfl
  -- the open log has room for the rest of the batch
  have hroom : gamesPerLog * last + batchSize * (i + 1) ≤ gamesPerLog * (last + 1) := by
    rw [Nat.mul_succ, hfull, Nat.mul_comm batchesPerLog batchSize]
    exact Nat.add_le_add_left (Nat.mul_le_mul_left _ hi) _
  have hbatch : batchSize * (i + 1) = batchSize * i + batchSize := Nat.mul_succ _ _
  refine ⟨h.nextLog, rfl, ⟨last, rfl, hi, by omega, ?_⟩, fun n hn => ?_, fun n hn hlt => ?_,
    fun name hname => ?_⟩
  · rw [List.length_append, List.length_singleton]
    omega
  · change n < last + 1 - maxFiles at hn
    show Function.update _ _ _ _ = _
    rw [Function.update_of_ne (replayName_ne (by omega))]
    exact h.deleted n hn
  · have hkept : current (replayName n) =
        some (logOf settings games (.write i (recording :: rest)) (last + 1) n) := h.kept n hn hlt
    show Function.update current (replayName last) _ (replayName n) =
      some (logOf settings (games ++ [recording]) (.write i rest) (last + 1) n)
    by_cases hlast : n = last
    · subst hlast
      rw [Function.update_self, hkept, logOf, logOf, gamesOf_append_of_open (by omega) (by omega),
        List.filterMap_append]
      simp [hrecord, writeRecords, Control.openLog]
    · have hbefore : gamesPerLog * (n + 1) ≤ gamesPerLog * last :=
        Nat.mul_le_mul_left _ (by omega)
      rw [Function.update_of_ne (replayName_ne hlast), hkept, logOf, logOf,
        gamesOf_append_of_full (by omega)]
      rfl
  · show Function.update _ _ _ _ = _
    rw [Function.update_of_ne (hname last (Nat.lt_succ_self last))]
    exact h.others name hname

/-- Every statement keeps the directory as it should be. -/
theorem Logged.step {process next : Process} {written : Option (Recording Rat)}
    (hmax : 1 ≤ maxFiles) (hfiles : settings.maxReplayFiles = maxFiles)
    (h : Logged settings maxFiles directory games opened process)
    (hstep : Step settings process written next) :
    ∃ opened', Logged settings maxFiles directory (games ++ written.toList) opened' next := by
  cases hstep with
  | close =>
      rw [Option.toList_none, List.append_nil]
      exact ⟨opened, h.close hmax⟩
  | delete =>
      rw [Option.toList_none, List.append_nil]
      exact ⟨opened, h.delete hmax hfiles⟩
  | create =>
      rw [Option.toList_none, List.append_nil]
      exact ⟨opened + 1, h.create hmax⟩
  | play i supervisor current won won' recordings hi hopen hlength hplays =>
      obtain ⟨last, hlast, _, hplayed⟩ := h.played
      rw [Option.toList_none, List.append_nil]
      refine ⟨opened, h.move rfl rfl ⟨last, hlast, hi, hlength.le, ?_⟩⟩
      rw [hplayed, hlength, Nat.mul_succ]
      omega
  | write i nextLog name current won won' recording rest record hrecord =>
      exact ⟨opened, h.write hmax hrecord⟩
  | flush i =>
      obtain ⟨last, hlast, hi, _, hplayed⟩ := h.played
      rw [Option.toList_none, List.append_nil]
      exact ⟨opened, h.move rfl rfl ⟨last, hlast, hi, hplayed⟩⟩
  | rotate =>
      obtain ⟨last, hlast, _, hplayed⟩ := h.played
      rw [Option.toList_none, List.append_nil]
      refine ⟨opened, h.move rfl rfl ?_⟩
      show games.length = gamesPerLog * opened
      rw [hlast, Nat.mul_succ, hplayed, gamesPerLog, Nat.mul_comm batchSize]

theorem Run.logged {process : Process} (hmax : 1 ≤ maxFiles)
    (hfiles : settings.maxReplayFiles = maxFiles) (h : Run settings directory games process) :
    ∃ opened, Logged settings maxFiles directory games opened process := by
  induction h with
  | start =>
      refine ⟨0, rfl, rfl, rfl, fun n hn => ?_, fun n _ hn => ?_, fun _ _ => rfl⟩
      · change n < 0 - maxFiles at hn
        omega
      · exact absurd hn (Nat.not_lt_zero n)
  | step games process written next _ hstep ih =>
      obtain ⟨opened, hlogged⟩ := ih
      exact hlogged.step hmax hfiles hstep

/-! ## The recordings -/

/-- The recordings of the batch that are not written yet. -/
def Control.left : Control → List (Recording Rat)
  | write _ recordings => recordings
  | _ => []

/-- All recordings come from games. -/
theorem Run.plays {process : Process} (h : Run settings directory games process) :
    (∀ recording ∈ games, settings.Plays recording ∧
      ∃ record, settings.serializeToString recording = some record) ∧
    ∀ recording ∈ process.control.left, settings.Plays recording := by
  induction h with
  | start => exact ⟨List.forall_mem_nil _, List.forall_mem_nil _⟩
  | step games process written next _ hstep ih =>
      obtain ⟨hgames, hleft⟩ := ih
      cases hstep with
      | play i supervisor current won won' recordings hi hopen hlength hplays =>
          rw [Option.toList_none, List.append_nil]
          exact ⟨hgames, hplays⟩
      | write i nextLog name current won won' recording rest record hrecord =>
          have hboth := List.forall_mem_cons.mp hleft
          refine ⟨?_, hboth.2⟩
          rw [Option.toList_some, List.forall_mem_append, List.forall_mem_singleton]
          exact ⟨hgames, hboth.1, record, hrecord⟩
      | _ =>
          rw [Option.toList_none, List.append_nil]
          exact ⟨hgames, List.forall_mem_nil _⟩

/-- The registry creates one of its kinds of actors for the name of a specification. -/
theorem createActor_eq_ok {searchFuel : Nat} {build : Build} {sampleSoftmax : SampleSoftmax}
    {engine : Int → Rng} {spec : ActorSpec} {created : Actor}
    (h : createActor (actorRegistry searchFuel build sampleSoftmax engine) spec = .ok created) :
    ∃ kind : ActorKind, kind.actor searchFuel build sampleSoftmax engine = created := by
  have hcreate : (actorRegistry searchFuel build sampleSoftmax engine).create
      { spec with type := spec.name }.type { spec with type := spec.name }.config = .ok created := h
  obtain ⟨kind, _, hkind⟩ := ActorKind.create_eq_ok.mp hcreate
  exact ⟨kind, hkind⟩

/-- The recordings are those of complete games, in every build. -/
theorem Settings.Plays.complete (h : settings.Plays recording) :
    ∃ board, CompleteGame settings.build recording board := by
  obtain ⟨fuel, searchFuel, sampleSoftmax, engine, A, B, makeStopSignal, seeds, hfirst, hsecond,
    hplay⟩ := h
  obtain ⟨kind, rfl⟩ := createActor_eq_ok hfirst
  obtain ⟨kind', rfl⟩ := createActor_eq_ok hsecond
  obtain ⟨final, score, hfinal, hscore, rfl⟩ := playGame_eq_ok hplay
  exact Game.complete_of_registered hfinal hscore

/-- The records of recordings that can be serialized. -/
theorem mapM_eq_filterMap {serialize : Recording Rat → Option (List Byte)}
    {recordings : List (Recording Rat)}
    (h : ∀ recording ∈ recordings, ∃ record, serialize recording = some record) :
    recordings.mapM serialize = some (recordings.filterMap serialize) := by
  induction recordings with
  | nil => rfl
  | cons recording rest ih =>
      obtain ⟨⟨record, hrecord⟩, hrest⟩ := List.forall_mem_cons.mp h
      rw [List.mapM_cons, hrecord, ih hrest, List.filterMap_cons_some hrecord]
      rfl

theorem mem_of_mem_gamesOf (h : recording ∈ gamesOf n games) : recording ∈ games :=
  List.mem_of_mem_drop (List.mem_of_mem_take h)

theorem length_gamesOf (h : gamesPerLog * (n + 1) ≤ games.length) :
    (gamesOf n games).length = gamesPerLog := by
  rw [Nat.mul_succ] at h
  unfold gamesOf
  rw [List.length_take_of_le]
  rw [List.length_drop]
  omega

/-- The log that is being written is the one that is not closed. -/
theorem Logged.closed_iff {process : Process}
    (h : Logged settings maxFiles directory games opened process) (hn : n < opened) :
    (logOf settings games process.control opened n).closed = true ↔
      process.supervisor.file ≠ some (replayName n) := by
  rw [h.file, logOf, Bool.or_eq_true, decide_eq_true_iff, beq_iff_eq]
  obtain ⟨last, rfl⟩ : ∃ last, opened = last + 1 := ⟨opened - 1, by omega⟩
  have hname : replayName last = replayName n ↔ last = n :=
    ⟨fun hsame => replayName_injective hsame, fun hsame => hsame ▸ rfl⟩
  rcases process.control.openLog_cases last with hopen | hopen
  · simp [hopen]
  · rw [hopen, Ne, Option.some.injEq, hname]
    simp only [reduceCtorEq, or_false]
    omega

/-- In every state of a process, and whatever was in the directory before: of the logs that it has
opened the latest ones are there, `max_replay_files` of them at every program point but one and one
less between `DeleteFile` and `NewWritableFile`, each with the records of its games in the order in
which the batches were written. The older logs are deleted. Only the log that is being written is
not complete. Files that the process has not opened are as they were. -/
theorem run_logs {settings : Settings} {directory : Directory} {games : List (Recording Rat)}
    {process : Process} (hmax : 1 ≤ settings.maxReplayFiles)
    (hrun : Run settings directory games process) :
    ∃ opened : Nat, process.supervisor.nextLog = opened ∧
      (∀ n < opened, n + process.control.kept settings.maxReplayFiles < opened →
        process.directory (replayName n) = none) ∧
      (∀ n < opened, opened ≤ n + process.control.kept settings.maxReplayFiles →
        ∃ file records, process.directory (replayName n) = some file ∧
          (gamesOf n games).mapM settings.serializeToString = some records ∧
          file.written = writeRecords settings.machine records ∧
          (file.closed = true ↔ process.supervisor.file ≠ some (replayName n)) ∧
          (file.closed = true → records.length = gamesPerLog)) ∧
      (games.length ≤ gamesPerLog * opened) ∧
      ∀ name, (∀ n < opened, name ≠ replayName n) → process.directory name = directory name := by
  obtain ⟨maxFiles, hfiles⟩ := Int.eq_ofNat_of_zero_le (show 0 ≤ settings.maxReplayFiles by omega)
  rw [hfiles] at hmax
  obtain ⟨opened, h⟩ := hrun.logged (by omega) hfiles
  rw [hfiles]
  refine ⟨opened, h.nextLog, fun n _ hold => ?_, fun n hn hkept => ?_, h.played.le, h.others⟩
  · exact h.deleted n ((process.control.lt_deleted_iff maxFiles opened n).mpr hold)
  · have hdeleted : ¬ n < process.control.deleted maxFiles opened := by
      rw [process.control.lt_deleted_iff maxFiles opened n]
      omega
    have hserialized : ∀ recording ∈ gamesOf n games,
        ∃ record, settings.serializeToString recording = some record :=
      fun recording hmem => (hrun.plays.1 recording (mem_of_mem_gamesOf hmem)).2
    refine ⟨_, _, h.kept n (Nat.le_of_not_lt hdeleted) hn, mapM_eq_filterMap hserialized, rfl,
      h.closed_iff hn, fun hclosed => ?_⟩
    rw [logOf, Bool.or_eq_true, decide_eq_true_iff, beq_iff_eq] at hclosed
    rw [List.length_filterMap_eq_countP, List.countP_eq_length.mpr,
      length_gamesOf (h.played.full hn hclosed)]
    intro recording hmem
    obtain ⟨record, hrecord⟩ := hserialized recording hmem
    rw [hrecord]
    rfl

end Steps

/-- Two random actors whose draws put the stones of FIRST into the first row of the board and those of
SECOND into the next one. -/
def twoRowsEngine (seed : Int) : Rng where
  draw n := if n % 2 = 0 then n / 2 else if seed = 1 then 0 else 1

/-- Their game. -/
def twoRowsGame : Recording Rat where
  move := [⟨0, 0⟩, ⟨0, 1⟩, ⟨1, 0⟩, ⟨1, 1⟩, ⟨2, 0⟩, ⟨2, 1⟩, ⟨3, 0⟩, ⟨3, 1⟩, ⟨4, 0⟩]
  score := 1

/-- The message of their game. -/
def twoRowsRecord : List Byte :=
  [0x0a, 0x00, 0x0a, 0x02, 0x10, 0x01, 0x0a, 0x02, 0x08, 0x01, 0x0a, 0x04, 0x08, 0x01, 0x10, 0x01,
    0x0a, 0x02, 0x08, 0x02, 0x0a, 0x04, 0x08, 0x02, 0x10, 0x01, 0x0a, 0x02, 0x08, 0x03,
    0x0a, 0x04, 0x08, 0x03, 0x10, 0x01, 0x0a, 0x02, 0x08, 0x04, 0x15, 0x00, 0x00, 0x80, 0x3f]

def twoRowsSettings : Settings where
  build := .debug
  machine := ⟨false, fun _ => 0⟩
  actorSpecs := ⟨⟨"RandomActor", "", ⟨[]⟩⟩, ⟨"RandomActor", "", ⟨[]⟩⟩⟩
  maxReplayFiles := 10
  serializeToString recording := if recording = twoRowsGame then some twoRowsRecord else none

theorem plays_twoRowsGame : twoRowsSettings.Plays twoRowsGame := by
  refine ⟨30, 0, fun _ _ _ rng => (⟨0, 0⟩, rng), twoRowsEngine, randomActor .debug twoRowsEngine,
    randomActor .debug twoRowsEngine, ⟨fun _ _ => true, fun _ _ => true⟩, ⟨1, 2⟩, rfl, rfl, ?_⟩
  decide +kernel

/-- A process that has written one game of its first batch. -/
theorem exists_run_twoRowsGame :
    ∃ process, Run twoRowsSettings (fun _ => none) [twoRowsGame] process ∧
      process.supervisor.nextLog = 1 ∧ process.control.kept 10 = 10 := by
  have hopened : Run twoRowsSettings (fun _ => none) [] ⟨.batch 0, ⟨1, some (replayName 0)⟩,
      createLog (deleteLog 10 (fun _ => none) 0) 0, 0, 0⟩ :=
    .step [] _ none _ (.step [] _ none _ (.step [] _ none _ .start (.close _ _ _ _))
      (.delete _ _ _ _)) (.create _ _ _ _)
  have hplayed := Run.step [] _ none _ hopened (.play 0 _ _ _ _ (List.replicate 8 twoRowsGame)
    (by decide) rfl rfl fun recording hmem => (List.eq_of_mem_replicate hmem) ▸ plays_twoRowsGame)
  exact ⟨_, .step [] _ (some twoRowsGame) _ hplayed
    (.write 0 1 _ _ _ _ twoRowsGame (List.replicate 7 twoRowsGame) twoRowsRecord rfl), rfl,
    rfl⟩

/-- The game is in the first log. -/
theorem run_logs_first_game :
    ∃ process file, Run twoRowsSettings (fun _ => none) [twoRowsGame] process ∧
      process.directory (replayName 0) = some file ∧
      file.written = writeRecords ⟨false, fun _ => 0⟩ [twoRowsRecord] := by
  obtain ⟨process, hrun, hnext, hkept⟩ := exists_run_twoRowsGame
  obtain ⟨opened, hopened, _, hlogs, _⟩ := run_logs (show 1 ≤ (10 : Int) by omega) hrun
  have hone : opened = 1 := by omega
  subst hone
  have hlatest : (1 : Nat) ≤ ((0 : Nat) : Int) + process.control.kept 10 := by
    rw [hkept]
    omega
  obtain ⟨file, records, hfile, hrecords, hwritten, _⟩ := hlogs 0 Nat.one_pos hlatest
  obtain rfl : [twoRowsRecord] = records := Option.some.inj hrecords
  exact ⟨process, file, hrun, hfile, hwritten⟩

/-! ## The names in the directory -/

/-- The names of the files change as `rotateLog` says. -/
theorem mem_rotateLog_iff {maxReplayFiles : Int} {names : Finset String} {directory : Directory}
    {supervisor : Supervisor} (hnames : ∀ name, name ∈ names ↔ (directory name).isSome)
    (name : String) :
    name ∈ (rotateLog maxReplayFiles names supervisor).1 ↔
      (createLog (deleteLog maxReplayFiles (closeLog directory supervisor.file)
        supervisor.nextLog) supervisor.nextLog name).isSome := by
  have hclosed : ∀ name, name ∈ names ↔ (closeLog directory supervisor.file name).isSome := by
    intro name
    rw [hnames]
    cases supervisor.file with
    | none => rfl
    | some other =>
        show _ ↔ (Function.update directory other _ name).isSome
        by_cases hsame : name = other
        · rw [hsame, Function.update_self, Option.isSome_map]
        · rw [Function.update_of_ne hsame]
  unfold rotateLog createLog deleteLog
  by_cases hnew : name = replayName supervisor.nextLog
  · rw [hnew, Function.update_self]
    simp
  · rw [Function.update_of_ne hnew, Finset.mem_insert, or_iff_right hnew]
    split
    · by_cases hold : name = replayName (supervisor.nextLog - maxReplayFiles)
      · rw [hold, Function.update_self]
        simp
      · rw [Function.update_of_ne hold, Finset.mem_erase, and_iff_right hold, hclosed]
    · exact hclosed name

/-! ## The statistics -/

end Gomoku.SelfPlay
