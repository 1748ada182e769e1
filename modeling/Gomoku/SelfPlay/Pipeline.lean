import Gomoku.Networks.Labels
import Gomoku.SelfPlay.Store

/-!
# From self-play to training samples

`input` of `networks/train.py` reads the replay logs with a record reader and decodes one record after
the other. The logs are read while self-play writes them, or after it was stopped somewhere. Whenever
that is, what is read from a log are games that were played, complete and in their order, and
`DecodeReplays` makes samples of their positions (`replays_on_disk`).

Serialising and parsing belong to the generated message class. A message is parsed as it was
serialised, and no message has `2 ^ 31` bytes.
-/

namespace Gomoku.SelfPlay

open Execution Bytes Replays Crc32c DecodeReplays

variable {settings : Settings} {directory : Directory} {games : List (Recording Rat)}
  {process : Process} {n : Nat} {file : LogFile}

/-- What is written to a log that was opened. -/
theorem Run.written_eq (hmax : 1 ≤ settings.maxReplayFiles)
    (hrun : Run settings directory games process) (hn : (n : Int) < process.supervisor.nextLog)
    (hfile : process.directory (replayName n) = some file) :
    file.written = writeRecords settings.machine
      ((gamesOf n games).filterMap settings.serializeToString) := by
  obtain ⟨maxFiles, hfiles⟩ := Int.eq_ofNat_of_zero_le (show 0 ≤ settings.maxReplayFiles by omega)
  rw [hfiles] at hmax
  obtain ⟨opened, h⟩ := hrun.logged (by omega) hfiles
  rw [h.nextLog] at hn
  have hopened : n < opened := by omega
  by_cases hdeleted : n < process.control.deleted maxFiles opened
  · rw [h.deleted n hdeleted] at hfile
    cases hfile
  · rw [h.kept n (Nat.le_of_not_lt hdeleted) hopened] at hfile
    rw [← Option.some.inj hfile]
    rfl

/-- A beginning of the records of a log belongs to a beginning of its games. -/
theorem exists_games_of_records {serialize : Recording Rat → Option (List Byte)}
    {recordings : List (Recording Rat)} {before after : List (List Byte)}
    (hserialize : ∀ recording ∈ recordings, ∃ record, serialize recording = some record)
    (h : recordings.filterMap serialize = before ++ after) :
    ∃ found later, recordings = found ++ later ∧ found.filterMap serialize = before ∧
      later.filterMap serialize = after := by
  induction before generalizing recordings with
  | nil => exact ⟨[], recordings, rfl, rfl, h⟩
  | cons record before ih =>
      cases recordings with
      | nil => cases h
      | cons recording recordings =>
          obtain ⟨⟨first, hfirst⟩, hrest⟩ := List.forall_mem_cons.mp hserialize
          rw [List.filterMap_cons_some hfirst, List.cons_append] at h
          obtain ⟨rfl, htail⟩ := List.cons.inj h
          obtain ⟨found, later, rfl, hfound, hlater⟩ := ih hrest htail
          exact ⟨recording :: found, later, rfl, by rw [List.filterMap_cons_some hfirst, hfound],
            hlater⟩

/-- The rows that are decoded from one record, one for each position. -/
theorem compute_rows {build : Build} {recording : Recording Rat} (hlegal : Legal recording.move)
    {parseFromString : List Byte → Option (Recording Rat)} {record : List Byte}
    (hparse : parseFromString record = some recording) :
    ∃ output, compute build parseFromString [record] = .ok (.ok output) ∧
      output.features.shape = [recording.move.length + 1, 19, 19, 3] ∧
      output.scores.shape = [recording.move.length + 1] ∧
      ∀ k ≤ recording.move.length,
        output.scores.read [k] =
          some (if k % 2 = 0 then recording.score else 1 - recording.score) ∧
        ∀ (field : Field) (j : Nat), j < 3 →
          output.features.read [k, field.1, field.2, j] =
            some (if (Board.after (recording.move.take k)).owner field.position =
              channel (Board.after (recording.move.take k)) j then 1 else 0) := by
  have hrecords : [record].mapM parseFromString = some [recording] := by simp [hparse]
  have hall : ∀ other ∈ [recording], Legal other.move :=
    List.forall_mem_singleton.mpr hlegal
  have hcount : ([recording].flatMap rows).length = recording.move.length + 1 := by
    rw [List.flatMap_singleton, length_rows]
  have hshape : ((blank ([recording].flatMap rows).length : Output Rat).write 0
      ([recording].flatMap rows)).Shaped (recording.move.length + 1) := by
    rw [← hcount]
    exact ⟨rfl, rfl⟩
  refine ⟨_, compute_eq build hrecords hall, hshape.1, hshape.2,
    fun k hk => ⟨?_, fun field j hj => ?_⟩⟩
  · have hread := read_scores_table (show [recording] = [] ++ recording :: [] from rfl) hlegal hk
    simpa using hread
  · have hrow := table_getElem? [] [] hk
    rw [List.map_nil, List.sum_nil, Nat.zero_add] at hrow
    exact read_features hrow field hj

/-- Reading a replay log that self-play has opened, at any time and whatever part of it is on the disk
by then: the records are those of a beginning of its games, and of all of them if it is closed. After
them the reader reports the end of the file or that the next record is cut off. Every record parses
to a complete game that was played, and is decoded to exactly one row for each of its positions with
the score of the player to move. -/
theorem replays_on_disk {settings : Settings} {directory : Directory}
    {games : List (Recording Rat)} {process : Process} (hmax : 1 ≤ settings.maxReplayFiles)
    (hrun : Run settings directory games process) {n : Nat}
    (hn : (n : Int) < process.supervisor.nextLog) {file : LogFile}
    (hfile : process.directory (replayName n) = some file) {bytes : List Byte}
    (hdisk : file.OnDisk bytes) (reader : Machine) (build : Build)
    (parseFromString : List Byte → Option (Recording Rat))
    (hparse : ∀ recording record, settings.serializeToString recording = some record →
      parseFromString record = some recording)
    (hsize : ∀ recording record, settings.serializeToString recording = some record →
      record.length < 2 ^ 31) :
    ∃ found later records reason, gamesOf n games = found ++ later ∧
      found.mapM settings.serializeToString = some records ∧
      readFile reader bytes = some (withOffsets reader records, reason) ∧
      (reason = .atEnd ∨
        ∃ offset : Nat, reason = .failed (.dataLoss ("truncated record at " ++ toString offset))) ∧
      (file.closed = true → later = [] ∧ reason = .atEnd) ∧
      ∀ record ∈ records, ∃ recording ∈ found, parseFromString record = some recording ∧
        (∃ board, CompleteGame settings.build recording board) ∧
        ∃ output, compute build parseFromString [record] = .ok (.ok output) ∧
          output.features.shape = [recording.move.length + 1, 19, 19, 3] ∧
          output.scores.shape = [recording.move.length + 1] ∧
          ∀ k ≤ recording.move.length,
            output.scores.read [k] =
              some (if k % 2 = 0 then recording.score else 1 - recording.score) ∧
            ∀ (field : Field) (j : Nat), j < 3 →
              output.features.read [k, field.1, field.2, j] =
                some (if (Board.after (recording.move.take k)).owner field.position =
                  channel (Board.after (recording.move.take k)) j then 1 else 0) := by
  have hplayed : ∀ recording ∈ gamesOf n games, settings.Plays recording ∧
      ∃ record, settings.serializeToString recording = some record :=
    fun recording hmem => hrun.plays.1 recording (mem_of_mem_gamesOf hmem)
  have hwritten := hrun.written_eq hmax hn hfile
  have hlength : ∀ record ∈ (gamesOf n games).filterMap settings.serializeToString,
      record.length + 4 < 2 ^ 63 := by
    intro record hmem
    obtain ⟨recording, _, hrecord⟩ := List.mem_filterMap.mp hmem
    have hlt := hsize recording record hrecord
    omega
  have hprefix : bytes <+: writeRecords settings.machine
      ((gamesOf n games).filterMap settings.serializeToString) := by
    rw [← hwritten]
    unfold LogFile.OnDisk at hdisk
    split at hdisk
    · exact hdisk ▸ List.prefix_rfl
    · exact hdisk
  obtain ⟨before, after, part, hsplit, hcut, hnil, hwhole, _, hread⟩ :=
    @readFile_of_cut reader settings.machine _ hlength bytes hprefix
  obtain ⟨found, later, hgames, rfl, hlater⟩ :=
    exists_games_of_records (fun recording hmem => (hplayed recording hmem).2) hsplit
  have hfound : ∀ recording ∈ found, recording ∈ gamesOf n games :=
    fun recording hmem => hgames ▸ List.mem_append_left _ hmem
  refine ⟨found, later, _, _, hgames,
    mapM_eq_filterMap fun recording hmem => (hplayed recording (hfound recording hmem)).2, hread, ?_,
    fun hclosed => ?_, fun record hmem => ?_⟩
  · unfold tornReason
    split
    · exact Or.inl rfl
    · exact Or.inr ⟨_, rfl⟩
  · unfold LogFile.OnDisk at hdisk
    rw [if_pos hclosed, hwritten] at hdisk
    have hafter := hwhole hdisk
    rw [hafter] at hlater
    refine ⟨?_, ?_⟩
    · -- every game has a record, so none is left
      rw [List.eq_nil_iff_forall_not_mem]
      intro recording hmem
      obtain ⟨record, hrecord⟩ := (hplayed recording (hgames ▸ List.mem_append_right _ hmem)).2
      have hin := List.mem_filterMap.mpr ⟨recording, hmem, hrecord⟩
      rw [hlater] at hin
      cases hin
    · rw [hnil hafter]
      rfl
  · obtain ⟨recording, hrecording, hrecord⟩ := List.mem_filterMap.mp hmem
    obtain ⟨board, hcomplete⟩ := (hplayed recording (hfound recording hrecording)).1.complete
    have hparsed := hparse recording record hrecord
    exact ⟨recording, hrecording, hparsed, ⟨board, hcomplete⟩,
      compute_rows hcomplete.legal hparsed⟩

/-- The first log after its first game, when all of it has reached the disk. -/
theorem replays_on_disk_first_game :
    ∃ process file found later records reason,
      Run twoRowsSettings (fun _ => none) [twoRowsGame] process ∧
      process.directory (replayName 0) = some file ∧
      gamesOf 0 [twoRowsGame] = found ++ later ∧
      found.mapM twoRowsSettings.serializeToString = some records ∧
      readFile ⟨true, fun _ => 0⟩ file.written =
        some (withOffsets ⟨true, fun _ => 0⟩ records, reason) := by
  obtain ⟨process, hrun, hnext, hkept⟩ := exists_run_twoRowsGame
  obtain ⟨opened, h⟩ := hrun.logged (show 1 ≤ 10 by omega) rfl
  have hopened : opened = 1 := by
    have hsame := h.nextLog
    omega
  have hnone : ¬ 0 < process.control.deleted 10 opened := by
    rw [process.control.lt_deleted_iff 10 opened 0,
      show process.control.kept (10 : Nat) = 10 from hkept]
    omega
  have hfile := h.kept 0 (Nat.le_of_not_lt hnone) (by omega)
  have hdisk : (logOf twoRowsSettings [twoRowsGame] process.control opened 0).OnDisk
      (logOf twoRowsSettings [twoRowsGame] process.control opened 0).written := by
    unfold LogFile.OnDisk
    split
    · rfl
    · exact List.prefix_rfl
  have hserialize : ∀ recording record,
      twoRowsSettings.serializeToString recording = some record →
        recording = twoRowsGame ∧ record = twoRowsRecord := by
    intro recording record hrecord
    change (if recording = twoRowsGame then some twoRowsRecord else none) = some record at hrecord
    split at hrecord
    · rename_i hsame
      exact ⟨hsame, (Option.some.inj hrecord).symm⟩
    · cases hrecord
  obtain ⟨found, later, records, reason, hgames, hrecords, hread, _⟩ := replays_on_disk
    (show 1 ≤ (10 : Int) by decide) hrun (by omega) hfile hdisk ⟨true, fun _ => 0⟩ .optimised
    (fun record => if record = twoRowsRecord then some twoRowsGame else none)
    (fun recording record hrecord => by
      obtain ⟨rfl, rfl⟩ := hserialize recording record hrecord
      exact if_pos rfl)
    (fun recording record hrecord => by
      obtain ⟨rfl, rfl⟩ := hserialize recording record hrecord
      decide)
  exact ⟨process, _, found, later, records, reason, hrun, hfile, hgames, hrecords, hread⟩

end Gomoku.SelfPlay
