import Mathlib.Algebra.Group.Nat.Defs
import Gomoku.Library.Execution
import Gomoku.Library.Framing
import Gomoku.Replays.Crc32c

/-!
# Record files

`lib/io/record_writer.cc`, `record_reader.cc` and `kernels/tf_record_reader_op.cc`: the format of
the replay logs. A record is framed by its length with a checksum and by a checksum of its data.
The reader gets the bytes of a file from a stream that ends with the status `OutOfRange`
(`ReadNBytes` of the decompressing stream), also in the middle of a request.

Of every file the reader returns exactly the records whose frames it starts with
(`readFile_longest`): all of them for a written file, the complete ones for a file that is cut off
(`readFile_truncated`), and those before the first damaged one for a file with a few changed bytes
(`readFile_corrupted`).
-/

namespace Replays

open Bytes Execution Crc32c

/-- The statuses of the reader. -/
inductive Status where
  | outOfRange (message : String)
  | dataLoss (message : String)
  deriving DecidableEq, Repr

/-! ## Writing -/

/-- `RecordWriter::WriteRecord`: what is appended to the file. -/
def writeRecord (machine : Machine) (data : List Byte) : List Byte :=
  let length := encodeFixed64 (BitVec.ofNat 64 data.length)
  let header := length ++ encodeFixed32 (maskedCrc machine length)
  let footer := encodeFixed32 (maskedCrc machine data)
  header ++ data ++ footer

/-! ## Reading -/

/-- `ReadNBytes` of the decompressing stream: the next bytes, or the status at its end. -/
def readNBytes (n : Nat) (stream : List Byte) : Except Status (List Byte × List Byte) :=
  if n ≤ stream.length then .ok (stream.take n, stream.drop n)
  else .error (.outOfRange "EOF reached")

/-- `RecordReader::ReadChecksummed`. No string has `2 ^ 63` bytes: the buffer cannot be resized to
that size. Below that it can here, whatever the memory of the machine is: where a corrupted length
asks for more than there is, the source ends with `std::bad_alloc` and this with a status. -/
def readChecksummed (machine : Machine) (offset n : Nat) (stream : List Byte) :
    Result (Except Status (List Byte × List Byte)) :=
  if n ≥ 2 ^ 64 - 1 - 4 then return .error (.dataLoss "record size too large")
  else
    let expected := n + 4
    if expected ≥ 2 ^ 63 then .error .outOfRange
    else
      match readNBytes expected stream with
      | .error status => return .error status
      | .ok (storage, rest) =>
          if storage.length ≠ expected then
            if storage.isEmpty then return .error (.outOfRange "eof")
            else return .error (.dataLoss ("truncated record at " ++ toString offset))
          else if unmask (decodeFixed32 (storage.drop n)) ≠ value machine (storage.take n) then
            return .error (.dataLoss ("corrupted record at " ++ toString offset))
          else return .ok (storage.take n, rest)

/-- `kHeaderSize`. -/
def kHeaderSize : Nat := 12

/-- `kFooterSize`. -/
def kFooterSize : Nat := 4

/-- `RecordReader::ReadRecord`, with the offset after the record. -/
def readRecord (machine : Machine) (offset : Nat) (stream : List Byte) :
    Result (Except Status (List Byte × Nat × List Byte)) := do
  match ← readChecksummed machine offset 8 stream with
  | .error status => return .error status
  | .ok (lbuf, rest) =>
      let length := (decodeFixed64 lbuf).toNat
      match ← readChecksummed machine (offset + kHeaderSize) length rest with
      | .error (.outOfRange _) =>
          return .error (.dataLoss ("truncated record at " ++ toString offset))
      | .error status => return .error status
      | .ok (data, rest) => return .ok (data, offset + (kHeaderSize + length + kFooterSize), rest)

/-- Why a reader stops: the end of the file, an error, or the end of the process. -/
inductive Reason where
  | atEnd
  | failed (status : Status)
  | aborted (fault : Fault)
  deriving DecidableEq, Repr

/-- `TFRecordReader::ReadLocked`. -/
def readLocked (machine : Machine) (offset : Nat) (stream : List Byte) :
    Framing.Step (List Byte) Byte Reason :=
  match readRecord machine offset stream with
  | .error fault => .stopped (.aborted fault)
  | .ok (.error (.outOfRange _)) => .stopped .atEnd
  | .ok (.error status) => .stopped (.failed status)
  | .ok (.ok (record, next, rest)) => .produced record next rest

/-! ## One record -/

variable {machine machine' : Machine} {offset n : Nat} {stream data rest : List Byte}

@[simp] theorem length_encodeFixed32 (value : BitVec 32) : (encodeFixed32 value).length = 4 := rfl

@[simp] theorem length_encodeFixed64 (value : BitVec 64) : (encodeFixed64 value).length = 8 := rfl

theorem length_writeRecord (machine : Machine) (data : List Byte) :
    (writeRecord machine data).length = kHeaderSize + data.length + kFooterSize := by
  simp only [writeRecord, List.length_append, length_encodeFixed32, length_encodeFixed64,
    kHeaderSize, kFooterSize]

/-- Too few bytes for a checksummed block. -/
theorem readChecksummed_of_short (hn : n + 4 < 2 ^ 63) (hshort : stream.length < n + 4) :
    readChecksummed machine offset n stream = .ok (.error (.outOfRange "EOF reached")) := by
  unfold readChecksummed readNBytes
  rw [if_neg (by omega), if_neg (by omega), if_neg (by omega)]
  rfl

/-- Enough bytes for a checksummed block: the checksum decides. -/
theorem readChecksummed_of_enough (hn : n + 4 < 2 ^ 63) {stored : List Byte} (hdata : data.length = n)
    (hstored : stored.length = 4) :
    readChecksummed machine offset n (data ++ stored ++ rest) =
      .ok (if stored = encodeFixed32 (maskedCrc machine data) then .ok (data, rest)
        else .error (.dataLoss ("corrupted record at " ++ toString offset))) := by
  have hlength : (data ++ stored).length = n + 4 := by rw [List.length_append, hdata, hstored]
  have htake : (data ++ stored ++ rest).take (n + 4) = data ++ stored := by
    rw [← hlength, List.take_left']
    rfl
  have hdrop : (data ++ stored ++ rest).drop (n + 4) = rest := by
    rw [← hlength, List.drop_left']
    rfl
  have hdata' : (data ++ stored).take n = data := by rw [← hdata, List.take_left' rfl]
  have hstored' : (data ++ stored).drop n = stored := by rw [← hdata, List.drop_left' rfl]
  have hcheck : unmask (decodeFixed32 stored) = value machine data ↔
      stored = encodeFixed32 (maskedCrc machine data) := by
    have hunmask : unmask (decodeFixed32 stored) = value machine data ↔
        decodeFixed32 stored = maskedCrc machine data := unmask_eq_iff
    rw [hunmask]
    refine ⟨fun h => ?_, fun h => ?_⟩
    · rw [← h, encodeFixed32_decodeFixed32 hstored]
    · rw [h, decodeFixed32_encodeFixed32]
  unfold readChecksummed readNBytes
  rw [if_neg (by omega), if_neg (by omega), if_pos (by rw [List.length_append]; omega)]
  simp only [htake, hdrop, hlength, hdata', hstored', ne_eq, not_true_eq_false, if_false, hcheck]
  by_cases h : stored = encodeFixed32 (maskedCrc machine data)
  · rw [if_neg (not_not.mpr h), if_pos h]
    rfl
  · rw [if_pos h, if_neg h]
    rfl

/-- A stream with enough bytes is a block, its stored checksum and a rest. -/
theorem exists_split (h : n + 4 ≤ stream.length) :
    ∃ data stored rest, data.length = n ∧ stored.length = 4 ∧ stream = data ++ stored ++ rest := by
  refine ⟨stream.take n, (stream.drop n).take 4, stream.drop (n + 4),
    List.length_take_of_le (by omega), ?_, ?_⟩
  · rw [List.length_take_of_le]
    rw [List.length_drop]
    omega
  · rw [List.append_assoc, ← List.drop_drop, List.take_append_drop, List.take_append_drop]

/-- A block is only returned with its checksum behind it. -/
theorem readChecksummed_eq_ok
    (h : readChecksummed machine offset n stream = .ok (.ok (data, rest))) :
    n + 4 < 2 ^ 63 ∧ data.length = n ∧
      stream = data ++ encodeFixed32 (maskedCrc machine data) ++ rest := by
  by_cases hn : n + 4 < 2 ^ 63
  · by_cases hshort : stream.length < n + 4
    · rw [readChecksummed_of_short hn hshort] at h
      cases h
    · obtain ⟨block, stored, later, hblock, hstored, rfl⟩ := exists_split (Nat.le_of_not_lt hshort)
      rw [readChecksummed_of_enough hn hblock hstored] at h
      split at h
      · rename_i hcrc
        obtain ⟨rfl, rfl⟩ := Prod.mk.inj (Except.ok.inj (Except.ok.inj h))
        exact ⟨hn, hblock, by rw [hcrc]⟩
      · cases h
  · unfold readChecksummed at h
    split at h
    · cases h
    · rw [if_pos (by omega)] at h
      cases h

/-- The checksum does not depend on the machine. -/
theorem maskedCrc_eq (machine machine' : Machine) (data : List Byte) :
    maskedCrc machine data = maskedCrc machine' data := by
  rw [maskedCrc, maskedCrc, value_eq machine machine']

/-- The length of a record, as it is written. -/
def lengthBytes (data : List Byte) : List Byte := encodeFixed64 (BitVec.ofNat 64 data.length)

theorem decode_lengthBytes (hdata : data.length < 2 ^ 64) :
    (decodeFixed64 (lengthBytes data)).toNat = data.length := by
  rw [lengthBytes, decodeFixed64_encodeFixed64, BitVec.toNat_ofNat, Nat.mod_eq_of_lt hdata]

/-- The fields of a record, as the reader takes them from the stream. -/
theorem writeRecord_append (machine : Machine) (data rest : List Byte) :
    writeRecord machine data ++ rest =
      lengthBytes data ++ encodeFixed32 (maskedCrc machine (lengthBytes data)) ++
        (data ++ encodeFixed32 (maskedCrc machine data) ++ rest) := by
  simp only [writeRecord, lengthBytes, List.append_assoc]

/-- A header with its checksum, and what follows it. -/
theorem readRecord_of_header {lbuf tail : List Byte} (hlbuf : lbuf.length = 8) :
    readRecord machine offset (lbuf ++ encodeFixed32 (maskedCrc machine lbuf) ++ tail) =
      readChecksummed machine (offset + kHeaderSize) (decodeFixed64 lbuf).toNat tail >>= fun
        | .error (.outOfRange _) =>
            .ok (.error (.dataLoss ("truncated record at " ++ toString offset)))
        | .error status => .ok (.error status)
        | .ok (data, rest) => .ok (.ok
            (data, offset + (kHeaderSize + (decodeFixed64 lbuf).toNat + kFooterSize), rest)) := by
  unfold readRecord
  rw [readChecksummed_of_enough (by omega) hlbuf (length_encodeFixed32 _), if_pos rfl, ok_bind]
  rfl

/-- A written record is read back, whatever follows it. -/
theorem readRecord_writeRecord (hdata : data.length + 4 < 2 ^ 63) :
    readRecord machine offset (writeRecord machine' data ++ rest) =
      .ok (.ok (data, offset + (writeRecord machine' data).length, rest)) := by
  rw [length_writeRecord, writeRecord_append, maskedCrc_eq machine' machine,
    maskedCrc_eq machine' machine, readRecord_of_header rfl, decode_lengthBytes (by omega),
    readChecksummed_of_enough hdata rfl (length_encodeFixed32 _), if_pos rfl]
  rfl

/-- A record is only returned from a stream that starts with its frame. -/
theorem readRecord_eq_ok {next : Nat}
    (h : readRecord machine offset stream = .ok (.ok (data, next, rest))) :
    data.length + 4 < 2 ^ 63 ∧ stream = writeRecord machine' data ++ rest ∧
      next = offset + (writeRecord machine' data).length := by
  obtain ⟨header, hheader, hnext⟩ := bind_eq_ok.mp h
  cases header with
  | error status => cases hnext
  | ok header =>
      obtain ⟨lbuf, tail⟩ := header
      obtain ⟨_, hlbuf, rfl⟩ := readChecksummed_eq_ok hheader
      rw [readRecord_of_header hlbuf] at h
      obtain ⟨body, hbody, h⟩ := bind_eq_ok.mp h
      cases body with
      | error status => cases status <;> cases h
      | ok body =>
          obtain ⟨found, later⟩ := body
          obtain ⟨rfl, hrest⟩ := Prod.mk.inj (Except.ok.inj (Except.ok.inj h))
          obtain ⟨rfl, rfl⟩ := Prod.mk.inj hrest
          obtain ⟨hsize, hlength, rfl⟩ := readChecksummed_eq_ok hbody
          -- the length field holds the length of the data
          have hfield : lengthBytes found = lbuf := by
            rw [lengthBytes, hlength, BitVec.ofNat_toNat, BitVec.setWidth_eq,
              encodeFixed64_decodeFixed64 hlbuf]
          refine ⟨by omega, ?_, ?_⟩
          · rw [writeRecord_append, hfield, maskedCrc_eq machine machine',
              maskedCrc_eq machine machine']
          · rw [length_writeRecord, hlength]

/-! ## Where a reader stops -/

theorem readLocked_of_ok {next : Nat}
    (h : readRecord machine offset stream = .ok (.ok (data, next, rest))) :
    readLocked machine offset stream = .produced data next rest := by
  unfold readLocked
  rw [h]

theorem readLocked_of_dataLoss {message : String}
    (h : readRecord machine offset stream = .ok (.error (.dataLoss message))) :
    readLocked machine offset stream = .stopped (.failed (.dataLoss message)) := by
  unfold readLocked
  rw [h]

/-- A header that is cut off looks like the end of the file. -/
theorem readLocked_of_short (h : stream.length < kHeaderSize) :
    readLocked machine offset stream = .stopped .atEnd := by
  have hheader : readChecksummed machine offset 8 stream =
      .ok (.error (.outOfRange "EOF reached")) := readChecksummed_of_short (by omega) h
  unfold readLocked readRecord
  rw [hheader]
  simp only [ok_bind, pure_eq_ok]

/-- A length whose checksum is wrong. -/
theorem readLocked_of_header_ne {lbuf stored : List Byte} (hlbuf : lbuf.length = 8)
    (hstored : stored.length = 4) (hne : stored ≠ encodeFixed32 (maskedCrc machine lbuf)) :
    readLocked machine offset (lbuf ++ stored ++ rest) =
      .stopped (.failed (.dataLoss ("corrupted record at " ++ toString offset))) := by
  unfold readLocked readRecord
  rw [readChecksummed_of_enough (by omega) hlbuf hstored, if_neg hne]
  simp only [ok_bind, pure_eq_ok]

/-- A record whose data is cut off. -/
theorem readLocked_of_data_short (hdata : data.length + 4 < 2 ^ 63)
    (hshort : rest.length < data.length + 4) :
    readLocked machine offset
        (lengthBytes data ++ encodeFixed32 (maskedCrc machine' (lengthBytes data)) ++ rest) =
      .stopped (.failed (.dataLoss ("truncated record at " ++ toString offset))) := by
  refine readLocked_of_dataLoss ?_
  rw [maskedCrc_eq machine' machine, readRecord_of_header rfl, decode_lengthBytes (by omega),
    readChecksummed_of_short hdata hshort]
  simp only [ok_bind]

/-- A record whose data has a wrong checksum. -/
theorem readLocked_of_data_ne {found stored : List Byte} (hdata : data.length + 4 < 2 ^ 63)
    (hfound : found.length = data.length) (hstored : stored.length = 4)
    (hne : stored ≠ encodeFixed32 (maskedCrc machine found)) :
    readLocked machine offset
        (lengthBytes data ++ encodeFixed32 (maskedCrc machine' (lengthBytes data)) ++
          (found ++ stored ++ rest)) =
      .stopped (.failed
        (.dataLoss ("corrupted record at " ++ toString (offset + kHeaderSize)))) := by
  refine readLocked_of_dataLoss ?_
  rw [maskedCrc_eq machine' machine, readRecord_of_header rfl, decode_lengthBytes (by omega),
    readChecksummed_of_enough hdata hfound hstored, if_neg hne]
  simp only [ok_bind]

/-! ## Whole files -/

/-- The records of a log as frames. -/
def recordFormat (machine : Machine) : Framing.Format (List Byte) Byte Reason where
  Valid data := data.length + 4 < 2 ^ 63
  encode := writeRecord machine
  read := readLocked machine
  encode_ne_nil data := by
    rw [← List.length_pos_iff, length_writeRecord]
    exact Nat.add_pos_right _ (by decide)
  read_encode data hdata offset rest := by
    exact readLocked_of_ok (readRecord_writeRecord hdata)
  eq_of_read offset stream data next rest h := by
    unfold readLocked at h
    split at h
    · cases h
    · cases h
    · cases h
    · rename_i hread
      cases h
      exact readRecord_eq_ok hread

/-- The bytes that `WriteRecord` appends for some records. -/
def writeRecords (machine : Machine) (records : List (List Byte)) : List Byte :=
  records.flatMap (writeRecord machine)

/-- `ReadLocked` until it produces no record: the records with their offsets, which the reader puts
into their keys, and the reason. -/
def readFile (machine : Machine) (file : List Byte) :
    Option (List (Nat × List Byte) × Reason) :=
  (recordFormat machine).readAll (file.length + 1) 0 file

/-- Some records with their offsets in a log. -/
def withOffsets (machine : Machine) (records : List (List Byte)) : List (Nat × List Byte) :=
  (recordFormat machine).located 0 records

/-- What is written does not depend on the machine. -/
theorem writeRecords_eq (machine machine' : Machine) (records : List (List Byte)) :
    writeRecords machine records = writeRecords machine' records := by
  have hrecord : writeRecord machine = writeRecord machine' := by
    funext data
    rw [writeRecord, writeRecord, maskedCrc_eq machine machine', maskedCrc_eq machine machine']
  rw [writeRecords, writeRecords, hrecord]

/-- The records before the place where a reader stops are returned. -/
theorem readFile_eq {records : List (List Byte)} {tail : List Byte} {reason : Reason}
    (hrecords : ∀ data ∈ records, data.length + 4 < 2 ^ 63)
    (htail : readLocked machine (writeRecords machine' records).length tail = .stopped reason) :
    readFile machine (writeRecords machine' records ++ tail) =
      some (withOffsets machine records, reason) := by
  rw [writeRecords_eq machine' machine] at htail ⊢
  have hlength : records.length ≤ (writeRecords machine records).length :=
    (recordFormat machine).length_le_encodeAll records
  have hfuel : records.length < (writeRecords machine records ++ tail).length + 1 := by
    rw [List.length_append]
    omega
  have hstop : readLocked machine (0 + (writeRecords machine records).length) tail =
      .stopped reason := by
    rw [Nat.zero_add]
    exact htail
  show (recordFormat machine).readAll _ 0 ((recordFormat machine).encodeAll records ++ tail) = _
  exact Framing.Format.readAll_encodeAll hrecords hstop hfuel

/-- Every file is read to an end, and what is read is the longest list of records such that the file
starts with what is written for them, by any machine: no record of a written file is missed, and
none is made up. -/
theorem readFile_longest (machine writer : Machine) (file : List Byte) :
    ∃ records reason, readFile machine file = some (withOffsets machine records, reason) ∧
      (∀ data ∈ records, data.length + 4 < 2 ^ 63) ∧
      ∀ written, (∀ data ∈ written, data.length + 4 < 2 ^ 63) →
        (writeRecords writer written <+: file ↔ written <+: records) := by
  obtain ⟨found, reason, hread⟩ :=
    @Framing.Format.exists_readAll _ _ _ (recordFormat machine) _ file (Nat.lt_succ_self _) 0
  obtain ⟨records, tail, rfl, hrecords, hfile, htail, _⟩ := Framing.Format.eq_of_readAll hread
  refine ⟨records, reason, hread, hrecords, fun written hwritten => ?_⟩
  rw [writeRecords_eq writer machine]
  refine ⟨fun h => ?_, fun h => ?_⟩
  · obtain ⟨rest, hrest⟩ := h
    exact Framing.Format.prefix_of_encodeAll_eq hrecords hwritten htail (hrest.trans hfile)
  · obtain ⟨later, rfl⟩ := h
    rw [hfile, Framing.Format.encodeAll_append, List.append_assoc]
    exact List.prefix_append _ _

/-- A part of a record that holds its header. -/
theorem exists_header {part later : List Byte} (hpart : writeRecord machine data = part ++ later)
    (hlong : kHeaderSize ≤ part.length) :
    ∃ body, part =
        lengthBytes data ++ encodeFixed32 (maskedCrc machine (lengthBytes data)) ++ body ∧
      body.length + later.length = data.length + kFooterSize := by
  have hrecord := writeRecord_append machine data []
  rw [List.append_nil, List.append_nil] at hrecord
  have hheader : lengthBytes data ++ encodeFixed32 (maskedCrc machine (lengthBytes data)) <+: part := by
    have hwhole : lengthBytes data ++ encodeFixed32 (maskedCrc machine (lengthBytes data)) <+:
        writeRecord machine data := by
      rw [hrecord]
      exact List.prefix_append _ _
    rw [hpart] at hwhole
    exact List.prefix_of_prefix_length_le hwhole (List.prefix_append _ _) hlong
  obtain ⟨body, rfl⟩ := hheader
  refine ⟨body, rfl, ?_⟩
  have hlength := congrArg List.length hpart
  rw [length_writeRecord, List.length_append, List.length_append] at hlength
  have htwelve : (lengthBytes data ++
    encodeFixed32 (maskedCrc machine (lengthBytes data))).length = kHeaderSize := rfl
  omega

/-- Why a reader stops at a part of a record. -/
def tornReason (part : List Byte) (offset : Nat) : Reason :=
  if part.length < kHeaderSize then .atEnd
  else .failed (.dataLoss ("truncated record at " ++ toString offset))

/-- The reader at a part of a record: a header that is cut off looks like the end of the file. -/
theorem readLocked_of_part {part later : List Byte} (hdata : data.length + 4 < 2 ^ 63)
    (hpart : writeRecord machine' data = part ++ later) (hlater : later ≠ []) :
    readLocked machine offset part = .stopped (tornReason part offset) := by
  unfold tornReason
  by_cases hshort : part.length < kHeaderSize
  · rw [if_pos hshort]
    exact readLocked_of_short hshort
  · have hpos := List.length_pos_iff.mpr hlater
    obtain ⟨body, rfl, hbody⟩ := exists_header hpart (Nat.le_of_not_lt hshort)
    rw [kFooterSize] at hbody
    rw [if_neg hshort]
    exact readLocked_of_data_short hdata (by omega)

/-- What the reader makes of a file that is cut off. -/
theorem readFile_of_cut {records : List (List Byte)}
    (hrecords : ∀ data ∈ records, data.length + 4 < 2 ^ 63) {file : List Byte}
    (hfile : file <+: writeRecords machine' records) :
    ∃ before after part, records = before ++ after ∧ file = writeRecords machine' before ++ part ∧
      (after = [] → part = []) ∧ (file = writeRecords machine' records → after = []) ∧
      (∀ data ∈ after.head?, ∃ later, later ≠ [] ∧ writeRecord machine data = part ++ later) ∧
      readFile machine file = some (withOffsets machine before,
        tornReason part (writeRecords machine' before).length) := by
  rw [writeRecords_eq machine' machine] at hfile ⊢
  obtain ⟨before, after, part, reason, rfl, rfl, hnil, hwhole, hhead, hread, hall⟩ :=
    @Framing.Format.readAll_of_cut _ _ _ (recordFormat machine) records hrecords file hfile
  have hreason : readLocked machine (writeRecords machine before).length part =
      .stopped (tornReason part (writeRecords machine before).length) := by
    cases after with
    | nil =>
        obtain rfl := hnil rfl
        exact readLocked_of_short (by decide)
    | cons data after =>
        obtain ⟨later, hlater, hpart⟩ := hhead data rfl
        exact readLocked_of_part (hrecords data (by simp)) hpart hlater
  obtain rfl := Framing.Step.stopped.inj (hread.symm.trans hreason)
  refine ⟨before, after, part, rfl, ?_, hnil, hwhole, hhead, ?_⟩
  · rw [writeRecords_eq machine' machine]
    rfl
  · rw [writeRecords_eq machine' machine]
    exact hall _ (Nat.lt_succ_self _)

/-- A file that is cut off anywhere gives the records whose frames are complete. If less than a header
is left after them this looks like the end of the file, and else the record that is cut off is
reported. -/
theorem readFile_truncated {machine writer : Machine} {records : List (List Byte)}
    (hrecords : ∀ data ∈ records, data.length + 4 < 2 ^ 63) {file : List Byte}
    (hfile : file <+: writeRecords writer records) :
    ∃ before after part, records = before ++ after ∧ file = writeRecords writer before ++ part ∧
      (after = [] → part = []) ∧
      (∀ data ∈ after.head?, part.length < (writeRecord writer data).length) ∧
      readFile machine file = some (withOffsets machine before,
        if part.length < kHeaderSize then .atEnd
        else .failed (.dataLoss
          ("truncated record at " ++ toString (writeRecords writer before).length))) := by
  obtain ⟨before, after, part, hsplit, hcut, hnil, _, hhead, hread⟩ :=
    @readFile_of_cut machine writer records hrecords file hfile
  refine ⟨before, after, part, hsplit, hcut, hnil, fun data hdata => ?_, hread⟩
  obtain ⟨later, hlater, hpart⟩ := hhead data hdata
  have hpos := List.length_pos_iff.mpr hlater
  have hlength := congrArg List.length hpart
  rw [List.length_append] at hlength
  rw [length_writeRecord, ← length_writeRecord machine]
  omega

/-- A log of two records without its last byte. -/
theorem readFile_truncated_second :
    ∃ before after part, [[1, 2], [3]] = before ++ after ∧
      (writeRecords ⟨true, fun _ => 0⟩ [[1, 2], [3]]).dropLast =
        writeRecords ⟨true, fun _ => 0⟩ before ++ part ∧
      (after = [] → part = []) ∧
      (∀ data ∈ after.head?, part.length < (writeRecord ⟨true, fun _ => 0⟩ data).length) ∧
      readFile ⟨false, fun _ => 0⟩ (writeRecords ⟨true, fun _ => 0⟩ [[1, 2], [3]]).dropLast =
        some (withOffsets ⟨false, fun _ => 0⟩ before,
          if part.length < kHeaderSize then .atEnd
          else .failed (.dataLoss ("truncated record at " ++
            toString (writeRecords ⟨true, fun _ => 0⟩ before).length))) :=
  readFile_truncated (by simp) (List.dropLast_prefix _)

/-- Some bytes next to each other are changed, not more than a checksum has. -/
inductive Burst : List Byte → List Byte → Prop where
  | intro (front : List Byte) {window window' : List Byte} (back : List Byte)
      (hlength : window.length = window'.length) (hshort : window.length ≤ 4)
      (hne : window ≠ window') : Burst (front ++ window ++ back) (front ++ window' ++ back)

theorem Burst.length_eq {good bad : List Byte} (h : Burst good bad) : bad.length = good.length := by
  cases h with
  | intro front back hlength hshort hne =>
      simp only [List.length_append, hlength]

/-- A burst changes the checksum. -/
theorem Burst.maskedCrc_ne {good bad : List Byte} (h : Burst good bad) (machine machine' : Machine) :
    encodeFixed32 (maskedCrc machine good) ≠ encodeFixed32 (maskedCrc machine' bad) := by
  cases h with
  | intro front back hlength hshort hne =>
      intro heq
      have hmasked := congrArg decodeFixed32 heq
      rw [decodeFixed32_encodeFixed32, decodeFixed32_encodeFixed32, maskedCrc, maskedCrc] at hmasked
      have hvalue := congrArg unmask hmasked
      rw [unmask_mask, unmask_mask] at hvalue
      exact hne (eq_of_value_eq hlength hshort hvalue)

/-- A record one of whose fields is damaged, with the part of it that the reader reports: a burst in
the length or in the data, or any change of a checksum. -/
inductive Damaged (machine : Machine) (data : List Byte) : List Byte → Nat → Prop where
  | length {lbuf : List Byte} (h : Burst (lengthBytes data) lbuf) :
      Damaged machine data
        (lbuf ++ encodeFixed32 (maskedCrc machine (lengthBytes data)) ++
          (data ++ encodeFixed32 (maskedCrc machine data))) 0
  | lengthCrc {stored : List Byte} (hlength : stored.length = 4)
      (hne : stored ≠ encodeFixed32 (maskedCrc machine (lengthBytes data))) :
      Damaged machine data
        (lengthBytes data ++ stored ++ (data ++ encodeFixed32 (maskedCrc machine data))) 0
  | data {found : List Byte} (h : Burst data found) :
      Damaged machine data
        (lengthBytes data ++ encodeFixed32 (maskedCrc machine (lengthBytes data)) ++
          (found ++ encodeFixed32 (maskedCrc machine data))) kHeaderSize
  | dataCrc {stored : List Byte} (hlength : stored.length = 4)
      (hne : stored ≠ encodeFixed32 (maskedCrc machine data)) :
      Damaged machine data
        (lengthBytes data ++ encodeFixed32 (maskedCrc machine (lengthBytes data)) ++
          (data ++ stored)) kHeaderSize

/-- A damaged record is reported, whatever follows it. -/
theorem readLocked_of_damaged {frame : List Byte} {part : Nat} (hdata : data.length + 4 < 2 ^ 63)
    (h : Damaged machine' data frame part) :
    readLocked machine offset (frame ++ rest) =
      .stopped (.failed (.dataLoss ("corrupted record at " ++ toString (offset + part)))) := by
  cases h with
  | length h =>
      rw [List.append_assoc, Nat.add_zero]
      exact readLocked_of_header_ne (h.length_eq.trans rfl) rfl (h.maskedCrc_ne _ _)
  | lengthCrc hlength hne =>
      rw [maskedCrc_eq machine' machine] at hne
      rw [List.append_assoc, Nat.add_zero]
      exact readLocked_of_header_ne rfl hlength hne
  | data h =>
      rw [List.append_assoc]
      exact readLocked_of_data_ne hdata h.length_eq rfl (h.maskedCrc_ne _ _)
  | dataCrc hlength hne =>
      rw [maskedCrc_eq machine' machine] at hne
      rw [List.append_assoc]
      exact readLocked_of_data_ne hdata rfl hlength hne

/-- Damage to a record is always noticed: the records before it are returned, and then the damaged
block is reported by its offset in the file, whatever follows. -/
theorem readFile_corrupted {machine writer : Machine} {records : List (List Byte)}
    (hrecords : ∀ data ∈ records, data.length + 4 < 2 ^ 63) {data : List Byte}
    (hdata : data.length + 4 < 2 ^ 63) {frame : List Byte} {part : Nat}
    (hframe : Damaged writer data frame part) (rest : List Byte) :
    readFile machine (writeRecords writer records ++ (frame ++ rest)) =
      some (withOffsets machine records, .failed (.dataLoss ("corrupted record at " ++
        toString ((writeRecords writer records).length + part)))) :=
  readFile_eq hrecords (readLocked_of_damaged hdata hframe)

/-- The second record of a log with its only byte changed. -/
theorem readFile_corrupted_second :
    readFile ⟨true, fun _ => 0⟩ (writeRecords ⟨false, fun _ => 0⟩ [[1, 2]] ++
        (lengthBytes [3] ++ encodeFixed32 (maskedCrc ⟨false, fun _ => 0⟩ (lengthBytes [3])) ++
          ([4] ++ encodeFixed32 (maskedCrc ⟨false, fun _ => 0⟩ [3])) ++ [])) =
      some (withOffsets ⟨true, fun _ => 0⟩ [[1, 2]], .failed (.dataLoss ("corrupted record at " ++
        toString ((writeRecords ⟨false, fun _ => 0⟩ [[1, 2]]).length + kHeaderSize)))) := by
  have hburst : Burst [3] [4] := @Burst.intro [] [3] [4] [] rfl (by decide) (by decide)
  exact readFile_corrupted (by simp) (by simp) (Damaged.data hburst) []

end Replays
