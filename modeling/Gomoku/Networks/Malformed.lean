import Gomoku.Networks.Rows

/-!
# Malformed replays in an optimised build

An optimised build has no `DCHECK`, so `ApplyMove` sees a move only through its linear index:
a move outside the board whose index is the one of a field is decoded as a stone on that
field (`compute_congr`). `Compute` reports nothing but a failed parse, and
`handledSafely_iff` says for which recordings that is enough.
-/

namespace Gomoku.DecodeReplays

open Execution

variable {ρ R : Type}

/-- Some move is not on the board, or some field is used twice. -/
def Malformed (recording : Recording R) : Prop :=
  (∃ move ∈ recording.move, ¬ Board.Inside move) ∨ ¬ recording.move.Nodup

theorem malformed_iff {recording : Recording R} :
    Malformed recording ↔
      ¬ ((∀ move ∈ recording.move, Board.Inside move) ∧ recording.move.Nodup) := by
  rw [Malformed, not_and_or]
  push Not
  rfl

/-- What `Compute` should make of parsed recordings: no failed `CHECK`, no access outside a bit
set or a tensor, an invalid argument for every malformed recording, and no output in which a
move outside the board has become a stone. -/
structure HandledSafely (recordings : List (Recording R))
    (result : Result (Except Status (Output R))) : Prop where
  no_failed_check : ∀ condition, result ≠ .error (.check condition)
  no_access_out_of_range : result ≠ .error .outOfRange
  malformed_reported : (∃ recording ∈ recordings, Malformed recording) →
    ∃ message, result = .ok (.error (.invalidArgument message))
  no_silent_decoding : ∀ output, result = .ok (.ok output) →
    ∀ recording ∈ recordings, ∀ move ∈ recording.move, Board.Inside move

/-- Without the debug assertion a move is its linear index. -/
theorem applyMove_congr (board : Board) {move other : Vector2i}
    (h : Board.index move = Board.index other) :
    board.applyMove .optimised move = board.applyMove .optimised other := by
  simp only [Board.applyMove, dcheck_optimised, h]

/-- The recordings have the same score and moves with the same linear indices. -/
def Alike (recording other : Recording R) : Prop :=
  recording.score = other.score ∧
    List.Forall₂ (fun move move' => Board.index move = Board.index move') recording.move other.move

variable [Zero R] [One R] [Sub R]

theorem decodeRecording_congr (recording other : Recording R) (h : Alike recording other)
    (state : Output R × Nat) :
    decodeRecording .optimised state recording = decodeRecording .optimised state other := by
  obtain ⟨hscore, hmoves⟩ := h
  have hstep : ∀ move move', Board.index move = Board.index move' →
      ∀ inner : Board × Output R × Nat,
        decodeMove .optimised other.score inner move =
          decodeMove .optimised other.score inner move' := by
    intro move move' hindex inner
    obtain ⟨board, output, i⟩ := inner
    simp only [decodeMove, applyMove_congr board hindex]
  simp only [decodeRecording, hscore, foldlM_congr_of_forall₂ hstep hmoves]

/-- An optimised build decodes recordings alike that have the same linear indices. -/
theorem compute_congr {parseFromString : ρ → Option (Recording R)} {records records' : List ρ}
    (recordings recordings' : List (Recording R))
    (hparse : records.mapM parseFromString = some recordings)
    (hparse' : records'.mapM parseFromString = some recordings')
    (h : List.Forall₂ Alike recordings recordings') :
    compute .optimised parseFromString records = compute .optimised parseFromString records' := by
  have hlength : (recordings.flatMap rows).length = (recordings'.flatMap rows).length := by
    rw [length_table, length_table]
    clear hparse hparse'
    induction h with
    | nil => rfl
    | cons halike _ ih => simp [halike.2.length_eq, ih]
  simp only [compute, parseRecords_eq hparse, parseRecords_eq hparse', hlength,
    foldlM_congr_of_forall₂ decodeRecording_congr h]

/-- `Compute` reports nothing about recordings that have been parsed. -/
theorem compute_ne_status (build : Build) {parseFromString : ρ → Option (Recording R)}
    {records : List ρ} {recordings : List (Recording R)}
    (hparse : records.mapM parseFromString = some recordings) (status : Status) :
    compute build parseFromString records ≠ .ok (.error status) := by
  intro hrun
  simp only [compute, parseRecords_eq hparse] at hrun
  obtain ⟨_, _, hreturn⟩ := bind_eq_ok.mp hrun
  cases hreturn

/-- `Compute` handles parsed recordings safely exactly when all their moves are on the board and
no recording uses a field twice. -/
theorem handledSafely_iff (parseFromString : ρ → Option (Recording R)) (records : List ρ)
    (recordings : List (Recording R))
    (hparse : records.mapM parseFromString = some recordings) :
    HandledSafely recordings (compute .optimised parseFromString records) ↔
      ∀ recording ∈ recordings,
        (∀ move ∈ recording.move, Board.Inside move) ∧ recording.move.Nodup := by
  constructor
  · intro hsafe recording hm
    by_contra hbad
    obtain ⟨message, hreport⟩ :=
      hsafe.malformed_reported ⟨recording, hm, malformed_iff.mpr hbad⟩
    exact compute_ne_status .optimised hparse _ hreport
  · intro hlegal
    have hrun := compute_eq .optimised hparse
      fun recording hm => legal_iff.mpr (hlegal recording hm)
    refine ⟨?_, ?_, ?_, ?_⟩
    · intro condition hfault
      rw [hrun] at hfault
      cases hfault
    · intro hfault
      rw [hrun] at hfault
      cases hfault
    · intro hmalformed
      obtain ⟨recording, hm, hbad⟩ := hmalformed
      exact absurd (hlegal recording hm) (malformed_iff.mp hbad)
    · intro output _ recording hm
      exact (hlegal recording hm).1

/-- A recording with two moves on the board is handled safely. -/
theorem handledSafely_iff_two_moves :
    HandledSafely [(⟨[⟨0, 0⟩, ⟨18, 18⟩], 1⟩ : Recording Rat)]
      (compute .optimised some [⟨[⟨0, 0⟩, ⟨18, 18⟩], 1⟩]) :=
  (handledSafely_iff some [⟨[⟨0, 0⟩, ⟨18, 18⟩], 1⟩] [⟨[⟨0, 0⟩, ⟨18, 18⟩], 1⟩] rfl).mpr (by decide)

/-- The move (0, 19) is decoded as a stone on (1, 0), without an error. -/
theorem not_handledSafely_below_column :
    compute (ρ := Recording Rat) .optimised some [⟨[⟨0, 19⟩], 1⟩] =
        compute .optimised some [⟨[⟨1, 0⟩], 1⟩] ∧
      ¬ HandledSafely [(⟨[⟨0, 19⟩], 1⟩ : Recording Rat)]
        (compute .optimised some [⟨[⟨0, 19⟩], 1⟩]) := by
  have hsame : compute (ρ := Recording Rat) .optimised some [⟨[⟨0, 19⟩], 1⟩] =
      compute .optimised some [⟨[⟨1, 0⟩], 1⟩] := by
    apply compute_congr [⟨[⟨0, 19⟩], 1⟩] [⟨[⟨1, 0⟩], 1⟩] rfl rfl
    exact .cons ⟨rfl, .cons rfl .nil⟩ .nil
  refine ⟨hsame, ?_⟩
  intro hsafe
  have hrun : compute (ρ := Recording Rat) .optimised some [⟨[⟨1, 0⟩], 1⟩] = .ok (.ok _) :=
    compute_eq .optimised rfl (by decide)
  rw [hsame] at hsafe
  have hinside := hsafe.no_silent_decoding _ hrun ⟨[⟨0, 19⟩], 1⟩ (by simp) ⟨0, 19⟩ (by simp)
  exact absurd hinside (by decide)

end Gomoku.DecodeReplays
