import Gomoku.Library.Snapshots
import Gomoku.Networks.Rows

/-!
# Recovering recordings from decoded replays

The outputs of `DecodeReplays` have no marks between games and no moves, and the side from
which a row is seen changes from row to row. The channel of the empty fields does not depend
on the side: its rows are the snapshots of the moves (`map_occupied_rows`), which determine
the moves. The scores then are the ones in the rows of the starting boards.
`decodeReplays_injective` is the result: equal outputs come from equal recordings.
-/

namespace Gomoku.DecodeReplays

open Execution Snapshots

/-- The positions that hold a stone. -/
def occupied (board : Board) : Set Vector2i := {position | board.owner position ≠ .none}

theorem occupied_new : occupied Board.new = ∅ := by
  ext position
  simp [occupied, Board.Represents.new.owner_eq_none_iff]

/-- A legal move adds its field. -/
theorem occupied_place {board : Board} {moves : List Vector2i} {move : Vector2i}
    (h : board.Represents moves) (hmove : Board.Inside move) (hnew : move ∉ moves) :
    occupied (board.place move) = insert move (occupied board) := by
  ext position
  show (board.place move).owner position ≠ .none ↔ _
  rw [Board.owner_place hmove ((h.owner_eq_none_iff move).mpr hnew) h.currentPlayer_ne_none]
  by_cases hsame : position = move
  · simp [hsame, h.currentPlayer_ne_none]
  · simp [hsame, occupied]

variable {R : Type}

/-- The occupied fields of the boards after legal moves are the snapshots of the moves. -/
theorem map_occupied_scanl (earlier moves : List Vector2i) (hlegal : Legal (earlier ++ moves)) :
    (moves.scanl Board.place (Board.after earlier)).map occupied =
      snapshotsFrom (occupied (Board.after earlier)) moves := by
  induction moves generalizing earlier with
  | nil => rw [snapshotsFrom, List.scanl_nil, List.scanl_nil, List.map_singleton]
  | cons move moves ih =>
      have hsplit : earlier ++ move :: moves = (earlier ++ [move]) ++ moves := by simp
      rw [hsplit] at hlegal
      obtain ⟨hearlier, hmove, hnew⟩ := legal_append_iff.mp hlegal.of_append
      rw [List.scanl_cons, List.map_cons, ← Board.after_append, ih (earlier ++ [move]) hlegal,
        snapshotsFrom_cons, Board.after_append,
        occupied_place (Board.represents_after hearlier) hmove hnew]

/-- The occupied fields in the rows of a legal recording. -/
theorem map_occupied_rows {recording : Recording R} (hlegal : Legal recording.move) :
    (rows recording).map (fun row => occupied row.1) = snapshots recording.move := by
  have hscan := map_occupied_scanl [] recording.move hlegal
  rw [Board.after_nil, occupied_new] at hscan
  rw [rows, List.map_map, snapshots, ← hscan]
  rfl

/-- The occupied fields in the rows of legal recordings. -/
theorem map_occupied_table {recordings : List (Recording R)}
    (hlegal : ∀ recording ∈ recordings, Legal recording.move) :
    (recordings.flatMap rows).map (fun row => occupied row.1) =
      (recordings.map Recording.move).flatMap snapshots := by
  rw [List.map_flatMap, List.flatMap_map]
  apply List.flatMap_congr
  intro recording hm
  exact map_occupied_rows (hlegal recording hm)

variable [Zero R] [One R] [Sub R]

omit [Zero R] in
/-- Recordings with the same moves and the same labels have the same scores. -/
theorem eq_of_labels {recordings recordings' : List (Recording R)}
    (hmoves : recordings.map Recording.move = recordings'.map Recording.move)
    (hlabels : (recordings.flatMap rows).map (fun row => label row.1 row.2) =
      (recordings'.flatMap rows).map fun row => label row.1 row.2) :
    recordings = recordings' := by
  induction recordings generalizing recordings' with
  | nil =>
      cases recordings' with
      | nil => rfl
      | cons recording rest => cases hmoves
  | cons recording rest ih =>
      cases recordings' with
      | nil => cases hmoves
      | cons recording' rest' =>
          obtain ⟨hmove, hrest⟩ := List.cons.inj hmoves
          rw [List.flatMap_cons, List.flatMap_cons, List.map_append, List.map_append] at hlabels
          obtain ⟨hhead, htail⟩ := List.append_inj hlabels (by simp [hmove])
          -- FIRST is to move on the starting board, so its label is the score itself
          have hfirst : ∀ recording : Recording R,
              ((rows recording).map fun row => label row.1 row.2)[0]? =
                some recording.score := by
            intro recording
            rw [List.getElem?_map, rows_getElem? (Nat.zero_le _)]
            rfl
          have hscore : recording.score = recording'.score := by
            have hsome := hfirst recording
            rw [hhead, hfirst recording'] at hsome
            exact (Option.some.inj hsome).symm
          rw [ih hrest htail]
          congr 1
          cases recording
          cases recording'
          simp_all

/-- Rows with the same features show the same occupied fields. -/
theorem occupied_eq_of_same [NeZero (1 : R)] {table table' : List (Board × R)}
    (hsame : ((blank table.length).write 0 table).features.Same
      ((blank table'.length).write 0 table').features) :
    table.map (fun row => occupied row.1) = table'.map fun row => occupied row.1 := by
  have hlength : table.length = table'.length := (List.cons.inj hsame.1).1
  apply List.ext_getElem (by simpa using hlength)
  intro i hi hi'
  rw [List.length_map] at hi hi'
  rw [List.getElem_map, List.getElem_map]
  have hrow := List.getElem?_eq_getElem hi
  have hrow' := List.getElem?_eq_getElem hi'
  have hempty : ∀ field : Field,
      table[i].1.owner field.position = .none ↔ table'[i].1.owner field.position = .none := by
    intro field
    have hread := hsame.2 [i, field.1.val, field.2.val, 1]
    rw [read_features hrow field (by omega), read_features hrow' field (by omega),
      Option.some.injEq] at hread
    simp only [channel] at hread
    by_cases hone : table[i].1.owner field.position = .none <;>
      by_cases hother : table'[i].1.owner field.position = .none <;>
      simp [hone, hother] at hread ⊢
  ext position
  show table[i].1.owner position ≠ .none ↔ table'[i].1.owner position ≠ .none
  by_cases hinside : Board.Inside position
  · obtain ⟨field, rfl⟩ := Field.exists_position hinside
    exact not_congr (hempty field)
  · rw [Board.owner_of_not_inside hinside, Board.owner_of_not_inside hinside]

/-- Rows with the same scores have the same labels. -/
theorem labels_eq_of_same {table table' : List (Board × R)}
    (hsame : ((blank table.length).write 0 table).scores.Same
      ((blank table'.length).write 0 table').scores) :
    table.map (fun row => label row.1 row.2) = table'.map fun row => label row.1 row.2 := by
  have hlength : table.length = table'.length := (List.cons.inj hsame.1).1
  apply List.ext_getElem (by simpa using hlength)
  intro i hi hi'
  rw [List.length_map] at hi hi'
  rw [List.getElem_map, List.getElem_map]
  have hread := hsame.2 [i]
  rw [read_scores (List.getElem?_eq_getElem hi), read_scores (List.getElem?_eq_getElem hi')]
    at hread
  exact Option.some.inj hread

/-- Two lists of recordings whose moves are on different fields are equal if `DecodeReplays`
produces the same features and scores for both. -/
theorem decodeReplays_injective {ρ : Type} [NeZero (1 : R)] (build : Build)
    (parseFromString : ρ → Option (Recording R)) (records records' : List ρ)
    (recordings recordings' : List (Recording R))
    (hparse : records.mapM parseFromString = some recordings)
    (hparse' : records'.mapM parseFromString = some recordings')
    (hlegal : ∀ recording ∈ recordings,
      (∀ move ∈ recording.move, Board.Inside move) ∧ recording.move.Nodup)
    (hlegal' : ∀ recording ∈ recordings',
      (∀ move ∈ recording.move, Board.Inside move) ∧ recording.move.Nodup)
    (output output' : Output R)
    (hrun : compute build parseFromString records = .ok (.ok output))
    (hrun' : compute build parseFromString records' = .ok (.ok output'))
    (hfeatures : output.features.Same output'.features)
    (hscores : output.scores.Same output'.scores) :
    recordings = recordings' := by
  have hall : ∀ recording ∈ recordings, Legal recording.move :=
    fun recording hm => legal_iff.mpr (hlegal recording hm)
  have hall' : ∀ recording ∈ recordings', Legal recording.move :=
    fun recording hm => legal_iff.mpr (hlegal' recording hm)
  rw [compute_eq build hparse hall] at hrun
  rw [compute_eq build hparse' hall'] at hrun'
  obtain rfl := Except.ok.inj (Except.ok.inj hrun)
  obtain rfl := Except.ok.inj (Except.ok.inj hrun')
  have hoccupied := occupied_eq_of_same hfeatures
  rw [map_occupied_table hall, map_occupied_table hall'] at hoccupied
  have hmoves : recordings.map Recording.move = recordings'.map Recording.move := by
    apply flatMap_snapshots_injective _ _ hoccupied
    · intro moves hm
      obtain ⟨recording, hrecording, rfl⟩ := List.mem_map.mp hm
      exact (hall recording hrecording).nodup
    · intro moves hm
      obtain ⟨recording, hrecording, rfl⟩ := List.mem_map.mp hm
      exact (hall' recording hrecording).nodup
  exact eq_of_labels hmoves (labels_eq_of_same hscores)

/-- Two serialisations of one game have the same outputs and the same recording. -/
theorem decodeReplays_injective_one_game :
    ∃ output : Output Rat,
      compute .debug (fun _ : Nat => some ⟨[⟨9, 9⟩, ⟨0, 0⟩], 1⟩) [0] = .ok (.ok output) ∧
      compute .debug (fun _ : Nat => some ⟨[⟨9, 9⟩, ⟨0, 0⟩], 1⟩) [1] = .ok (.ok output) ∧
      [(⟨[⟨9, 9⟩, ⟨0, 0⟩], 1⟩ : Recording Rat)] = [⟨[⟨9, 9⟩, ⟨0, 0⟩], 1⟩] := by
  have hlegal : ∀ recording ∈ [(⟨[⟨9, 9⟩, ⟨0, 0⟩], 1⟩ : Recording Rat)],
      (∀ move ∈ recording.move, Board.Inside move) ∧ recording.move.Nodup := by decide
  have hrun : ∀ record : Nat,
      compute .debug (fun _ => some (⟨[⟨9, 9⟩, ⟨0, 0⟩], 1⟩ : Recording Rat)) [record] =
        .ok (.ok _) := fun record => compute_eq .debug rfl
    fun recording hm => legal_iff.mpr (hlegal recording hm)
  refine ⟨_, hrun 0, hrun 1, ?_⟩
  exact decodeReplays_injective .debug _ [0] [1] _ _ rfl rfl hlegal hlegal _ _ (hrun 0) (hrun 1)
    ⟨rfl, fun _ => rfl⟩ ⟨rfl, fun _ => rfl⟩

end Gomoku.DecodeReplays
