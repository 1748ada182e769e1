import Gomoku.Networks.DecodeReplays
import Mathlib.Tactic.IntervalCases

/-!
# The rows of decoded replays

What `DecodeReplays` writes for legal recordings. A row is a board and the score of its
recording. `writeOutput_eq` says which stores one row makes, `decodeRecording_eq` which rows
one recording writes, and `compute_eq` gives the two outputs as the stores of all rows in
order. `decodeReplays_rows` reads the outputs back.
-/

namespace Gomoku.DecodeReplays

open Execution PositionalGame

/-! ## The stores of one row -/

/-- The indices of the feature stores of row `i`, in the order of the loops. -/
def rowKeys (i : Nat) : List (List Nat) :=
  (List.range 3).flatMap fun j => Board.allFields.map fun field => [i, field.1, field.2, j]

theorem mem_rowKeys_iff {i : Nat} {index : List Nat} :
    index ∈ rowKeys i ↔
      ∃ (field : Field) (j : Nat), j < 3 ∧ index = [i, field.1.val, field.2.val, j] := by
  simp only [rowKeys, List.mem_flatMap, List.mem_range, List.mem_map]
  constructor
  · intro h
    obtain ⟨j, hj, field, _, rfl⟩ := h
    exact ⟨field, j, hj, rfl⟩
  · intro h
    obtain ⟨field, j, hj, rfl⟩ := h
    exact ⟨j, hj, field, Board.mem_allFields field, rfl⟩

theorem nodup_rowKeys (i : Nat) : (rowKeys i).Nodup := by
  unfold rowKeys
  rw [List.nodup_flatMap]
  refine ⟨fun j _ => ?_, ?_⟩
  · apply Board.nodup_allFields.map
    intro f g h
    simp only [List.cons.injEq, and_true, true_and] at h
    exact Prod.ext (Fin.ext h.1) (Fin.ext h.2)
  · apply List.nodup_range.imp
    intro j j' hne
    show List.Disjoint _ _
    intro index hindex hindex'
    obtain ⟨f, _, rfl⟩ := List.mem_map.mp hindex
    obtain ⟨g, _, heq⟩ := List.mem_map.mp hindex'
    simp only [List.cons.injEq, and_true] at heq
    exact hne heq.2.2.2.symm

variable {R : Type} [Zero R] [One R] [Sub R]

/-- The player whose stones channel `j` shows. -/
def channel (board : Board) : Nat → Player
  | 0 => board.currentPlayer
  | 1 => .none
  | _ => board.currentPlayer.opponent

/-- The feature stores of a board in row `i`. -/
def rowStores (i : Nat) (board : Board) : List (List Nat × R) :=
  (List.range 3).flatMap fun j => Board.allFields.map fun field =>
    ([i, field.1.val, field.2.val, j],
      if board.owner field.position = channel board j then 1 else 0)

/-- The score of the player to move on the board. -/
def label (board : Board) (score : R) : R :=
  match board.currentPlayer with
  | .first => score
  | _ => 1 - score

omit [Sub R] in
theorem rowStores_keys (i : Nat) (board : Board) :
    (rowStores (R := R) i board).map Prod.fst = rowKeys i := by
  simp [rowStores, rowKeys, List.map_flatMap, Function.comp_def]

omit [Sub R] in
theorem mem_rowStores_iff {i : Nat} {board : Board} {index : List Nat} {value : R} :
    (index, value) ∈ rowStores i board ↔
      ∃ (field : Field) (j : Nat), j < 3 ∧ index = [i, field.1.val, field.2.val, j] ∧
        value = if board.owner field.position = channel board j then 1 else 0 := by
  simp only [rowStores, List.mem_flatMap, List.mem_range, List.mem_map, Prod.mk.injEq]
  constructor
  · intro h
    obtain ⟨j, hj, field, _, hindex, hvalue⟩ := h
    exact ⟨field, j, hj, hindex.symm, hvalue.symm⟩
  · intro h
    obtain ⟨field, j, hj, hindex, hvalue⟩ := h
    exact ⟨j, hj, field, Board.mem_allFields field, hindex.symm, hvalue.symm⟩

/-- The outputs have room for `samples` rows. -/
def Output.Shaped (output : Output R) (samples : Nat) : Prop :=
  output.features.shape = [samples, 19, 19, 3] ∧ output.scores.shape = [samples]

/-- The feature stores of the rows of some boards, from row `i` on. -/
def featureLog (i : Nat) (rows : List (Board × R)) : List (List Nat × R) :=
  (rows.zipIdx i).flatMap fun entry => rowStores entry.2 entry.1.1

/-- The score stores of the rows of some boards, from row `i` on. -/
def scoreLog (i : Nat) (rows : List (Board × R)) : List (List Nat × R) :=
  (rows.zipIdx i).map fun entry => ([entry.2], label entry.1.1 entry.1.2)

/-- The outputs after the rows of some boards with a score each, from row `i` on. -/
def Output.write (output : Output R) (i : Nat) (rows : List (Board × R)) : Output R where
  features := output.features.extend (featureLog i rows)
  scores := output.scores.extend (scoreLog i rows)

@[simp] theorem Output.write_nil (output : Output R) (i : Nat) : output.write i [] = output := by
  simp [Output.write, featureLog, scoreLog]

theorem Output.write_append (output : Output R) (i : Nat) (rows later : List (Board × R)) :
    output.write i (rows ++ later) = (output.write i rows).write (i + rows.length) later := by
  simp [Output.write, featureLog, scoreLog, List.zipIdx_append]

theorem Output.Shaped.write {output : Output R} {samples : Nat} (h : output.Shaped samples)
    (i : Nat) (rows : List (Board × R)) : (output.write i rows).Shaped samples :=
  ⟨h.1, h.2⟩

/-- The elements of a features tensor are the channels of the fields of its rows. -/
theorem inRange_features_iff {samples : Nat} {index : List Nat} :
    Tensor.inRange [samples, 19, 19, 3] index = true ↔
      ∃ i < samples, ∃ (field : Field) (j : Nat), j < 3 ∧
        index = [i, field.1.val, field.2.val, j] := by
  constructor
  · intro h
    simp only [Tensor.inRange_cons_iff, Tensor.inRange_nil_iff] at h
    obtain ⟨i, _, rfl, hi, x, _, rfl, hx, y, _, rfl, hy, j, _, rfl, hj, rfl⟩ := h
    exact ⟨i, hi, (⟨x, hx⟩, ⟨y, hy⟩), j, hj, rfl⟩
  · intro h
    obtain ⟨i, hi, field, j, hj, rfl⟩ := h
    have hx : field.1.val < 19 := field.1.isLt
    have hy : field.2.val < 19 := field.2.isLt
    simp [Tensor.inRange, hi, hj, hx, hy]

/-- The elements of a scores tensor are its rows. -/
theorem inRange_scores_iff {samples : Nat} {index : List Nat} :
    Tensor.inRange [samples] index = true ↔ ∃ i < samples, index = [i] := by
  constructor
  · intro h
    simp only [Tensor.inRange_cons_iff, Tensor.inRange_nil_iff] at h
    obtain ⟨i, _, rfl, hi, rfl⟩ := h
    exact ⟨i, hi, rfl⟩
  · intro h
    obtain ⟨i, hi, rfl⟩ := h
    simp [Tensor.inRange, hi]

/-- `WriteOutput` makes the stores of one row. -/
theorem writeOutput_eq (build : Build) {board : Board} (hplayer : board.currentPlayer ≠ .none)
    (score : R) {output : Output R} {samples i : Nat} (hshape : output.Shaped samples)
    (hi : i < samples) :
    writeOutput build board score output i = .ok (output.write i [(board, score)]) := by
  have hstore : ∀ (features : Tensor R) (j : Nat), j < 3 →
      features.shape = [samples, 19, 19, 3] → ∀ matrix : FeatureMatrix R,
      Board.iter (fun features field => features.store [i, field.1.val, field.2.val, j]
          (matrix field)) features =
        .ok (features.extend (Board.allFields.map fun field =>
          ([i, field.1.val, field.2.val, j], matrix field))) := by
    intro features j hj hfeatures matrix
    apply Tensor.foldlM_store
    intro field _
    rw [hfeatures]
    exact inRange_features_iff.mpr ⟨i, hi, field, j, hj, rfl⟩
  have hlabel : (⟨score, 1 - score⟩ : PlayerMap R).get board.currentPlayer =
      .ok (label board score) := by
    unfold label
    cases hcurrent : board.currentPlayer with
    | none => exact absurd hcurrent hplayer
    | first => rfl
    | second => rfl
  have hscores : output.scores.store [i] (label board score) =
      .ok (output.scores.extend [([i], label board score)]) := by
    apply Tensor.store_of_inRange
    rw [hshape.2]
    exact inRange_scores_iff.mpr ⟨i, hi, rfl⟩
  unfold writeOutput
  rw [defaultFeatures_toList]
  simp only [List.foldlM_cons, List.foldlM_nil, stoneMatrix_eq, kOpponent_get hplayer, ok_bind,
    pure_eq_ok]
  rw [hstore output.features 0 (by omega) hshape.1]
  simp only [ok_bind]
  rw [hstore _ 1 (by omega) (by rw [Tensor.extend_shape, hshape.1])]
  simp only [ok_bind]
  rw [hstore _ 2 (by omega) (by rw [Tensor.extend_shape, Tensor.extend_shape, hshape.1])]
  simp only [ok_bind, hlabel, hscores, Tensor.extend_extend, Output.write, featureLog, scoreLog,
    rowStores]
  simp [channel, List.range_succ]

/-! ## The rows of recordings -/

omit [Zero R] [One R] [Sub R] in
/-- The rows of a recording: the boards from the starting one to the last, with its score. -/
def rows (recording : Recording R) : List (Board × R) :=
  (recording.move.scanl Board.place Board.new).map fun board => (board, recording.score)

omit [Zero R] [One R] [Sub R] in
@[simp] theorem length_rows (recording : Recording R) :
    (rows recording).length = recording.move.length + 1 := by
  simp [rows]

omit [Zero R] [One R] [Sub R] in
/-- Row `k` of a recording is the board after its first `k` moves. -/
theorem rows_getElem? {recording : Recording R} {k : Nat} (hk : k ≤ recording.move.length) :
    (rows recording)[k]? = some (Board.after (recording.move.take k), recording.score) := by
  rw [rows, List.getElem?_map, List.getElem?_scanl, if_pos hk]
  rfl

/-- The loop over the moves writes the boards after every one of them. -/
theorem foldlM_decodeMove (build : Build) (score : R) (earlier later : List Vector2i)
    (hlegal : Legal (earlier ++ later)) {output : Output R} {samples i : Nat}
    (hshape : output.Shaped samples) (hroom : i + later.length ≤ samples) :
    later.foldlM (decodeMove build score) (Board.after earlier, output, i) =
      .ok (Board.after (earlier ++ later),
        output.write i ((later.scanl Board.place (Board.after earlier)).tail.map
          fun board => (board, score)),
        i + later.length) := by
  induction later generalizing earlier output i with
  | nil => simp
  | cons move later ih =>
      have hsplit : earlier ++ move :: later = (earlier ++ [move]) ++ later := by simp
      rw [hsplit] at hlegal ⊢
      have hnext : Legal (earlier ++ [move]) := hlegal.of_append
      obtain ⟨hearlier, hmove, hnew⟩ := legal_append_iff.mp hnext
      rw [List.length_cons] at hroom
      have happly := (Board.represents_after hearlier).applyMove build hmove hnew
      have hwrite := writeOutput_eq build (Board.represents_after hnext).currentPlayer_ne_none
        score hshape (i := i) (by omega)
      rw [Board.after_append] at hwrite
      have hrest := ih (earlier ++ [move]) hlegal
        (hshape.write i [((Board.after earlier).place move, score)])
        (i := i + 1) (by omega)
      rw [Board.after_append] at hrest
      rw [List.foldlM_cons, decodeMove, happly, ok_bind, hwrite, ok_bind, pure_eq_ok, ok_bind,
        hrest]
      -- the rows of the rest follow the row of this move
      have hrows : ((move :: later).scanl Board.place (Board.after earlier)).tail =
          [(Board.after earlier).place move] ++
            (later.scanl Board.place ((Board.after earlier).place move)).tail := by
        rw [List.scanl_cons, List.tail_cons]
        cases later <;> simp
      rw [hrows, List.map_append, Output.write_append, List.length_cons,
        show i + 1 + later.length = i + (later.length + 1) by omega]
      rfl

/-- One recording writes its rows. -/
theorem decodeRecording_eq (build : Build) {recording : Recording R}
    (hlegal : Legal recording.move) {output : Output R} {samples i : Nat}
    (hshape : output.Shaped samples) (hroom : i + (rows recording).length ≤ samples) :
    decodeRecording build (output, i) recording =
      .ok (output.write i (rows recording), i + (rows recording).length) := by
  rw [length_rows] at hroom ⊢
  have hfirst := writeOutput_eq build Board.Represents.new.currentPlayer_ne_none
    recording.score hshape (i := i) (by omega)
  have hmoves := foldlM_decodeMove build recording.score [] recording.move hlegal
    (hshape.write i [(Board.new, recording.score)]) (i := i + 1) (by omega)
  rw [Board.after_nil] at hmoves
  simp only [decodeRecording, hfirst, ok_bind, hmoves, pure_eq_ok]
  have hrows : rows recording = [(Board.new, recording.score)] ++
      (recording.move.scanl Board.place Board.new).tail.map
        fun board => (board, recording.score) := by
    unfold rows
    cases recording.move <;> simp
  rw [hrows, Output.write_append, show i + 1 + recording.move.length =
    i + (recording.move.length + 1) by omega]
  rfl

/-- The loop over the recordings writes the rows of all of them. -/
theorem foldlM_decodeRecording (build : Build) {recordings : List (Recording R)}
    (hlegal : ∀ recording ∈ recordings, Legal recording.move) {output : Output R}
    {samples i : Nat} (hshape : output.Shaped samples)
    (hroom : i + (recordings.flatMap rows).length ≤ samples) :
    recordings.foldlM (decodeRecording build) (output, i) =
      .ok (output.write i (recordings.flatMap rows),
        i + (recordings.flatMap rows).length) := by
  induction recordings generalizing output i with
  | nil => simp
  | cons recording recordings ih =>
      rw [List.flatMap_cons, List.length_append] at hroom
      have hone := decodeRecording_eq build (hlegal recording (by simp)) hshape (i := i)
        (by omega)
      have hrest := ih (fun other hm => hlegal other (by simp [hm]))
        (hshape.write i (rows recording)) (i := i + (rows recording).length) (by omega)
      rw [List.foldlM_cons, hone, ok_bind, hrest, List.flatMap_cons, List.length_append,
        Output.write_append, Nat.add_assoc]

omit [Zero R] [One R] [Sub R] in
/-- The first pass counts the rows that the second pass writes. -/
theorem parseRecords_eq {ρ : Type} {parseFromString : ρ → Option (Recording R)}
    {records : List ρ} {recordings : List (Recording R)}
    (hparse : records.mapM parseFromString = some recordings) :
    parseRecords parseFromString records =
      .ok (recordings, (recordings.flatMap rows).length) := by
  induction records generalizing recordings with
  | nil =>
      obtain rfl : [] = recordings := by simpa using hparse
      rfl
  | cons record records ih =>
      rw [List.mapM_cons] at hparse
      obtain ⟨recording, hrecord, hparse⟩ := Option.bind_eq_some_iff.mp hparse
      obtain ⟨rest, hrest, hparse⟩ := Option.bind_eq_some_iff.mp hparse
      obtain rfl : recording :: rest = recordings := by simpa using hparse
      simp [parseRecords, hrecord, ih hrest]

/-- The outputs before the first row. -/
def blank (samples : Nat) : Output R where
  features := Tensor.allocate [samples, kWidth, kHeight, 3]
  scores := Tensor.allocate [samples]

/-- For legal recordings the outputs are the stores of all their rows. -/
theorem compute_eq {ρ : Type} (build : Build) {parseFromString : ρ → Option (Recording R)}
    {records : List ρ} {recordings : List (Recording R)}
    (hparse : records.mapM parseFromString = some recordings)
    (hlegal : ∀ recording ∈ recordings, Legal recording.move) :
    compute build parseFromString records =
      .ok (.ok ((blank (recordings.flatMap rows).length).write 0
        (recordings.flatMap rows))) := by
  have hshape : (blank (recordings.flatMap rows).length : Output R).Shaped
      (recordings.flatMap rows).length := ⟨rfl, rfl⟩
  have hrun := foldlM_decodeRecording build hlegal hshape (i := 0) (by omega)
  have hsize : (defaultFeatures R build).size = 3 := rfl
  simp only [compute, parseRecords_eq hparse, hsize]
  rw [blank] at hrun
  rw [hrun, ok_bind]
  rfl

/-! ## Reading the outputs -/

omit [Zero R] [One R] [Sub R] in
/-- The rows have different indices. -/
theorem nodup_indices (rows : List (Board × R)) : ((rows.zipIdx 0).map Prod.snd).Nodup := by
  rw [List.zipIdx_map_snd]
  exact List.nodup_range'

omit [Sub R] in
/-- No two feature stores go to the same element. -/
theorem nodup_featureLog (rows : List (Board × R)) :
    ((featureLog 0 rows).map Prod.fst).Nodup := by
  rw [featureLog, List.map_flatMap]
  simp only [rowStores_keys]
  rw [List.nodup_flatMap]
  refine ⟨fun entry _ => nodup_rowKeys entry.2, ?_⟩
  apply (List.pairwise_map.mp (nodup_indices rows)).imp
  intro entry other hne
  show List.Disjoint _ _
  intro index hindex hindex'
  obtain ⟨f, j, _, rfl⟩ := mem_rowKeys_iff.mp hindex
  obtain ⟨g, k, _, heq⟩ := mem_rowKeys_iff.mp hindex'
  exact hne (List.cons.inj heq).1

omit [Zero R] in
/-- No two score stores go to the same element. -/
theorem nodup_scoreLog (rows : List (Board × R)) :
    ((scoreLog 0 rows).map Prod.fst).Nodup := by
  rw [scoreLog, List.map_map]
  have hkeys := (nodup_indices rows).map (f := fun i => [i]) fun i j h => (List.cons.inj h).1
  rw [List.map_map] at hkeys
  exact hkeys

omit [Sub R] in
theorem mem_featureLog_iff {rows : List (Board × R)} {index : List Nat} {value : R} :
    (index, value) ∈ featureLog 0 rows ↔
      ∃ i board score, rows[i]? = some (board, score) ∧ (index, value) ∈ rowStores i board := by
  simp only [featureLog, List.mem_flatMap]
  constructor
  · intro h
    obtain ⟨⟨⟨board, score⟩, i⟩, hrow, hstore⟩ := h
    exact ⟨i, board, score, List.mk_mem_zipIdx_iff_getElem?.mp hrow, hstore⟩
  · intro h
    obtain ⟨i, board, score, hrow, hstore⟩ := h
    exact ⟨((board, score), i), List.mk_mem_zipIdx_iff_getElem?.mpr hrow, hstore⟩

omit [Zero R] in
theorem mem_scoreLog_iff {rows : List (Board × R)} {index : List Nat} {value : R} :
    (index, value) ∈ scoreLog 0 rows ↔
      ∃ i board score, rows[i]? = some (board, score) ∧ index = [i] ∧
        value = label board score := by
  simp only [scoreLog, List.mem_map, Prod.mk.injEq]
  constructor
  · intro h
    obtain ⟨⟨⟨board, score⟩, i⟩, hrow, hindex, hvalue⟩ := h
    exact ⟨i, board, score, List.mk_mem_zipIdx_iff_getElem?.mp hrow, hindex.symm, hvalue.symm⟩
  · intro h
    obtain ⟨i, board, score, hrow, hindex, hvalue⟩ := h
    exact ⟨((board, score), i), List.mk_mem_zipIdx_iff_getElem?.mpr hrow, hindex.symm,
      hvalue.symm⟩

variable {table : List (Board × R)} {board : Board} {score : R} {i : Nat}

/-- The features of a row. -/
theorem read_features (hrow : table[i]? = some (board, score)) (field : Field) {j : Nat}
    (hj : j < 3) :
    ((blank table.length).write 0 table).features.read [i, field.1.val, field.2.val, j] =
      some (if board.owner field.position = channel board j then 1 else 0) := by
  show ((Tensor.allocate _).extend (featureLog 0 table)).read _ = _
  rw [Tensor.read_extend_iff (nodup_featureLog table), mem_featureLog_iff]
  exact ⟨i, board, score, hrow, mem_rowStores_iff.mpr ⟨field, j, hj, rfl, rfl⟩⟩

/-- The score of a row. -/
theorem read_scores (hrow : table[i]? = some (board, score)) :
    ((blank table.length).write 0 table).scores.read [i] = some (label board score) := by
  show ((Tensor.allocate _).extend (scoreLog 0 table)).read _ = _
  rw [Tensor.read_extend_iff (nodup_scoreLog table), mem_scoreLog_iff]
  exact ⟨i, board, score, hrow, rfl, rfl⟩

/-- Every element of the features is written once, and nothing else is. -/
theorem writes_features (table : List (Board × R)) (index : List Nat) :
    ((blank table.length).write 0 table).features.writes index =
      if Tensor.inRange [table.length, 19, 19, 3] index then 1 else 0 := by
  show ((Tensor.allocate _).extend (featureLog 0 table)).writes index = _
  rw [Tensor.writes_extend (nodup_featureLog table)]
  have hkeys : index ∈ (featureLog 0 table).map Prod.fst ↔
      Tensor.inRange [table.length, 19, 19, 3] index = true := by
    rw [inRange_features_iff]
    constructor
    · intro h
      obtain ⟨⟨_, value⟩, hstore, rfl⟩ := List.mem_map.mp h
      obtain ⟨i, board, score, hrow, hstore⟩ := mem_featureLog_iff.mp hstore
      obtain ⟨field, j, hj, hindex, _⟩ := mem_rowStores_iff.mp hstore
      exact ⟨i, (List.getElem?_eq_some_iff.mp hrow).1, field, j, hj, hindex⟩
    · intro h
      obtain ⟨i, hi, field, j, hj, rfl⟩ := h
      exact List.mem_map.mpr ⟨(_, _), mem_featureLog_iff.mpr ⟨i, _, _,
        List.getElem?_eq_getElem hi, mem_rowStores_iff.mpr ⟨field, j, hj, rfl, rfl⟩⟩, rfl⟩
  simp only [hkeys]

/-- Every element of the scores is written once, and nothing else is. -/
theorem writes_scores (table : List (Board × R)) (index : List Nat) :
    ((blank table.length).write 0 table).scores.writes index =
      if Tensor.inRange [table.length] index then 1 else 0 := by
  show ((Tensor.allocate _).extend (scoreLog 0 table)).writes index = _
  rw [Tensor.writes_extend (nodup_scoreLog table)]
  have hkeys : index ∈ (scoreLog 0 table).map Prod.fst ↔
      Tensor.inRange [table.length] index = true := by
    rw [inRange_scores_iff]
    constructor
    · intro h
      obtain ⟨⟨_, value⟩, hstore, rfl⟩ := List.mem_map.mp h
      obtain ⟨i, board, score, hrow, hindex, _⟩ := mem_scoreLog_iff.mp hstore
      exact ⟨i, (List.getElem?_eq_some_iff.mp hrow).1, hindex⟩
    · intro h
      obtain ⟨i, hi, rfl⟩ := h
      exact List.mem_map.mpr ⟨(_, _), mem_scoreLog_iff.mpr ⟨i, _, _,
        List.getElem?_eq_getElem hi, rfl, rfl⟩, rfl⟩
  simp only [hkeys]

/-! ## The rows of the decoded recordings -/

omit [Zero R] [One R] [Sub R] in
/-- A recording has a row for the starting board and one for every move. -/
theorem length_table (recordings : List (Recording R)) :
    (recordings.flatMap rows).length =
      (recordings.map fun recording => recording.move.length + 1).sum := by
  simp [List.length_flatMap]

omit [Zero R] [One R] [Sub R] in
/-- The rows of a recording follow the rows of the recordings before it. -/
theorem table_getElem? (before later : List (Recording R)) {recording : Recording R} {k : Nat}
    (hk : k ≤ recording.move.length) :
    ((before ++ recording :: later).flatMap rows)[
        (before.map fun earlier => earlier.move.length + 1).sum + k]? =
      some (Board.after (recording.move.take k), recording.score) := by
  have hlt : k < (rows recording).length := by
    rw [length_rows]
    omega
  rw [List.flatMap_append, List.flatMap_cons, ← length_table,
    List.getElem?_append_right (Nat.le_add_right _ _), Nat.add_sub_cancel_left,
    List.getElem?_append_left hlt, rows_getElem? hk]

omit [Zero R] in
/-- The label is the score of FIRST, or what is left of 1 for SECOND. -/
theorem label_of_represents {moves : List Vector2i} (h : board.Represents moves) (score : R) :
    label board score = if moves.length % 2 = 0 then score else 1 - score := by
  unfold label
  rw [h.currentPlayer_eq, turn]
  by_cases heven : moves.length % 2 = 0
  · rw [if_pos heven, if_pos heven]
  · rw [if_neg heven, if_neg heven]

/-- The score in row `k` of a recording. -/
theorem read_scores_table {recordings before later : List (Recording R)}
    {recording : Recording R} (hsplit : recordings = before ++ recording :: later)
    (hlegal : Legal recording.move) {k : Nat} (hk : k ≤ recording.move.length) :
    ((blank (recordings.flatMap rows).length).write 0 (recordings.flatMap rows)).scores.read
        [(before.map fun earlier => earlier.move.length + 1).sum + k] =
      some (if k % 2 = 0 then recording.score else 1 - recording.score) := by
  have hrow := table_getElem? before later hk
  rw [← hsplit] at hrow
  rw [read_scores hrow, label_of_represents (Board.represents_after (hlegal.take k)),
    List.length_take_of_le hk]

omit [Zero R] [One R] [Sub R] in
/-- The three channels show different players. -/
theorem channel_injective (hplayer : board.currentPlayer ≠ .none) {j k : Nat} (hj : j < 3)
    (hk : k < 3) (h : channel board j = channel board k) : j = k := by
  cases hcurrent : board.currentPlayer with
  | none => exact absurd hcurrent hplayer
  | first =>
      interval_cases j <;> interval_cases k <;> simp_all [channel, Player.opponent]
  | second =>
      interval_cases j <;> interval_cases k <;> simp_all [channel, Player.opponent]

omit [Zero R] [One R] [Sub R] in
/-- Every player, and nobody, has a channel. -/
theorem exists_channel (hplayer : board.currentPlayer ≠ .none) (player : Player) :
    ∃ j < 3, channel board j = player := by
  by_cases hnone : player = .none
  · exact ⟨1, by omega, hnone.symm⟩
  by_cases hcurrent : player = board.currentPlayer
  · exact ⟨0, by omega, hcurrent.symm⟩
  refine ⟨2, by omega, ?_⟩
  show board.currentPlayer.opponent = player
  cases hboard : board.currentPlayer <;> cases player <;> simp_all [Player.opponent]

omit [Sub R] in
/-- A field shows in exactly one of the three channels. -/
theorem exists_unique_channel [NeZero (1 : R)] (hplayer : board.currentPlayer ≠ .none)
    (position : Vector2i) :
    ∃! j, j < 3 ∧
      (if board.owner position = channel board j then 1 else 0 : R) = 1 := by
  have hone : ∀ j, (if board.owner position = channel board j then 1 else 0 : R) = 1 ↔
      board.owner position = channel board j := by
    intro j
    by_cases h : board.owner position = channel board j
    · simp [h]
    · simp [h, zero_ne_one' R]
  obtain ⟨j, hj, hchannel⟩ := exists_channel hplayer (board.owner position)
  refine ⟨j, ⟨hj, (hone j).mpr hchannel.symm⟩, ?_⟩
  intro k hk
  have hsame : channel board k = channel board j := by
    rw [hchannel, (hone k).mp hk.2]
  exact channel_injective hplayer hk.1 hj hsame

/-- What `DecodeReplays` writes for recordings whose moves are on different fields. Every
element of both outputs is written once and nothing outside them. The rows of a recording
follow those of the earlier ones; row `k` among them shows the position after its first `k`
moves from the side of the player to move, and the score of that player. -/
theorem decodeReplays_rows {ρ : Type} [NeZero (1 : R)] (build : Build)
    (parseFromString : ρ → Option (Recording R)) (records : List ρ)
    (recordings : List (Recording R))
    (hparse : records.mapM parseFromString = some recordings)
    (hlegal : ∀ recording ∈ recordings,
      (∀ move ∈ recording.move, Board.Inside move) ∧ recording.move.Nodup) :
    ∃ output, compute build parseFromString records = .ok (.ok output) ∧
      output.features.shape =
        [(recordings.map fun recording => recording.move.length + 1).sum, kWidth, kHeight, 3] ∧
      output.scores.shape =
        [(recordings.map fun recording => recording.move.length + 1).sum] ∧
      (∀ index, output.features.writes index =
        if Tensor.inRange output.features.shape index then 1 else 0) ∧
      (∀ index, output.scores.writes index =
        if Tensor.inRange output.scores.shape index then 1 else 0) ∧
      ∀ before recording later k, recordings = before ++ recording :: later →
        k ≤ recording.move.length →
        ∃ i board, i = (before.map fun earlier => earlier.move.length + 1).sum + k ∧
          Board.replay build (recording.move.take k) = .ok board ∧
          (∀ field : Field,
            output.features.read [i, field.1, field.2, 0] =
              some (if board.owner field.position = turn k then 1 else 0) ∧
            output.features.read [i, field.1, field.2, 1] =
              some (if board.owner field.position = .none then 1 else 0) ∧
            output.features.read [i, field.1, field.2, 2] =
              some (if board.owner field.position = turn (k + 1) then 1 else 0) ∧
            ∃! j, j < 3 ∧ output.features.read [i, field.1, field.2, j] = some 1) ∧
          output.scores.read [i] =
            some (if k % 2 = 0 then recording.score else 1 - recording.score) := by
  have hall : ∀ recording ∈ recordings, Legal recording.move :=
    fun recording hm => legal_iff.mpr (hlegal recording hm)
  have hshape : ((blank (recordings.flatMap rows).length).write 0
      (recordings.flatMap rows)).Shaped
        (recordings.map fun recording => recording.move.length + 1).sum := by
    rw [length_table]
    exact ⟨rfl, rfl⟩
  refine ⟨_, compute_eq build hparse hall, hshape.1, hshape.2, ?_, ?_, ?_⟩
  · intro index
    exact writes_features (recordings.flatMap rows) index
  · intro index
    exact writes_scores (recordings.flatMap rows) index
  intro before recording later k hsplit hk
  have hmoves := (hall recording (by simp [hsplit])).take k
  have hrep := Board.represents_after hmoves
  have hlength : (recording.move.take k).length = k := List.length_take_of_le hk
  have hrow := table_getElem? before later hk
  rw [← hsplit] at hrow
  refine ⟨_, Board.after (recording.move.take k), rfl,
    (Board.replay_eq_after build hmoves).1, ?_, ?_⟩
  · intro field
    have hread := fun (j : Nat) (hj : j < 3) => read_features hrow field hj
    have hcurrent := hrep.currentPlayer_eq
    rw [hlength] at hcurrent
    refine ⟨?_, ?_, ?_, ?_⟩
    · rw [hread 0 (by omega), channel, hcurrent]
    · rw [hread 1 (by omega), channel]
    · rw [hread 2 (by omega), channel, hcurrent, turn_succ]
      · simp
      · simp
    · obtain ⟨j, hj, hunique⟩ := exists_unique_channel (R := R) hrep.currentPlayer_ne_none
        field.position
      refine ⟨j, ⟨hj.1, ?_⟩, ?_⟩
      · show Tensor.read _ _ = _
        rw [hread j hj.1, hj.2]
      · intro k' hk'
        apply hunique k'
        refine ⟨hk'.1, ?_⟩
        have hread' := hk'.2
        rw [hread k' hk'.1] at hread'
        exact Option.some.inj hread'
  · exact read_scores_table hsplit (hall recording (by simp [hsplit])) hk

/-- A game of two moves and one without moves give four rows. SECOND is to move in the row after
the first move, has lost, and sees the one stone as the opponent's. -/
theorem decodeReplays_rows_two_games :
    ∃ output, compute (ρ := Recording Rat) .debug some
        [⟨[⟨0, 0⟩, ⟨1, 1⟩], 1⟩, ⟨[], 0⟩] = .ok (.ok output) ∧
      output.features.shape = [4, 19, 19, 3] ∧ output.scores.read [1] = some 0 ∧
      output.features.read [1, 0, 0, 2] = some 1 := by
  obtain ⟨output, hrun, hshape, _, _, _, hrows⟩ := decodeReplays_rows (ρ := Recording Rat) .debug
    some [⟨[⟨0, 0⟩, ⟨1, 1⟩], 1⟩, ⟨[], 0⟩] [⟨[⟨0, 0⟩, ⟨1, 1⟩], 1⟩, ⟨[], 0⟩] rfl (by decide)
  obtain ⟨i, board, rfl, hreplay, hfields, hscore⟩ :=
    hrows [] ⟨[⟨0, 0⟩, ⟨1, 1⟩], 1⟩ [⟨[], 0⟩] 1 rfl (by decide)
  have hboard : board = Board.new.place ⟨0, 0⟩ :=
    Board.eq_after_of_replay (by decide) hreplay
  have howner : board.owner (Field.position (0, 0)) = turn 2 := by
    rw [hboard]
    decide +kernel
  refine ⟨output, hrun, hshape, ?_, ?_⟩
  · simpa using hscore
  · have hopponent := (hfields (0, 0)).2.2.1
    rw [if_pos howner] at hopponent
    exact hopponent

end Gomoku.DecodeReplays
