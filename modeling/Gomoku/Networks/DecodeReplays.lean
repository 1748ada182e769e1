import Gomoku.Core.Feature
import Gomoku.Core.Messages
import Gomoku.Core.Rules
import Gomoku.Library.Tensor

/-!
# Decoding replays

The op `DecodeReplays` of `networks/replay_ops_kernel.cc`. `compute` parses the records,
counts the samples, allocates the two outputs and replays every recording, writing one row
for the starting board and one after every move. An error status of the op is a value of the
execution. A failed check or an access outside a bit set or a tensor is a fault.

Serialised recordings are abstract: `parseFromString` is the parser of the generated message
class. Numbers are abstract too: `R` only needs 0, 1 and a subtraction, as `float` has them.
The number of samples and the row index are natural numbers; they count rows of tensors that
have been allocated.
-/

namespace Gomoku.DecodeReplays

open Execution

/-- The statuses that the op reports. -/
inductive Status where
  | invalidArgument (message : String)
  deriving DecidableEq

/-- The output tensors. -/
structure Output (R : Type) where
  features : Tensor R
  scores : Tensor R

variable {ρ R : Type} [Zero R] [One R] [Sub R]

/-- `WriteOutput`: the features and the score of one board in row `i`. -/
def writeOutput (build : Build) (board : Board) (score : R) (output : Output R) (i : Nat) :
    Result (Output R) := do
  let (features, _) ← (defaultFeatures R build).toList.foldlM
    (fun (features, j) namedFeature => do
      let matrix ← namedFeature.2 board
      let features ← Board.iter
        (fun features field => features.store [i, field.1, field.2, j] (matrix field)) features
      return (features, j + 1))
    (output.features, 0)
  let playerScore ← (⟨score, 1 - score⟩ : PlayerMap R).get board.currentPlayer
  let scores ← output.scores.store [i] playerScore
  return ⟨features, scores⟩

/-- One move of a recording: apply it and write the row of the board it leads to. The number of the
row is an `int` in the source; with fewer than `2 ^ 31` rows it does not overflow. -/
def decodeMove (build : Build) (score : R) :
    Board × Output R × Nat → Vector2i → Result (Board × Output R × Nat)
  | (board, output, i), move => do
      let board ← board.applyMove build move
      let output ← writeOutput build board score output i
      return (board, output, i + 1)

/-- One recording: the row of the starting board and the rows after its moves. -/
def decodeRecording (build : Build) (state : Output R × Nat) (recording : Recording R) :
    Result (Output R × Nat) := do
  let (output, i) := state
  let output ← writeOutput build Board.new recording.score output i
  let (_, output, i) ← recording.move.foldlM (decodeMove build recording.score)
    (Board.new, output, i + 1)
  return (output, i)

omit [Zero R] [One R] [Sub R] in
/-- Parse the records in order and count the samples. The count is an `int` in the source; with
fewer than `2 ^ 31` samples it does not overflow. -/
def parseRecords (parseFromString : ρ → Option (Recording R)) :
    List ρ → Except Status (List (Recording R) × Nat)
  | [] => .ok ([], 0)
  | record :: records =>
      match parseFromString record with
      | none => .error (.invalidArgument "DecodeReplay couldn't deserialize a Recording.")
      | some recording =>
          match parseRecords parseFromString records with
          | .error status => .error status
          | .ok (recordings, samples) =>
              .ok (recording :: recordings, recording.move.length + 1 + samples)

/-- `DecodeReplaysOp::Compute`. -/
def compute (build : Build) (parseFromString : ρ → Option (Recording R)) (records : List ρ) :
    Result (Except Status (Output R)) :=
  match parseRecords parseFromString records with
  | .error status => return .error status
  | .ok (recordings, samples) => do
      let output : Output R := {
        features := Tensor.allocate [samples, kWidth, kHeight, (defaultFeatures R build).size]
        scores := Tensor.allocate [samples] }
      let (output, _) ← recordings.foldlM (decodeRecording build) (output, 0)
      return .ok output

end Gomoku.DecodeReplays
