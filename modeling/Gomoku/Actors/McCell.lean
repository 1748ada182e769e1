import Gomoku.Core.Feature
import Gomoku.Library.Random
import Mathlib.Data.Rat.Defs

/-!
# Monte Carlo cells

`actors/mc_cell.h` and `actors/mc_cell.cc`: the models that estimate the value of every move,
and the choice of a move from their estimates. Estimates are exact numbers. `SampleSoftmax`
uses the exponential function and `std::discrete_distribution`; it is a parameter of the code
that calls it, and `SoftmaxSampler` says what is assumed of it.
-/

namespace Gomoku

open Execution Random

/-- The entry of a matrix at a position; outside the matrix there is none. -/
def FeatureMatrix.entry {R : Type} (matrix : FeatureMatrix R) (position : Vector2i) : Result R :=
  if h : position.x.toNat < kWidth ∧ position.y.toNat < kHeight ∧
      0 ≤ position.x ∧ 0 ≤ position.y then
    .ok (matrix (⟨position.x.toNat, h.1⟩, ⟨position.y.toNat, h.2.1⟩))
  else .error .outOfRange

/-- The matrix with a new entry at a position. -/
def FeatureMatrix.set {R : Type} (matrix : FeatureMatrix R) (position : Vector2i) (value : R) :
    FeatureMatrix R :=
  fun field => if field.position = position then value else matrix field

/-- `McCell`, with the constructor from an estimate and a learning rate. -/
structure McCell where
  State : Type
  create : FeatureMatrix Rat → Rat → State
  winProb : State → FeatureMatrix Rat
  update : State → Vector2i → Rat → Result State

/-- The members of both cells. -/
structure McCellState where
  winProb : FeatureMatrix Rat
  learningRate : Rat

/-- A cell that replaces the entry of the move, where `next` gives the new value from the learning
rate, the score and the old value. -/
def mcCell (next : Rat → Rat → Rat → Rat) : McCell where
  State := McCellState
  create := McCellState.mk
  winProb := McCellState.winProb
  update := fun state move score => do
    let value ← state.winProb.entry move
    return { state with
      winProb := state.winProb.set move (next state.learningRate score value) }

/-- `McLinearCell`. -/
def mcLinearCell : McCell :=
  mcCell fun learningRate score value => value + learningRate * (score - value)

/-- `McLogisticCell`. -/
def mcLogisticCell : McCell :=
  mcCell fun learningRate score value =>
    let gradient := score * (1 / value) - (1 - score) * (1 / (1 - value))
    value + learningRate * gradient

/-- The fields of a board of the given size in the order in which a column-major matrix with one
row for every `x` stores them. -/
def storageOrder (width height : Nat) : List (Fin width × Fin height) :=
  (List.finRange height).flatMap fun y => (List.finRange width).map fun x => (x, y)

/-- The order of a `FeatureMatrix`. -/
def columnMajor : List Field := storageOrder kWidth kHeight

/-- `SampleGreedy`: the field at which the product of both matrices has its largest coefficient.
`maxCoeff(&x, &y)` is a function of Eigen; it visits the coefficients in storage order and
replaces the position only by that of a larger coefficient, so of equal ones it finds the first. -/
def sampleGreedy (winProb legalMoves : FeatureMatrix Rat) : Vector2i :=
  (columnMajor.foldl (fun best field =>
    if winProb field * legalMoves field > winProb best * legalMoves best then field else best)
    (0, 0)).position

/-- The type of `SampleSoftmax`: estimates, legal moves, temperature and generator. -/
abbrev SampleSoftmax :=
  FeatureMatrix Rat → FeatureMatrix Rat → Rat → Rng → Vector2i × Rng

/-- A `SampleSoftmax` that returns a field that is marked as legal whenever there is one. -/
structure SoftmaxSampler where
  sample : SampleSoftmax
  sample_legal : ∀ winProb legalMoves temperature rng,
    (∃ field : Field, legalMoves field ≠ 0) →
    ∃ field : Field, (sample winProb legalMoves temperature rng).1 = field.position ∧
      legalMoves field ≠ 0

end Gomoku
