import Gomoku.Core.BoardInvariant
import Std.Data.TreeMap

/-!
# Feature matrices

`core/feature.h`, `core/feature.cc` and `networks/default_features.cc`: matrices with one
entry for every field, and the named features of a position. `Features` is the ordered map
that the code iterates over, so the order of the channels is the order of the names
(`defaultFeatures_toList`).
-/

namespace Gomoku

open Execution

/-- The fields in the order of `Board::Iter`. -/
def Board.allFields : List Field :=
  (List.finRange kWidth).flatMap fun x => (List.finRange kHeight).map fun y => (x, y)

/-- `Board::Iter`: the function is called for every field, here on a state. -/
def Board.iter {σ : Type} (function : σ → Field → Result σ) (state : σ) : Result σ :=
  Board.allFields.foldlM function state

/-- `FeatureMatrix`. -/
abbrev FeatureMatrix (R : Type) := Field → R

/-- `Feature`. -/
abbrev Feature (R : Type) := Board → Result (FeatureMatrix R)

/-- `Features`, a `std::map` from names to features. -/
abbrev Features (R : Type) := Std.TreeMap String (Feature R)

theorem Board.mem_allFields (field : Field) : field ∈ Board.allFields := by
  simp [Board.allFields]

theorem Board.nodup_allFields : Board.allFields.Nodup := by
  unfold Board.allFields
  rw [List.nodup_flatMap]
  refine ⟨fun x _ => ?_, ?_⟩
  · exact (List.nodup_finRange kHeight).map fun y y' h => (Prod.mk.inj h).2
  · apply (List.nodup_finRange kWidth).imp
    intro x x' hne
    show List.Disjoint _ _
    intro field hfield hfield'
    obtain ⟨y, _, rfl⟩ := List.mem_map.mp hfield
    obtain ⟨y', _, heq⟩ := List.mem_map.mp hfield'
    exact hne (Prod.mk.inj heq).1.symm

-- From here on the two lemmas above stand for the list.
attribute [irreducible] Board.allFields

section StoneMatrix

variable {R : Type} [Zero R] [One R]

/-- `StoneMatrix`. The matrix starts uninitialised; every entry is assigned. -/
def stoneMatrix (build : Build) (board : Board) (player : Player) : Result (FeatureMatrix R) :=
  Board.iter (fun matrix field => do
    let stone ← board.stoneAt build field.position
    return Function.update matrix field (if stone = player then 1 else 0)) (fun _ => 0)

omit [Zero R] [One R] in
/-- Assigning every entry of a list of fields. -/
theorem foldl_update_apply (value : Field → R) (fields : List Field) (matrix : FeatureMatrix R)
    (field : Field) :
    fields.foldl (fun matrix field => Function.update matrix field (value field)) matrix field =
      if field ∈ fields then value field else matrix field := by
  induction fields generalizing matrix with
  | nil => simp
  | cons head rest ih =>
      rw [List.foldl_cons, ih]
      by_cases hrest : field ∈ rest
      · simp [hrest]
      · by_cases hhead : field = head
        · subst hhead
          simp [hrest]
        · simp [hrest, hhead]

/-- `StoneMatrix` is 1 exactly at the fields that hold a stone of the player. -/
theorem stoneMatrix_eq (build : Build) (board : Board) (player : Player) :
    stoneMatrix (R := R) build board player =
      .ok fun field => if board.owner field.position = player then 1 else 0 := by
  have hsteps := foldlM_eq_ok Board.allFields
    (fun (matrix : FeatureMatrix R) field => do
      let stone ← board.stoneAt build field.position
      return Function.update matrix field (if stone = player then 1 else 0))
    (fun matrix field =>
      Function.update matrix field (if board.owner field.position = player then 1 else 0))
    (by
      intro field _ matrix
      rw [Board.stoneAt_of_inside build board field.inside_position]
      rfl)
    (fun _ => 0)
  unfold stoneMatrix Board.iter
  rw [hsteps]
  congr 1
  funext field
  rw [foldl_update_apply (fun field => if board.owner field.position = player then 1 else 0),
    if_pos (Board.mem_allFields field)]

end StoneMatrix

section DefaultFeatures

variable (R : Type) [Zero R] [One R]

/-- `DefaultFeatures`. -/
def defaultFeatures (build : Build) : Features R :=
  (∅ : Features R)
    |>.insert "stone_me" (fun board => stoneMatrix build board board.currentPlayer)
    |>.insert "stone_opp" (fun board => do
        stoneMatrix build board (← kOpponent.get board.currentPlayer))
    |>.insert "stone_none" (fun board => stoneMatrix build board .none)

/-- The map iterates over the features in the order of their names. -/
theorem defaultFeatures_toList (build : Build) :
    (defaultFeatures R build).toList =
      [("stone_me", fun board => stoneMatrix build board board.currentPlayer),
        ("stone_none", fun board => stoneMatrix build board .none),
        ("stone_opp", fun board => do
          stoneMatrix build board (← kOpponent.get board.currentPlayer))] := rfl

end DefaultFeatures

end Gomoku
