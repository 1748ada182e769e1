import Gomoku.Core.Rules
import Gomoku.Library.Random

/-!
# Sampling a legal move

`Board::UniformlySampleLegalMove` draws an offset in each coordinate and returns the first
empty field in a scan that starts there and wraps around. The scan visits every field
(`mem_scan_iff`), so the draw fails only on a board without an empty field, and the field at
the offsets itself comes first (`uniformlySampleLegalMove_push`).
-/

namespace Gomoku.Board

open Execution Random

/-- The fields in the order in which the nested loops visit them. -/
def scan (xOffset yOffset : Int) : List Vector2i :=
  (List.range kWidth).flatMap fun (x : Nat) => (List.range kHeight).map fun (y : Nat) =>
    ⟨((x : Int) + xOffset) % (kWidth : Int), ((y : Int) + yOffset) % (kHeight : Int)⟩

/-- `Board::UniformlySampleLegalMove`. -/
def uniformlySampleLegalMove (build : Build) (board : Board) (rng : Rng) :
    Result (Vector2i × Rng) := do
  let (xOffset, rng) := uniformInt 0 (kWidth - 1) rng
  let (yOffset, rng) := uniformInt 0 (kHeight - 1) rng
  let found ← (scan xOffset yOffset).findM? fun move => do
    return (← stoneAt build board move) == .none
  match found with
  | some move => return (move, rng)
  | none => .error (.fatal "All legal moves exhausted")

variable {position : Vector2i} {xOffset yOffset : Int}

/-- The scan visits the fields of the board and nothing else, from every offset. -/
theorem mem_scan_iff : position ∈ scan xOffset yOffset ↔ Inside position := by
  simp only [scan, kWidth, kHeight, List.mem_flatMap, List.mem_range, List.mem_map]
  constructor
  · intro h
    obtain ⟨x, hx, y, hy, rfl⟩ := h
    simp only [Inside]
    omega
  · intro h
    obtain ⟨_, _, _, _⟩ := h
    refine ⟨((position.x - xOffset) % 19).toNat, by omega,
      ((position.y - yOffset) % 19).toNat, by omega, ?_⟩
    apply Vector2i.ext
    · dsimp only
      omega
    · dsimp only
      omega

variable {build : Build} {board : Board} {rng : Rng}

/-- The sampler is the pure search for an empty field. -/
theorem uniformlySampleLegalMove_eq (build : Build) (board : Board) (rng : Rng) :
    uniformlySampleLegalMove build board rng =
      match (scan (uniformInt 0 18 rng).1 (uniformInt 0 18 rng.tail).1).find?
          (fun move => board.owner move == .none) with
      | some move => .ok (move, rng.tail.tail)
      | none => .error (.fatal "All legal moves exhausted") := by
  have hsearch := findM?_eq_ok
    (scan (uniformInt 0 18 rng).1 (uniformInt 0 18 rng.tail).1)
    (fun move => do return (← stoneAt build board move) == .none)
    (fun move => board.owner move == .none)
    (by
      intro move hmove
      rw [stoneAt_of_inside build board (mem_scan_iff.mp hmove)]
      rfl)
  show ((scan (uniformInt 0 18 rng).1 (uniformInt 0 18 rng.tail).1).findM? _ >>= _) = _
  rw [hsearch, ok_bind]
  cases (scan (uniformInt 0 18 rng).1 (uniformInt 0 18 rng.tail).1).find?
      (fun move => board.owner move == .none) <;> rfl

/-- On a board with an empty field the sampler returns an empty field, for every outcome of the
draws. -/
theorem uniformlySampleLegalMove_of_exists
    (h : ∃ position, Inside position ∧ board.owner position = .none)
    (build : Build) (rng : Rng) :
    ∃ move, uniformlySampleLegalMove build board rng = .ok (move, rng.tail.tail) ∧
      Inside move ∧ board.owner move = .none := by
  obtain ⟨position, hposition, hempty⟩ := h
  rw [uniformlySampleLegalMove_eq]
  cases hfound : (scan (uniformInt 0 18 rng).1 (uniformInt 0 18 rng.tail).1).find?
      (fun move => board.owner move == .none) with
  | none =>
      rw [List.find?_eq_none] at hfound
      exact absurd (by simpa using hempty) (hfound position (mem_scan_iff.mpr hposition))
  | some move =>
      have hprop := List.find?_some hfound
      exact ⟨move, rfl, mem_scan_iff.mp (List.mem_of_find?_eq_some hfound), by simpa using hprop⟩

/-- On a full board the sampler is fatal. -/
theorem uniformlySampleLegalMove_of_full
    (h : ∀ position, Inside position → board.owner position ≠ .none)
    (build : Build) (rng : Rng) :
    uniformlySampleLegalMove build board rng =
      .error (.fatal "All legal moves exhausted") := by
  rw [uniformlySampleLegalMove_eq, List.find?_eq_none.mpr]
  intro move hmove
  simpa using h move (mem_scan_iff.mp hmove)

/-- Some outcome of the draws returns any given empty field. -/
theorem uniformlySampleLegalMove_push (build : Build) (hposition : Inside position)
    (hempty : board.owner position = .none) (rng : Rng) :
    uniformlySampleLegalMove build board
        ((rng.push position.y.toNat).push position.x.toNat) = .ok (position, rng) := by
  obtain ⟨_, _, _, _⟩ := hposition
  rw [uniformlySampleLegalMove_eq, uniformInt_push (by omega), Rng.tail_push,
    uniformInt_push (by omega), Rng.tail_push]
  -- the first field of the scan is the one at the offsets
  have hhead : (scan (position.x.toNat : Int) (position.y.toNat : Int)).head? = some position := by
    have hx : ((0 : Nat) + (position.x.toNat : Int)) % (kWidth : Int) = position.x := by
      simp only [kWidth]
      omega
    have hy : ((0 : Nat) + (position.y.toNat : Int)) % (kHeight : Int) = position.y := by
      simp only [kHeight]
      omega
    show some (Vector2i.mk _ _) = some position
    rw [hx, hy]
  cases hscan : scan (position.x.toNat : Int) (position.y.toNat : Int) with
  | nil => rw [hscan] at hhead; cases hhead
  | cons first rest =>
      rw [hscan, List.head?_cons, Option.some.injEq] at hhead
      subst hhead
      simp [hempty]

/-- The draws for which the sampler returns the fields one after the other. -/
def draws (fields : List Vector2i) (rng : Rng) : Rng :=
  fields.foldr (fun field rng => (rng.push field.y.toNat).push field.x.toNat) rng

theorem draws_concat (fields : List Vector2i) (field : Vector2i) (rng : Rng) :
    draws (fields ++ [field]) rng =
      draws fields ((rng.push field.y.toNat).push field.x.toNat) := by
  rw [draws, List.foldr_append]
  rfl

/-- A generator whose next two draws are the given offsets. -/
def drawing (xOffset : Fin kWidth) (yOffset : Fin kHeight) (rng : Rng) : Rng :=
  (rng.push yOffset).push xOffset

/-- On every reachable board: from every pair of offsets the sampler returns a field without a
stone if there is one; it is fatal exactly when no move is possible; and every field without
a stone is what it returns for some pair of offsets. -/
theorem uniformlySampleLegalMove_sound_complete (build : Build) (board : Board)
    (hreach : Reachable build board) :
    (∀ (xOffset : Fin kWidth) (yOffset : Fin kHeight) (rng : Rng),
      ((∃ position, Inside position ∧ stoneAt build board position = .ok .none) →
        ∃ move, uniformlySampleLegalMove build board (drawing xOffset yOffset rng) =
          .ok (move, rng) ∧ Inside move ∧ stoneAt build board move = .ok .none) ∧
      (uniformlySampleLegalMove build board (drawing xOffset yOffset rng) =
          .error (.fatal "All legal moves exhausted") ↔ board.noMovePossible = true)) ∧
    ∀ position, Inside position → stoneAt build board position = .ok .none →
      ∃ xOffset yOffset, ∀ rng,
        uniformlySampleLegalMove build board (drawing xOffset yOffset rng) =
          .ok (position, rng) := by
  have hstone : ∀ {position}, Inside position →
      (stoneAt build board position = .ok .none ↔ board.owner position = .none) := by
    intro position hposition
    rw [stoneAt_of_inside build board hposition, Except.ok.injEq]
  have hsome : ∀ (xOffset : Fin kWidth) (yOffset : Fin kHeight) (rng : Rng),
      (∃ position, Inside position ∧ board.owner position = .none) →
      ∃ move, uniformlySampleLegalMove build board (drawing xOffset yOffset rng) =
        .ok (move, rng) ∧ Inside move ∧ board.owner move = .none := fun xOffset yOffset rng h =>
    uniformlySampleLegalMove_of_exists h build (drawing xOffset yOffset rng)
  refine ⟨fun xOffset yOffset rng => ⟨?_, ?_⟩, ?_⟩
  · intro h
    obtain ⟨position, hposition, hempty⟩ := h
    obtain ⟨move, hsample, hmove, howner⟩ :=
      hsome xOffset yOffset rng ⟨position, hposition, (hstone hposition).mp hempty⟩
    exact ⟨move, hsample, hmove, (hstone hmove).mpr howner⟩
  · rw [hreach.valid.noMovePossible_iff]
    constructor
    · intro hfatal position hposition hempty
      obtain ⟨move, hsample, _⟩ := hsome xOffset yOffset rng ⟨position, hposition, hempty⟩
      rw [hsample] at hfatal
      cases hfatal
    · intro hfull
      exact uniformlySampleLegalMove_of_full hfull build _
  · intro position hposition hempty
    obtain ⟨field, rfl⟩ := Field.exists_position hposition
    exact ⟨field.1, field.2, fun rng =>
      uniformlySampleLegalMove_push build hposition ((hstone hposition).mp hempty) rng⟩

/-- After a move in one corner, the field in the opposite corner can be drawn. -/
theorem uniformlySampleLegalMove_sound_complete_one_move :
    ∃ xOffset yOffset, ∀ rng,
      uniformlySampleLegalMove .debug (after [⟨0, 0⟩]) (drawing xOffset yOffset rng) =
        .ok (⟨18, 18⟩, rng) := by
  have hlegal : Legal [⟨0, 0⟩] := by decide
  have hempty : stoneAt .debug (after [⟨0, 0⟩]) ⟨18, 18⟩ = .ok .none := by
    rw [stoneAt_of_inside .debug _ (by decide),
      ((represents_after hlegal).owner_eq_none_iff _).mpr (by decide)]
  exact (uniformlySampleLegalMove_sound_complete .debug _
    (replay_eq_after .debug hlegal).2).2 ⟨18, 18⟩ (by decide) hempty

end Gomoku.Board
