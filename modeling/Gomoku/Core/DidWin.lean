import Gomoku.Core.Rules

/-!
# The incremental win test

`Board::DidWin` counts the stones on the rays leaving the last move. The rays end because a
position outside the board has no owner (`castRay_total`), so the test terminates, and it
finds exactly the windows of five through the last move (`didWin_total`). Over a whole game
whose earlier moves did not win, that is a full scan of the board: `didWin_agrees_with_scan`.
-/

namespace Gomoku.Board

open Execution PositionalGame

variable {board : Board} {position direction : Vector2i} {player : Player}

/-! ## Rays -/

/-- The vector changes one of the coordinates by one. -/
def IsRay (direction : Vector2i) : Prop :=
  direction.x = 1 ∨ direction.x = -1 ∨ direction.y = 1 ∨ direction.y = -1

/-- At most 19 consecutive points of a ray are inside the board. -/
theorem ray_length_le (hray : IsRay direction) {n : Nat}
    (hfirst : Inside (position + (1 : Int) * direction))
    (hlast : Inside (position + (n : Int) * direction)) : n ≤ 19 := by
  simp only [Inside, Vector2i.add_x, Vector2i.mul_x, Vector2i.add_y, Vector2i.mul_y]
    at hfirst hlast
  rcases hray with h | h | h | h <;> rw [h] at hfirst hlast <;> omega

/-- `CastRay` ends and counts the run of the player's stones next to the last move. Fuel 20 is
enough: a longer run would leave the board. -/
theorem castRay_total (build : Build) (board : Board) (lastMove : Vector2i)
    (hray : IsRay direction) (hplayer : player ≠ .none) {fuel : Nat} (hfuel : 20 ≤ fuel) :
    ∃ count : Nat, castRay fuel build board lastMove direction player = .ok (count : Int) ∧
      RunLength (fun j => board.owner (lastMove + ((j : Int) + 1) * direction) = player)
        count := by
  -- the counter is a natural number and every stone it has passed belongs to the player
  let invariant : Int → Prop := fun count => ∃ n : Nat, count = n ∧
    ∀ j < n, board.owner (lastMove + ((j : Int) + 1) * direction) = player
  obtain ⟨final, hrun, ⟨n, rfl, hall⟩, hstop⟩ := whileLoop_total
    (fun _ count => do
      let stone ← stoneAtPadded build board (lastMove + (count + 1) * direction)
      return stone == player)
    (fun _ count => return count + 1) 0 invariant
    (fun count => board.owner (lastMove + (count + 1) * direction) = player)
    (fun count => 19 - count.toNat)
    (by
      intro count _
      refine ⟨board.owner (lastMove + (count + 1) * direction) == player, fun _ _ => ?_, by simp⟩
      rw [stoneAtPadded_eq]
      rfl)
    (by
      intro count hinvariant hstone
      obtain ⟨n, rfl, hall⟩ := hinvariant
      have hnext : ∀ j < n + 1,
          board.owner (lastMove + ((j : Int) + 1) * direction) = player := by
        intro j hj
        rcases Nat.lt_succ_iff_lt_or_eq.mp hj with hlt | rfl
        · exact hall j hlt
        · exact hstone
      have hbound : n + 1 ≤ 19 := by
        have hfirst := inside_of_owner hplayer (hnext 0 (by omega))
        have hlast := inside_of_owner hplayer (hnext n (by omega))
        exact ray_length_le hray (by simpa using hfirst) (by simpa using hlast)
      refine ⟨n + 1, fun _ _ => rfl, ⟨n + 1, by simp, hnext⟩, ?_⟩
      simp only [Int.toNat_natCast]
      omega)
    (show invariant 0 from ⟨0, rfl, by simp⟩)
  exact ⟨n, hrun 0 fuel (Nat.le_refl 0) (by simp; omega), hall, hstop⟩

/-! ## The four lines -/

/-- The code's directions are the steps of the four lines. -/
theorem mem_directions_iff : direction ∈ directions ↔ ∃ line : Line, direction = line.step := by
  constructor
  · intro h
    simp only [directions, List.mem_cons, List.not_mem_nil, or_false] at h
    rcases h with rfl | rfl | rfl | rfl
    · exact ⟨.vertical, rfl⟩
    · exact ⟨.horizontal, rfl⟩
    · exact ⟨.diagonal, rfl⟩
    · exact ⟨.antidiagonal, rfl⟩
  · intro h
    obtain ⟨line, rfl⟩ := h
    cases line <;> simp [directions, Line.step]

theorem isRay_step (line : Line) : IsRay line.step ∧ IsRay (-line.step) := by
  cases line <;> simp [IsRay, Line.step]

/-- Walking along a line twice is walking along it once. -/
theorem add_mul_add_mul (p d : Vector2i) (m n : Int) : p + m * d + n * d = p + (m + n) * d := by
  apply Vector2i.ext
  · simp only [Vector2i.add_x, Vector2i.mul_x]
    ring
  · simp only [Vector2i.add_y, Vector2i.mul_y]
    ring

theorem add_mul_neg (p d : Vector2i) (m : Int) : p + m * (-d) = p + (-m) * d := by
  apply Vector2i.ext <;> simp

@[simp] theorem add_zero_mul (p d : Vector2i) : p + (0 : Int) * d = p := by
  apply Vector2i.ext <;> simp

/-- `DidWin` terminates, and it is true exactly when five consecutive stones of the player who
is not to move include the last move. -/
theorem didWin_total (build : Build) (hplayer : board.currentPlayer ≠ .none)
    (hposition : Inside position)
    (howner : board.owner position = board.currentPlayer.opponent)
    {fuel : Nat} (hfuel : 20 ≤ fuel) :
    ∃ won, didWin fuel build board position = .ok won ∧
      (won = true ↔ ∃ line : Line, ∃ k ≤ 4, ∀ j ≤ 4,
        board.owner (position + ((j : Nat) - (k : Nat) : Int) * line.step) =
          board.currentPlayer.opponent) := by
  have hopponent : board.currentPlayer.opponent ≠ .none := by simpa using hplayer
  simp only [didWin, inside_eq_decide, hposition, decide_true, dcheck_true, ok_bind]
  obtain ⟨won, hrun, hwon⟩ := anyM_total directions
    (fun direction => do
      let player ← kOpponent.get board.currentPlayer
      let negativeCount ← castRay fuel build board position (-direction) player
      let positiveCount ← castRay fuel build board position direction player
      return decide (positiveCount + negativeCount ≥ 4))
    (fun direction => ∃ k ≤ 4, ∀ j ≤ 4,
      board.owner (position + ((j : Nat) - (k : Nat) : Int) * direction) =
        board.currentPlayer.opponent)
    (by
      intro direction hdirection
      obtain ⟨line, rfl⟩ := mem_directions_iff.mp hdirection
      obtain ⟨backward, hbackward, hruns⟩ := castRay_total build board position
        (isRay_step line).2 hopponent hfuel
      obtain ⟨forward, hforward, hruns'⟩ := castRay_total build board position
        (isRay_step line).1 hopponent hfuel
      refine ⟨decide ((forward : Int) + backward ≥ 4), ?_, ?_⟩
      · simp only [kOpponent_get hplayer, ok_bind, hbackward, hforward, pure_eq_ok]
      · rw [decide_eq_true_iff]
        have hwindow := window_iff
          (P := fun t => board.owner (position + t * line.step) = board.currentPlayer.opponent)
          (by simpa using howner) hruns' (by simpa only [add_mul_neg] using hruns) 4
        rw [← hwindow]
        omega)
  refine ⟨won, hrun, hwon.trans ?_⟩
  constructor
  · intro hexists
    obtain ⟨direction, hdirection, hwindow⟩ := hexists
    obtain ⟨line, rfl⟩ := mem_directions_iff.mp hdirection
    exact ⟨line, hwindow⟩
  · intro hexists
    obtain ⟨line, hwindow⟩ := hexists
    exact ⟨line.step, mem_directions_iff.mpr ⟨line, rfl⟩, hwindow⟩

/-! ## Whole games -/

/-- The windows through a field, counted from the field. -/
theorem exists_five_through_iff {P : Vector2i → Prop} (hP : ∀ p, P p → Inside p) :
    (∃ cells ∈ fives, position ∈ cells ∧ ∀ cell ∈ cells, P cell) ↔
      ∃ line : Line, ∃ k ≤ 4, ∀ j ≤ 4,
        P (position + ((j : Nat) - (k : Nat) : Int) * line.step) := by
  constructor
  · intro hfive
    obtain ⟨_, ⟨start, line, rfl, _⟩, ⟨k, hk, rfl⟩, hall⟩ := hfive
    refine ⟨line, k, by omega, fun j hj => ?_⟩
    have hshift : (k : Int) + (j - k) = j := by omega
    rw [add_mul_add_mul, hshift]
    exact hall _ ⟨j, by omega, rfl⟩
  · intro hwindow
    obtain ⟨line, k, hk, hall⟩ := hwindow
    have hcell : ∀ j < 5,
        P (position + (-(k : Int)) * line.step + ((j : Nat) : Int) * line.step) := by
      intro j hj
      have hshift : -(k : Int) + j = j - k := by omega
      rw [add_mul_add_mul, hshift]
      exact hall j (by omega)
    refine ⟨window (position + (-(k : Int)) * line.step) line, ⟨_, line, rfl, ?_⟩, ?_, ?_⟩
    · intro cell hmem
      obtain ⟨j, hj, rfl⟩ := hmem
      exact hP _ (hcell j hj)
    · exact ⟨k, by omega, by rw [add_mul_add_mul]; simp⟩
    · intro cell hmem
      obtain ⟨j, hj, rfl⟩ := hmem
      exact hcell j hj

variable {moves : List Vector2i} {move : Vector2i}

/-- Nobody has completed a winning set. -/
def Undecided (moves : List Vector2i) : Prop := ∀ player, ¬ Completed turn fives moves player

/-- Before its last moves an undecided game was undecided. -/
theorem Undecided.of_append {moves later : List Vector2i} (h : Undecided (moves ++ later)) :
    Undecided moves :=
  fun player hcompleted => h player (hcompleted.append later)

/-- Every earlier position of an undecided game was undecided. -/
theorem Undecided.take (h : Undecided moves) (k : Nat) : Undecided (moves.take k) := by
  rw [← List.take_append_drop k moves] at h
  exact h.of_append

/-- Nobody has won before the first move. -/
theorem undecided_nil : Undecided [] := by
  intro player hcompleted
  obtain ⟨_, ⟨start, line, rfl, _⟩, hall⟩ := hcompleted
  exact not_owns_nil (hall _ ⟨0, by omega, rfl⟩)

/-- A completed set belongs to a player. -/
theorem Completed.ne_none (h : Completed turn fives moves player) : player ≠ .none := by
  obtain ⟨_, ⟨start, line, rfl, _⟩, hall⟩ := h
  obtain ⟨i, _, rfl⟩ := hall _ ⟨0, by omega, rfl⟩
  exact turn_ne_none i

/-- Somebody has completed a winning set exactly when the board has five in a row. -/
theorem Represents.exists_completed_iff (h : board.Represents moves) :
    (∃ player, Completed turn fives moves player) ↔ ∃ player, board.FiveInRow player := by
  constructor
  · intro hdecided
    obtain ⟨player, hcompleted⟩ := hdecided
    exact ⟨player, (h.fiveInRow_iff player (Completed.ne_none hcompleted)).mpr hcompleted⟩
  · intro hdecided
    obtain ⟨player, hfive⟩ := hdecided
    exact ⟨player, (h.fiveInRow_iff player hfive.1).mp hfive⟩

/-- A game is undecided exactly when its board has no five in a row. -/
theorem Represents.undecided_iff (h : board.Represents moves) :
    Undecided moves ↔ ∀ player, ¬ board.FiveInRow player := by
  rw [Undecided, ← not_exists, ← not_exists, h.exists_completed_iff]

/-- Legal moves of an undecided game replay to a board without five in a row. -/
theorem Undecided.replay (h : Undecided moves) (hlegal : Legal moves) (build : Build) :
    ∃ board, Board.replay build moves = .ok board ∧ ∀ player, ¬ board.FiveInRow player :=
  ⟨after moves, (replay_eq_after build hlegal).1, (represents_after hlegal).undecided_iff.mp h⟩

/-- A test for decided games is false exactly for the undecided ones. -/
theorem eq_false_iff_undecided {won : Bool}
    (h : won = true ↔ ∃ player, Completed turn fives moves player) :
    won = false ↔ Undecided moves := by
  rw [← Bool.not_eq_true, h]
  exact not_exists

/-- After a move from an undecided position, `DidWin` decides whether the position is decided
now, with one value for every fuel from 20 on. -/
theorem Represents.didWin (hrep : board.Represents (moves ++ [move]))
    (hlegal : Legal (moves ++ [move])) (hbefore : Undecided moves) (build : Build) :
    ∃ won, (∀ fuel, 20 ≤ fuel → Board.didWin fuel build board move = .ok won) ∧
      (won = true ↔ ∃ player, Completed turn fives (moves ++ [move]) player) := by
  obtain ⟨_, hmove, _⟩ := legal_append_iff.mp hlegal
  have hmover : board.currentPlayer.opponent = turn moves.length := by
    rw [hrep.currentPlayer_eq, List.length_append, List.length_singleton, turn_succ,
      Player.opponent_opponent]
  have howner : board.owner move = board.currentPlayer.opponent := by
    rw [hmover, hrep.owner_iff move _ (turn_ne_none _), owns_append_iff]
    exact Or.inr ⟨rfl, rfl⟩
  apply exists_value_of_decides
  intro fuel hfuel
  obtain ⟨won, hrun, hwon⟩ :=
    didWin_total build hrep.currentPlayer_ne_none hmove howner hfuel
  refine ⟨won, hrun, ?_⟩
  rw [hwon, completed_append_iff hbefore,
    exists_five_through_iff fun p hp => hlegal.inside p hp.mem, hmover]
  simp only [hrep.owner_iff _ _ (turn_ne_none moves.length)]

/-- A move leaves an undecided game undecided exactly when `DidWin` is false after it. -/
theorem undecided_append_iff (hrep : board.Represents (moves ++ [move]))
    (hlegal : Legal (moves ++ [move])) (hbefore : Undecided moves) (build : Build) :
    Undecided (moves ++ [move]) ↔
      Returns (fun fuel => Board.didWin fuel build board move) false := by
  obtain ⟨won, hrun, hwon⟩ := hrep.didWin hlegal hbefore build
  have hreturns : Returns (fun fuel => Board.didWin fuel build board move) won := ⟨20, hrun⟩
  rw [← eq_false_iff_undecided hwon]
  constructor
  · intro hfalse
    rw [hfalse] at hreturns
    exact hreturns
  · intro hfalse
    exact hreturns.unique hfalse

/-- `DidWin` was false after every one of the moves. -/
def NeverWon (build : Build) (moves : List Vector2i) : Prop :=
  ∀ i (h : i < moves.length), ∃ board, replay build (moves.take (i + 1)) = .ok board ∧
    Returns (fun fuel => Board.didWin fuel build board moves[i]) false

theorem neverWon_append_iff {build : Build} :
    NeverWon build (moves ++ [move]) ↔ NeverWon build moves ∧
      ∃ board, replay build (moves ++ [move]) = .ok board ∧
        Returns (fun fuel => Board.didWin fuel build board move) false := by
  constructor
  · intro h
    refine ⟨fun i hi => ?_, ?_⟩
    · obtain ⟨board, hreplay, hreturns⟩ := h i (by simp; omega)
      rw [List.take_append_of_le_length (by omega)] at hreplay
      rw [List.getElem_append_left hi] at hreturns
      exact ⟨board, hreplay, hreturns⟩
    · obtain ⟨board, hreplay, hreturns⟩ := h moves.length (by simp)
      rw [List.take_of_length_le (by simp)] at hreplay
      rw [List.getElem_concat_length rfl] at hreturns
      exact ⟨board, hreplay, hreturns⟩
  · intro h i hi
    obtain ⟨hearlier, board, hreplay, hreturns⟩ := h
    rcases Nat.lt_or_ge i moves.length with hlt | hge
    · obtain ⟨earlier, hreplay', hreturns'⟩ := hearlier i hlt
      refine ⟨earlier, ?_, ?_⟩
      · rw [List.take_append_of_le_length (by omega)]
        exact hreplay'
      · rw [List.getElem_append_left hlt]
        exact hreturns'
    · have heq : i = moves.length := by
        simp only [List.length_append, List.length_singleton] at hi
        omega
      subst heq
      refine ⟨board, ?_, ?_⟩
      · rw [List.take_of_length_le (by simp)]
        exact hreplay
      · rw [List.getElem_concat_length rfl]
        exact hreturns

/-- In a legal game `DidWin` was never true exactly when nobody has five in a row. -/
theorem neverWon_iff (build : Build) (hlegal : Legal moves) :
    NeverWon build moves ↔ Undecided moves := by
  induction moves using List.reverseRecOn with
  | nil =>
      refine ⟨fun _ => undecided_nil, fun _ i hi => ?_⟩
      exact absurd hi (Nat.not_lt_zero i)
  | append_singleton moves move ih =>
      obtain ⟨hearlier, _, _⟩ := legal_append_iff.mp hlegal
      obtain ⟨board, hreplay, hrep, _⟩ := replay_represents build hlegal
      rw [neverWon_append_iff, ih hearlier]
      constructor
      · intro hnever
        obtain ⟨hbefore, other, hreplay', hreturns⟩ := hnever
        obtain rfl : board = other := Except.ok.inj (hreplay.symm.trans hreplay')
        exact (undecided_append_iff hrep hlegal hbefore build).mpr hreturns
      · intro hafter
        have hbefore : Undecided moves := hafter.of_append
        exact ⟨hbefore, board, hreplay,
          (undecided_append_iff hrep hlegal hbefore build).mp hafter⟩

/-! ## The shortest decided games -/

/-- FIRST makes the larger half of the moves. -/
theorem card_turn_le (n : Nat) (player : Player) :
    ((Finset.range n).filter fun i => turn i = player).card ≤ (n + 1) / 2 := by
  have hexact : ((Finset.range n).filter fun i => turn i = .first).card = (n + 1) / 2 ∧
      ((Finset.range n).filter fun i => turn i = .second).card = n / 2 := by
    induction n with
    | zero => simp
    | succ n ih =>
        rw [Finset.range_add_one, Finset.filter_insert, Finset.filter_insert]
        rcases Nat.mod_two_eq_zero_or_one n with h | h
        · have hturn : turn n = .first := by simp [turn, h]
          simp only [hturn, if_true, reduceCtorEq, if_false]
          rw [Finset.card_insert_of_notMem (by simp)]
          omega
        · have hturn : turn n = .second := by simp [turn, h]
          simp only [hturn, if_true, reduceCtorEq, if_false]
          rw [Finset.card_insert_of_notMem (by simp)]
          omega
  cases player with
  | first => omega
  | second => omega
  | none => simp

/-- A window has five different fields. -/
theorem step_mul_injective (start : Vector2i) (line : Line) :
    Function.Injective fun j : Fin 5 => start + ((j : Nat) : Int) * line.step := by
  intro i j h
  have hx := congrArg Vector2i.x h
  have hy := congrArg Vector2i.y h
  simp only [Vector2i.add_x, Vector2i.mul_x, Vector2i.add_y, Vector2i.mul_y] at hx hy
  apply Fin.ext
  cases line <;> simp only [Line.step] at hx hy <;> omega

/-- Five in a row takes at least nine moves. -/
theorem nine_le_length (h : Completed turn fives moves player) : 9 ≤ moves.length := by
  obtain ⟨_, ⟨start, line, rfl, _⟩, hall⟩ := h
  have hcells : ∀ cell ∈ Finset.univ.image fun j : Fin 5 => start + ((j : Nat) : Int) * line.step,
      Owns turn moves player cell := by
    intro cell hcell
    obtain ⟨j, _, rfl⟩ := Finset.mem_image.mp hcell
    exact hall _ ⟨j, j.isLt, rfl⟩
  have hcard := card_le_of_owns hcells
  rw [Finset.card_image_of_injective _ (step_mul_injective start line), Finset.card_univ,
    Fintype.card_fin] at hcard
  have hturns := card_turn_le moves.length player
  omega

/-- Before the ninth move nobody has won. -/
theorem undecided_of_length_lt (h : moves.length < 9) : Undecided moves := by
  intro player hcompleted
  have hnine := nine_le_length hcompleted
  omega

/-! ## The win test and the full scan -/

/-- After the moves of a legal game in which `DidWin` was false after every earlier move, `DidWin`
of the last move terminates, and it is true exactly when the board contains five in a row of
any player, anywhere. -/
theorem didWin_agrees_with_scan (build : Build) (moves : List Vector2i) (last : Vector2i)
    (hinside : ∀ move ∈ moves ++ [last], Inside move) (hdistinct : (moves ++ [last]).Nodup)
    (hearlier : ∀ i (h : i < moves.length), ∃ board,
      replay build (moves.take (i + 1)) = .ok board ∧
        Returns (fun fuel => Board.didWin fuel build board moves[i]) false) :
    ∃ board won, replay build (moves ++ [last]) = .ok board ∧
      Returns (fun fuel => Board.didWin fuel build board last) won ∧
      (won = true ↔ ∃ player, board.FiveInRow player) := by
  have hlegal : Legal (moves ++ [last]) := ⟨hinside, hdistinct⟩
  obtain ⟨hmoves, _, _⟩ := legal_append_iff.mp hlegal
  have hbefore : Undecided moves := (neverWon_iff build hmoves).mp hearlier
  obtain ⟨board, hreplay, hrep, _⟩ := replay_represents build hlegal
  obtain ⟨won, hrun, hwon⟩ := hrep.didWin hlegal hbefore build
  exact ⟨board, won, hreplay, ⟨20, hrun⟩, hwon.trans hrep.exists_completed_iff⟩

/-- The column of the unit test: nine moves, the last of which makes five in a row. -/
theorem didWin_agrees_with_scan_column :
    ∃ board won, replay .debug [⟨0, 0⟩, ⟨1, 0⟩, ⟨0, 1⟩, ⟨1, 1⟩, ⟨0, 2⟩, ⟨1, 2⟩, ⟨0, 3⟩, ⟨1, 3⟩,
        ⟨0, 4⟩] = .ok board ∧
      Returns (fun fuel => Board.didWin fuel .debug board ⟨0, 4⟩) won ∧
      (won = true ↔ ∃ player, board.FiveInRow player) := by
  apply didWin_agrees_with_scan .debug
    [⟨0, 0⟩, ⟨1, 0⟩, ⟨0, 1⟩, ⟨1, 1⟩, ⟨0, 2⟩, ⟨1, 2⟩, ⟨0, 3⟩, ⟨1, 3⟩] ⟨0, 4⟩
  · decide
  · decide
  · exact (neverWon_iff .debug (by decide)).mpr (undecided_of_length_lt (by decide))

/-! ## The win test on any reachable board -/

/-- On every reachable board, `DidWin` of a stone of the player who is not to move terminates, and
it is true exactly when five consecutive fields of a line through that stone are inside the
board and hold stones of that player. There may have been a five before. -/
theorem didWin_exact (build : Build) {board : Board} (hreach : Reachable build board)
    {position : Vector2i} (hposition : Inside position)
    (hstone : stoneAt build board position = .ok board.currentPlayer.opponent) :
    ∃ won, Returns (fun fuel => Board.didWin fuel build board position) won ∧
      (won = true ↔ ∃ line : Line, ∃ k ≤ 4, ∀ j ≤ 4,
        Inside (position + ((j : Nat) - (k : Nat) : Int) * line.step) ∧
          stoneAt build board (position + ((j : Nat) - (k : Nat) : Int) * line.step) =
            .ok board.currentPlayer.opponent) := by
  have hplayer := hreach.valid.currentPlayer_ne_none
  have hopponent : board.currentPlayer.opponent ≠ .none := by simpa using hplayer
  have howner : board.owner position = board.currentPlayer.opponent := by
    rw [stoneAt_of_inside build board hposition] at hstone
    exact Except.ok.inj hstone
  obtain ⟨won, hrun, hwon⟩ := exists_value_of_decides
    fun fuel hfuel => didWin_total build hplayer hposition howner hfuel
  refine ⟨won, ⟨20, hrun⟩, hwon.trans ?_⟩
  -- a position with an owner is a field, where the owner is what `StoneAt` returns
  have hcell : ∀ cell, board.owner cell = board.currentPlayer.opponent ↔
      Inside cell ∧ stoneAt build board cell = .ok board.currentPlayer.opponent := by
    intro cell
    constructor
    · intro h
      have hinside := inside_of_owner hopponent h
      exact ⟨hinside, by rw [stoneAt_of_inside build board hinside, h]⟩
    · intro h
      have hvalue := h.2
      rw [stoneAt_of_inside build board h.1] at hvalue
      exact Except.ok.inj hvalue
  simp only [hcell]

/-- The game of the unit test, continued after its five by a move of each player. -/
def pastFive : List Vector2i :=
  [⟨0, 0⟩, ⟨1, 0⟩, ⟨0, 1⟩, ⟨1, 1⟩, ⟨0, 2⟩, ⟨1, 2⟩, ⟨0, 3⟩, ⟨1, 3⟩, ⟨0, 4⟩, ⟨9, 9⟩, ⟨9, 10⟩]

/-- The middle of an earlier five still wins. -/
theorem didWin_exact_after_five :
    Returns (fun fuel => Board.didWin fuel .debug (after pastFive) ⟨0, 2⟩) true := by
  have hfive : ∀ j : Fin 5, (after pastFive).owner (⟨0, 2⟩ + ((j : Nat) - (2 : Nat) : Int) *
      Line.vertical.step) = (after pastFive).currentPlayer.opponent := by decide +kernel
  have hstone : stoneAt .debug (after pastFive) ⟨0, 2⟩ =
      .ok (after pastFive).currentPlayer.opponent := by
    rw [stoneAt_of_inside .debug _ (by decide)]
    exact congrArg Except.ok (hfive 2)
  obtain ⟨won, hreturns, hwon⟩ :=
    didWin_exact .debug (replay_eq_after .debug (by decide)).2 (by decide) hstone
  have htrue : won = true := by
    refine hwon.mpr ⟨.vertical, 2, by omega, fun j hj => ?_⟩
    have hcell := hfive ⟨j, by omega⟩
    have hinside := inside_of_owner (by decide +kernel) hcell
    exact ⟨hinside, by rw [stoneAt_of_inside .debug _ hinside, hcell]⟩
  rw [htrue] at hreturns
  exact hreturns

end Gomoku.Board
