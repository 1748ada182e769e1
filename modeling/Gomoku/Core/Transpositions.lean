import Gomoku.Core.Feature
import Gomoku.Core.Rules
import Mathlib.Algebra.Ring.Parity

/-!
# Boards are determined by their stones

A valid board is determined by the owners of its fields (`Valid.ext`): the bits, the turn and
the counter follow. So two games lead to the same board exactly when both players took the
same fields, in whatever order (`board_eq_iff_transposition`), and taking back every stone of
a list of moves leads back to the board before them, in whatever order the checks of
`RevertMove` admit (`revert_undoes_apply`).
-/

namespace Gomoku.Board

open Execution PositionalGame

variable {build : Build} {board other final : Board} {moves : List Vector2i}
  {position move : Vector2i}

/-! ## Extensionality -/

/-- Every position of the bit set is the bit of a player at a field. -/
theorem exists_slot {i : Nat} (hi : i < kWidth * kHeight * 2) :
    ∃ (position : Vector2i) (player : Player), Inside position ∧ player ≠ .none ∧
      i = slot position + player.offset := by
  simp only [kWidth, kHeight] at hi
  refine ⟨⟨(i / 38 : Nat), (i / 2 % 19 : Nat)⟩, if i % 2 = 0 then .first else .second, ?_, ?_, ?_⟩
  · simp only [Inside]
    omega
  · split <;> simp
  · simp only [slot, Int.toNat_natCast]
    split
    · simp only [Player.offset]
      omega
    · simp only [Player.offset]
      omega

/-- On a valid board the bit of a player at a field says that the player owns the field. -/
theorem Valid.bit_iff (h : board.Valid) (hposition : Inside position) {player : Player}
    (hplayer : player ≠ .none) :
    board.fields.getLsbD (slot position + player.offset) = true ↔
      board.owner position = player := by
  have hexclusive := h.exclusive position hposition
  simp only [owner, hposition, if_true]
  cases player with
  | none => exact absurd rfl hplayer
  | first =>
      simp only [Player.offset, Nat.add_zero]
      cases board.fields.getLsbD (slot position) <;>
        cases board.fields.getLsbD (slot position + 1) <;> simp
  | second =>
      simp only [Player.offset]
      cases hfirst : board.fields.getLsbD (slot position) with
      | true => simp [hexclusive hfirst]
      | false => cases board.fields.getLsbD (slot position + 1) <;> simp

/-- Two valid boards with the same stones are equal. -/
theorem Valid.ext (h : board.Valid) (hother : other.Valid)
    (howner : ∀ position, board.owner position = other.owner position) : board = other := by
  have hfields : board.fields = other.fields := by
    apply BitVec.eq_of_getLsbD_eq
    intro i hi
    obtain ⟨position, player, hposition, hplayer, rfl⟩ := exists_slot hi
    rw [Bool.eq_iff_iff, h.bit_iff hposition hplayer, hother.bit_iff hposition hplayer, howner]
  have hstones : ∀ player, board.stones player = other.stones player := by
    intro player
    simp only [stones, howner]
  have hmoves : board.movesMade = other.movesMade := by
    rw [h.count_stones, hother.count_stones, hstones, hstones]
  have hplayer : board.currentPlayer = other.currentPlayer := by
    have hfirst := hstones .first
    have hsecond := hstones .second
    -- the balance of the stones says whose turn it is
    rcases h.balance with ⟨hp, hb⟩ | ⟨hp, hb⟩ <;>
      rcases hother.balance with ⟨hp', hb'⟩ | ⟨hp', hb'⟩
    · rw [hp, hp']
    · omega
    · omega
    · rw [hp, hp']
  cases board
  cases other
  simp_all

/-! ## Transpositions -/

/-- The fields that the moves with even indices took (`parity` 0), or those with odd indices
(`parity` 1). -/
def playedAt (moves : List Vector2i) (parity : Nat) : Set Vector2i :=
  {position | ∃ i, i % 2 = parity ∧ moves[i]? = some position}

theorem mem_playedAt_iff {parity : Nat} :
    position ∈ playedAt moves parity ↔ ∃ i, (position, i) ∈ moves.zipIdx ∧ i % 2 = parity := by
  constructor
  · intro h
    obtain ⟨i, hparity, hi⟩ := h
    exact ⟨i, List.mk_mem_zipIdx_iff_getElem?.mpr hi, hparity⟩
  · intro h
    obtain ⟨i, hi, hparity⟩ := h
    exact ⟨i, hparity, List.mk_mem_zipIdx_iff_getElem?.mp hi⟩

theorem owns_first_iff : Owns turn moves .first position ↔ position ∈ playedAt moves 0 := by
  constructor
  · intro h
    obtain ⟨i, hi, hturn⟩ := h
    refine ⟨i, ?_, hi⟩
    by_contra hodd
    simp [turn, hodd] at hturn
  · intro h
    obtain ⟨i, heven, hi⟩ := h
    exact ⟨i, hi, if_pos heven⟩

theorem owns_second_iff : Owns turn moves .second position ↔ position ∈ playedAt moves 1 := by
  constructor
  · intro h
    obtain ⟨i, hi, hturn⟩ := h
    refine ⟨i, ?_, hi⟩
    by_contra hodd
    have heven : i % 2 = 0 := by omega
    simp [turn, heven] at hturn
  · intro h
    obtain ⟨i, hodd, hi⟩ := h
    exact ⟨i, hi, if_neg (by omega)⟩

/-- Boards that represent two games have the same stones exactly when the players took the same
fields in both. -/
theorem Represents.owner_eq_iff {moves' : List Vector2i} (h : board.Represents moves)
    (hother : other.Represents moves') :
    (∀ position, board.owner position = other.owner position) ↔
      playedAt moves 0 = playedAt moves' 0 ∧ playedAt moves 1 = playedAt moves' 1 := by
  constructor
  · intro howner
    refine ⟨Set.ext fun position => ?_, Set.ext fun position => ?_⟩
    · rw [← owns_first_iff, ← owns_first_iff, ← h.owner_iff position .first (by simp),
        ← hother.owner_iff position .first (by simp), howner]
    · rw [← owns_second_iff, ← owns_second_iff, ← h.owner_iff position .second (by simp),
        ← hother.owner_iff position .second (by simp), howner]
  · intro hplayed position
    have hfirst : board.owner position = .first ↔ other.owner position = .first := by
      rw [h.owner_iff position .first (by simp), hother.owner_iff position .first (by simp),
        owns_first_iff, owns_first_iff, hplayed.1]
    have hsecond : board.owner position = .second ↔ other.owner position = .second := by
      rw [h.owner_iff position .second (by simp), hother.owner_iff position .second (by simp),
        owns_second_iff, owns_second_iff, hplayed.2]
    cases howner : board.owner position <;> cases hother' : other.owner position <;> simp_all

/-- What `StoneAt` returns on the board after legal moves. -/
theorem Represents.stoneAt_iff (h : board.Represents moves) (build : Build)
    (hposition : Inside position) :
    (stoneAt build board position = .ok .first ↔ position ∈ playedAt moves 0) ∧
      (stoneAt build board position = .ok .second ↔ position ∈ playedAt moves 1) ∧
      (stoneAt build board position = .ok .none ↔ position ∉ moves) := by
  rw [stoneAt_of_inside build board hposition, ← owns_first_iff, ← owns_second_iff,
    ← h.owner_iff position .first (by simp), ← h.owner_iff position .second (by simp),
    ← h.owner_eq_none_iff position]
  simp only [Except.ok.injEq, and_self]

/-- Two games of distinct moves on fields. On the board of either, `StoneAt` is FIRST, SECOND or
NONE as the field was taken by a move with an even index, with an odd index or not at all; and
the boards are equal exactly when the fields of the even indices coincide and the fields of
the odd indices coincide. -/
theorem board_eq_iff_transposition (build : Build) (moves moves' : List Vector2i)
    (hlegal : Legal moves) (hlegal' : Legal moves') :
    ∃ board board', replay build moves = .ok board ∧ replay build moves' = .ok board' ∧
      (∀ position, Inside position →
        (stoneAt build board position = .ok .first ↔ position ∈ playedAt moves 0) ∧
        (stoneAt build board position = .ok .second ↔ position ∈ playedAt moves 1) ∧
        (stoneAt build board position = .ok .none ↔ position ∉ moves)) ∧
      (∀ position, Inside position →
        (stoneAt build board' position = .ok .first ↔ position ∈ playedAt moves' 0) ∧
        (stoneAt build board' position = .ok .second ↔ position ∈ playedAt moves' 1) ∧
        (stoneAt build board' position = .ok .none ↔ position ∉ moves')) ∧
      (board = board' ↔
        playedAt moves 0 = playedAt moves' 0 ∧ playedAt moves 1 = playedAt moves' 1) := by
  obtain ⟨hreplay, hreach⟩ := replay_eq_after build hlegal
  obtain ⟨hreplay', hreach'⟩ := replay_eq_after build hlegal'
  have hrep := represents_after hlegal
  have hrep' := represents_after hlegal'
  refine ⟨_, _, hreplay, hreplay', fun position hposition => hrep.stoneAt_iff build hposition,
    fun position hposition => hrep'.stoneAt_iff build hposition, ?_⟩
  rw [← hrep.owner_eq_iff hrep']
  constructor
  · intro heq position
    rw [heq]
  · intro howner
    exact hreach.valid.ext hreach'.valid howner

/-- Two orders of the same four stones. -/
theorem board_eq_iff_transposition_swapped :
    replay .debug [⟨0, 0⟩, ⟨5, 5⟩, ⟨1, 1⟩, ⟨6, 6⟩] =
      replay .debug [⟨1, 1⟩, ⟨6, 6⟩, ⟨0, 0⟩, ⟨5, 5⟩] := by
  obtain ⟨board, board', hreplay, hreplay', _, _, hiff⟩ := board_eq_iff_transposition .debug
    [⟨0, 0⟩, ⟨5, 5⟩, ⟨1, 1⟩, ⟨6, 6⟩] [⟨1, 1⟩, ⟨6, 6⟩, ⟨0, 0⟩, ⟨5, 5⟩] (by decide) (by decide)
  rw [hreplay, hreplay']
  have hboards : board = board' := by
    rw [hiff]
    refine ⟨Set.ext fun position => ?_, Set.ext fun position => ?_⟩
    · simp [mem_playedAt_iff, List.zipIdx, or_and_right, exists_or, or_comm]
    · simp [mem_playedAt_iff, List.zipIdx, or_and_right, exists_or, or_comm]
  rw [hboards]

/-! ## Taking moves back -/

theorem legal_cons_iff : Legal (move :: moves) ↔ Inside move ∧ move ∉ moves ∧ Legal moves := by
  simp only [legal_iff, List.forall_mem_cons, List.nodup_cons]
  tauto

/-- Legal moves on empty fields of a reachable board pass. They lead to a reachable board on which
every one of them has the owner it had when it was made, and no other field has changed. -/
theorem applyMoves_total (hreach : Reachable build board) (hlegal : Legal moves)
    (hempty : ∀ move ∈ moves, board.owner move = .none) :
    ∃ applied, moves.foldlM (applyMove build) board = .ok applied ∧ Reachable build applied ∧
      applied.currentPlayer = Player.opponent^[moves.length] board.currentPlayer ∧
      (∀ i (h : i < moves.length),
        applied.owner moves[i] = Player.opponent^[i] board.currentPlayer) ∧
      ∀ position, position ∉ moves → applied.owner position = board.owner position := by
  induction moves generalizing board with
  | nil => exact ⟨board, rfl, hreach, rfl, fun _ h => absurd h (Nat.not_lt_zero _), fun _ _ => rfl⟩
  | cons move moves ih =>
      obtain ⟨hmove, hnew, hrest⟩ := legal_cons_iff.mp hlegal
      have hfree := hempty move (by simp)
      have hplayer := hreach.valid.currentPlayer_ne_none
      have howner := owner_place hmove hfree hplayer
      obtain ⟨applied, hrun, hreach', hcurrent, howners, hkeep⟩ :=
        ih (hreach.place hmove hfree) hrest (by
          intro later hlater
          have hne : later ≠ move := fun heq => hnew (heq ▸ hlater)
          rw [howner, if_neg hne]
          exact hempty later (by simp [hlater]))
      refine ⟨applied, ?_, hreach', ?_, fun i hi => ?_, fun position hposition => ?_⟩
      · rw [List.foldlM_cons, applyMove_of_empty build hmove hfree hplayer, ok_bind, hrun]
      · rw [hcurrent, place_currentPlayer, List.length_cons, Function.iterate_succ_apply]
      · cases i with
        | zero =>
            rw [List.getElem_cons_zero, hkeep move hnew, howner, if_pos rfl]
            rfl
        | succ i =>
            rw [List.getElem_cons_succ, howners i (by simpa using hi), place_currentPlayer,
              Function.iterate_succ_apply]
      · rw [List.mem_cons, not_or] at hposition
        rw [hkeep position hposition.2, howner, if_neg hposition.1]

/-- `RevertMove` passes on a reachable board exactly when the stone belongs to the player who moved
last. -/
theorem Reachable.revertMove_eq_ok (hreach : Reachable build board) (hmove : Inside move) :
    revertMove build board move = .ok other ↔
      board.owner move = board.currentPlayer.opponent ∧ other = board.remove move := by
  have hplayer := hreach.valid.currentPlayer_ne_none
  have hopponent : board.currentPlayer.opponent ≠ .none := by simpa using hplayer
  rw [Board.revertMove_eq_ok hmove, hreach.valid.bit_iff hmove hopponent]
  exact and_iff_right hplayer

/-- A list of reverts passes exactly when each of its stones belongs to the player who has moved
last by then. -/
theorem revertMoves_pass_iff (hreach : Reachable build board) (hlegal : Legal moves) :
    (∃ final, moves.foldlM (revertMove build) board = .ok final) ↔
      ∀ i (h : i < moves.length),
        board.owner moves[i] = Player.opponent^[i + 1] board.currentPlayer := by
  induction moves generalizing board with
  | nil => simp
  | cons move moves ih =>
      obtain ⟨hmove, hnew, hrest⟩ := legal_cons_iff.mp hlegal
      by_cases hfirst : board.owner move = board.currentPlayer.opponent
      · have hrevert : revertMove build board move = .ok (board.remove move) :=
          (hreach.revertMove_eq_ok hmove).mpr ⟨hfirst, rfl⟩
        have hplayer := hreach.valid.currentPlayer_ne_none
        have hopponent : board.currentPlayer.opponent ≠ .none := by simpa using hplayer
        have hbit := (hreach.valid.bit_iff hmove hopponent).mpr hfirst
        have hlater := ih (hreach.remove hmove hbit) hrest
        rw [List.foldlM_cons, hrevert, ok_bind, hlater, remove_currentPlayer]
        -- the stones of the later reverts are still there, and the turn has gone back once
        have howner : ∀ later ∈ moves, (board.remove move).owner later = board.owner later := by
          intro later hm
          have hne : later ≠ move := fun heq => hnew (heq ▸ hm)
          rw [owner_remove hreach.valid hmove hbit, if_neg hne]
        constructor
        · intro hall i hi
          cases i with
          | zero => exact hfirst
          | succ i =>
              have hi' : i < moves.length := by simpa using hi
              have hstone := hall i hi'
              rw [howner _ (List.getElem_mem hi'), ← Function.iterate_succ_apply] at hstone
              exact hstone
        · intro hall i hi
          have hstone := hall (i + 1) (by simpa using hi)
          rw [List.getElem_cons_succ, Function.iterate_succ_apply] at hstone
          rw [howner _ (List.getElem_mem hi)]
          exact hstone
      · constructor
        · intro hpass
          obtain ⟨final, hrun⟩ := hpass
          obtain ⟨next, hrevert, _⟩ := bind_eq_ok.mp hrun
          exact absurd ((hreach.revertMove_eq_ok hmove).mp hrevert).1 hfirst
        · intro hall
          exact absurd (hall 0 (by simp)) hfirst

/-- Reverts that pass lead to a reachable board on which their fields are empty and no other field
has changed. -/
theorem revertMoves_spec (hreach : Reachable build board) (hlegal : Legal moves)
    (hrun : moves.foldlM (revertMove build) board = .ok final) :
    Reachable build final ∧ ∀ position,
      final.owner position = if position ∈ moves then .none else board.owner position := by
  induction moves generalizing board with
  | nil =>
      obtain rfl : board = final := Except.ok.inj hrun
      exact ⟨hreach, by simp⟩
  | cons move moves ih =>
      obtain ⟨hmove, hnew, hrest⟩ := legal_cons_iff.mp hlegal
      obtain ⟨next, hrevert, hrun⟩ := bind_eq_ok.mp hrun
      obtain ⟨hplayer, hbit, rfl⟩ := (Board.revertMove_eq_ok hmove).mp hrevert
      obtain ⟨hreach', howner⟩ := ih (hreach.remove hmove hbit) hrest hrun
      refine ⟨hreach', fun position => ?_⟩
      rw [howner, owner_remove hreach.valid hmove hbit]
      by_cases hlater : position ∈ moves
      · simp [hlater]
      · by_cases hsame : position = move <;> simp [hlater, hsame]

/-- The player who made a move, counted from its two ends: going back `i + 1` turns after `n` moves
is going forward `n - 1 - i` turns. -/
theorem opponent_iterate_back (player : Player) {n i : Nat} (hi : i < n) :
    Player.opponent^[i + 1] (Player.opponent^[n] player) =
      Player.opponent^[n - 1 - i] player := by
  have hinvolutive : Function.Involutive Player.opponent := Player.opponent_opponent
  rw [← Function.iterate_add_apply, show i + 1 + n = n - 1 - i + 2 * (i + 1) by omega,
    Function.iterate_add_apply, hinvolutive.iterate_two_mul, id]

/-- Moves that are taken back leave the board before them, if they were made on empty fields and
nothing else has changed. -/
theorem eq_of_reverted {applied : Board} (hreach : Reachable build board)
    (happlied : Reachable build applied) (hlegal : Legal moves)
    (hfree : ∀ move ∈ moves, board.owner move = .none)
    (hkeep : ∀ position, position ∉ moves → applied.owner position = board.owner position)
    (hrevert : moves.foldlM (revertMove build) applied = .ok final) : final = board := by
  obtain ⟨hfinal, howner⟩ := revertMoves_spec happlied hlegal hrevert
  apply hfinal.valid.ext hreach.valid
  intro position
  rw [howner]
  by_cases hmem : position ∈ moves
  · rw [if_pos hmem, hfree position hmem]
  · rw [if_neg hmem, hkeep position hmem]

/-- Moves applied to empty fields of a reachable board are taken back by any order of the same
moves in which every stone belongs to the player who made the move at the mirrored index, and
by no other order; the board is then the one before the moves. The reversed order is one. -/
theorem revert_undoes_apply (build : Build) (board : Board) (hreach : Reachable build board)
    (moves order : List Vector2i) (hinside : ∀ move ∈ moves, Inside move)
    (hdistinct : moves.Nodup)
    (hempty : ∀ move ∈ moves, stoneAt build board move = .ok .none)
    (hperm : order.Perm moves) :
    ∃ applied, moves.foldlM (applyMove build) board = .ok applied ∧
      ((∃ final, order.foldlM (revertMove build) applied = .ok final) ↔
        ∀ i (h : i < order.length), ∃ earlier,
          (moves.take (moves.length - 1 - i)).foldlM (applyMove build) board = .ok earlier ∧
            stoneAt build applied order[i] = .ok earlier.currentPlayer) ∧
      (∀ final, order.foldlM (revertMove build) applied = .ok final → final = board) ∧
      moves.reverse.foldlM (revertMove build) applied = .ok board := by
  have hlegal : Legal moves := ⟨hinside, hdistinct⟩
  have hfree : ∀ move ∈ moves, board.owner move = .none := by
    intro move hm
    have hstone := hempty move hm
    rw [stoneAt_of_inside build board (hinside move hm)] at hstone
    exact Except.ok.inj hstone
  obtain ⟨applied, hrun, hreach', hcurrent, howners, hkeep⟩ :=
    applyMoves_total hreach hlegal hfree
  have hlegalOf : ∀ {list : List Vector2i}, list.Perm moves → Legal list := by
    intro list hlist
    exact ⟨fun move hm => hinside move (hlist.mem_iff.mp hm), hlist.nodup_iff.mpr hdistinct⟩
  have hundone : ∀ (list : List Vector2i) final, list.Perm moves →
      list.foldlM (revertMove build) applied = .ok final → final = board := by
    intro list final hlist
    exact eq_of_reverted hreach hreach' (hlegalOf hlist)
      (fun move hm => hfree move (hlist.mem_iff.mp hm))
      (fun position hm => hkeep position fun h => hm (hlist.mem_iff.mpr h))
  refine ⟨applied, hrun, ?_, fun final => hundone order final hperm, ?_⟩
  · rw [revertMoves_pass_iff hreach' (hlegalOf hperm)]
    apply forall₂_congr
    intro i hi
    have hlt : i < moves.length := by
      rw [← hperm.length_eq]
      exact hi
    obtain ⟨earlier, hearlier, _, hturn, _⟩ := applyMoves_total hreach
      (hlegal.take (moves.length - 1 - i)) fun move hm => hfree move (List.mem_of_mem_take hm)
    rw [List.length_take_of_le (by omega)] at hturn
    have hstone := stoneAt_of_inside build applied
      (hinside order[i] (hperm.mem_iff.mp (List.getElem_mem hi)))
    simp only [hearlier, Except.ok.injEq, exists_eq_left', hstone]
    rw [hcurrent, opponent_iterate_back _ hlt, hturn]
  · -- the reversed list takes back every stone when its player has moved last
    have hpass := (revertMoves_pass_iff hreach' (hlegalOf moves.reverse_perm)).mpr (by
      intro i hi
      rw [List.length_reverse] at hi
      rw [List.getElem_reverse, howners, hcurrent, opponent_iterate_back _ hi])
    obtain ⟨final, hrevert⟩ := hpass
    rw [hrevert, hundone _ final moves.reverse_perm hrevert]

/-- Three moves on different fields. -/
def threeMoves : List Vector2i := [⟨0, 0⟩, ⟨1, 1⟩, ⟨2, 2⟩]

/-- Three moves are taken back in the order in which they were made: the first and the last stone
are of the same player. -/
theorem revert_undoes_apply_in_order :
    threeMoves.foldlM (applyMove .debug) new = .ok (after threeMoves) ∧
      threeMoves.foldlM (revertMove .debug) (after threeMoves) = .ok new := by
  have hlegal : Legal threeMoves := by decide
  have hempty : ∀ move ∈ threeMoves, stoneAt .debug new move = .ok .none := by
    intro move hm
    rw [stoneAt_of_inside .debug new (hlegal.inside move hm),
      (Represents.new.owner_eq_none_iff move).mpr (by simp)]
  obtain ⟨applied, hrun, hiff, hundone, _⟩ := revert_undoes_apply .debug new
    Relation.ReflTransGen.refl threeMoves threeMoves hlegal.inside hlegal.nodup hempty
    (List.Perm.refl _)
  obtain rfl := eq_after_of_replay hlegal hrun
  refine ⟨hrun, ?_⟩
  obtain ⟨final, hrevert⟩ := hiff.mpr (by
    intro i hi
    refine ⟨after (threeMoves.take (2 - i)), (replay_eq_after .debug (hlegal.take _)).1, ?_⟩
    rw [stoneAt_of_inside .debug _ (hlegal.inside _ (List.getElem_mem hi))]
    have howner : ∀ i : Fin 3, (after threeMoves).owner threeMoves[i] =
        (after (threeMoves.take (2 - i))).currentPlayer := by decide +kernel
    exact congrArg Except.ok (howner ⟨i, hi⟩))
  rw [hrevert, hundone final hrevert]

/-! ## Network inputs -/

/-- The player to move has as many stones as the opponent or one less, and this says who it is. -/
theorem Valid.currentPlayer_eq (h : board.Valid) (hother : other.Valid)
    (hme : board.stones board.currentPlayer = other.stones other.currentPlayer)
    (hopp : board.stones board.currentPlayer.opponent =
      other.stones other.currentPlayer.opponent) :
    board.currentPlayer = other.currentPlayer := by
  rcases h.balance with ⟨hp, hb⟩ | ⟨hp, hb⟩ <;>
    rcases hother.balance with ⟨hp', hb'⟩ | ⟨hp', hb'⟩ <;>
    simp only [hp, hp', Player.opponent] at hme hopp ⊢ <;> omega

/-- A stone of the player to move, no stone, or else a stone of the opponent. -/
theorem owner_eq_of_iff {player : Player} (hplayer : player ≠ .none)
    (hmine : board.owner position = player ↔ other.owner position = player)
    (hempty : board.owner position = .none ↔ other.owner position = .none) :
    board.owner position = other.owner position := by
  cases player with
  | none => exact absurd rfl hplayer
  | first =>
      cases howner : board.owner position <;> cases howner' : other.owner position <;> simp_all
  | second =>
      cases howner : board.owner position <;> cases howner' : other.owner position <;> simp_all

section Features

variable {R : Type} [Zero R] [One R] [NeZero (1 : R)]

/-- Where two features agree, two players own the same fields of two boards. -/
theorem owner_iff_of_stoneMatrix_eq {player player' : Player}
    (h : stoneMatrix (R := R) build board player = stoneMatrix build other player')
    (field : Field) :
    board.owner field.position = player ↔ other.owner field.position = player' := by
  rw [stoneMatrix_eq, stoneMatrix_eq] at h
  have hentry : (if board.owner field.position = player then (1 : R) else 0) =
      if other.owner field.position = player' then 1 else 0 := congrFun (Except.ok.inj h) field
  by_cases hleft : board.owner field.position = player <;>
    by_cases hright : other.owner field.position = player' <;> simp_all

/-- Where two features agree, two players have as many stones on two boards. -/
theorem stones_eq_of_stoneMatrix_eq {player player' : Player}
    (h : stoneMatrix (R := R) build board player = stoneMatrix build other player') :
    board.stones player = other.stones player' := by
  unfold stones
  simp only [owner_iff_of_stoneMatrix_eq h]

/-- Two boards reached by any calls that pass their checks are equal if all features of
`DefaultFeatures` coincide on them: the features show the stones only as those of the player
to move and those of the opponent, and their numbers tell which colour is to move. -/
theorem features_determine_board (build : Build) {board other : Board}
    (hreach : Relation.ReflTransGen (Call build) new board)
    (hreach' : Relation.ReflTransGen (Call build) new other)
    (hcoincide : ∀ feature ∈ (defaultFeatures R build).toList, feature.2 board = feature.2 other) :
    board = other := by
  have hvalid := (reachable_iff_calls.mpr hreach).valid
  have hvalid' := (reachable_iff_calls.mpr hreach').valid
  rw [defaultFeatures_toList] at hcoincide
  simp only [List.forall_mem_cons, kOpponent_get hvalid.currentPlayer_ne_none,
    kOpponent_get hvalid'.currentPlayer_ne_none, ok_bind] at hcoincide
  obtain ⟨hme, hnone, hopp, _⟩ := hcoincide
  have hplayer := hvalid.currentPlayer_eq hvalid' (stones_eq_of_stoneMatrix_eq hme)
    (stones_eq_of_stoneMatrix_eq hopp)
  apply hvalid.ext hvalid'
  intro position
  by_cases hposition : Inside position
  · obtain ⟨field, rfl⟩ := Field.exists_position hposition
    have hmine := owner_iff_of_stoneMatrix_eq hme field
    have hempty := owner_iff_of_stoneMatrix_eq hnone field
    rw [hplayer] at hmine
    exact owner_eq_of_iff hvalid'.currentPlayer_ne_none hmine hempty
  · rw [owner_of_not_inside hposition, owner_of_not_inside hposition]

/-- The same stones, with the moves of FIRST made in either order. -/
theorem features_determine_board_swapped :
    after [⟨0, 0⟩, ⟨5, 5⟩, ⟨1, 1⟩] = after [⟨1, 1⟩, ⟨5, 5⟩, ⟨0, 0⟩] := by
  have hlegal : Legal [⟨0, 0⟩, ⟨5, 5⟩, ⟨1, 1⟩] := by decide
  have hlegal' : Legal [⟨1, 1⟩, ⟨5, 5⟩, ⟨0, 0⟩] := by decide
  apply features_determine_board (R := Rat) .debug
    (reachable_iff_calls.mp (replay_eq_after .debug hlegal).2)
    (reachable_iff_calls.mp (replay_eq_after .debug hlegal').2)
  have hrep := represents_after hlegal
  have hrep' := represents_after hlegal'
  have howner : ∀ position, (after [⟨0, 0⟩, ⟨5, 5⟩, ⟨1, 1⟩]).owner position =
      (after [⟨1, 1⟩, ⟨5, 5⟩, ⟨0, 0⟩]).owner position := by
    rw [hrep.owner_eq_iff hrep']
    refine ⟨Set.ext fun position => ?_, Set.ext fun position => ?_⟩
    · simp [mem_playedAt_iff, List.zipIdx, or_and_right, exists_or, or_comm]
    · simp [mem_playedAt_iff, List.zipIdx, or_and_right, exists_or]
  have hturn : (after [⟨0, 0⟩, ⟨5, 5⟩, ⟨1, 1⟩]).currentPlayer =
      (after [⟨1, 1⟩, ⟨5, 5⟩, ⟨0, 0⟩]).currentPlayer := by
    rw [hrep.currentPlayer_eq, hrep'.currentPlayer_eq]
    rfl
  rw [defaultFeatures_toList]
  simp only [List.forall_mem_cons, stoneMatrix_eq, howner, hturn, List.not_mem_nil,
    false_implies, implies_true, and_self]

end Features

end Gomoku.Board
