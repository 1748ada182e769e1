import Gomoku.Core.DidWin
import Gomoku.Core.Feature

/-!
# Games that fill the board without five in a row

Any colouring of the fields with the right number of fields for each player can be played
out: FIRST takes the fields of its colour in some order and SECOND the others. If no window
of five fields has one colour only, the game is drawn (`undecided_colouring`). Stripes of
width two that move on by two from row to row are such a colouring, so drawn games exist.
-/

namespace Gomoku.Board

open Execution PositionalGame

/-- The fields of the board with a colour. -/
def coloured (colour : Vector2i → Bool) : List Vector2i :=
  (allFields.map Field.position).filter colour

/-- The game in which FIRST takes the fields with the colour and SECOND the others. -/
def colouring (colour : Vector2i → Bool) : List Vector2i :=
  interleave (coloured colour) (coloured fun position => !colour position)

theorem colouring_perm (colour : Vector2i → Bool) :
    (colouring colour).Perm (allFields.map Field.position) :=
  (interleave_perm _ _).trans (List.filter_append_perm _ _)

theorem mem_colouring_iff (colour : Vector2i → Bool) {position : Vector2i} :
    position ∈ colouring colour ↔ Inside position := by
  rw [(colouring_perm colour).mem_iff, List.mem_map]
  constructor
  · intro h
    obtain ⟨field, _, rfl⟩ := h
    exact field.inside_position
  · intro h
    obtain ⟨field, rfl⟩ := Field.exists_position h
    exact ⟨field, mem_allFields field, rfl⟩

/-- Every colouring is a legal game. -/
theorem legal_colouring (colour : Vector2i → Bool) : Legal (colouring colour) where
  inside := fun _ hm => (mem_colouring_iff colour).mp hm
  nodup := (colouring_perm colour).nodup_iff.mpr
    (nodup_allFields.map Field.position_injective)

theorem length_colouring (colour : Vector2i → Bool) : (colouring colour).length = 361 := by
  rw [(colouring_perm colour).length_eq, List.length_map]
  decide +kernel

/-- In a colouring with 181 fields for FIRST every player has the fields of its colour. -/
theorem owner_colouring {colour : Vector2i → Bool} (hbalance : (coloured colour).length = 181)
    {position : Vector2i} (hposition : Inside position) :
    (after (colouring colour)).owner position = if colour position then .first else .second := by
  have hlength := length_colouring colour
  rw [colouring, (interleave_perm _ _).length_eq, List.length_append, hbalance] at hlength
  have hrep := represents_after (legal_colouring colour)
  have hother : ∀ player, player ≠ .none →
      (after (colouring colour)).owner position = player →
        player = if colour position then .first else .second := by
    intro player hplayer howner
    obtain ⟨i, hi, hcolour⟩ := ((hrep.owner_iff position player hplayer).mp howner).of_interleave
      (by omega) (by omega)
    rw [← hi, turn]
    rcases hcolour with ⟨heven, hmem⟩ | ⟨hodd, hmem⟩
    · rw [if_pos heven, if_pos (List.mem_filter.mp hmem).2]
    · have hnot : (!colour position) = true := (List.mem_filter.mp hmem).2
      rw [Bool.not_eq_true'] at hnot
      rw [if_neg (by omega), hnot]
      rfl
  refine hother _ ?_ rfl
  rw [Ne, hrep.owner_eq_none_iff, not_not]
  exact (mem_colouring_iff colour).mpr hposition

/-- Every window of five fields has fields of both colours. -/
def Mixed (colour : Vector2i → Bool) : Prop :=
  ∀ start line, ∃ p ∈ window start line, ∃ q ∈ window start line,
    colour p = true ∧ colour q = false

/-- A colouring with 181 fields for FIRST and without a window of one colour is a drawn game. -/
theorem undecided_colouring {colour : Vector2i → Bool} (hmixed : Mixed colour)
    (hbalance : (coloured colour).length = 181) : Undecided (colouring colour) := by
  have hrep := represents_after (legal_colouring colour)
  intro player hcompleted
  have hplayer := Completed.ne_none hcompleted
  obtain ⟨_, ⟨start, line, rfl, hinside⟩, howns⟩ := hcompleted
  have hcolour : ∀ p ∈ window start line, player = if colour p then .first else .second := by
    intro p hp
    rw [← owner_colouring hbalance (hinside p hp)]
    exact ((hrep.owner_iff p player hplayer).mpr (howns p hp)).symm
  obtain ⟨p, hp, q, hq, hfirst, hsecond⟩ := hmixed start line
  have hsame := hcolour q hq
  rw [hcolour p hp, if_pos hfirst, hsecond] at hsame
  cases hsame

/-- Stripes of width two. -/
def stripes (position : Vector2i) : Bool := decide ((position.x + 2 * position.y) % 4 < 2)

/-- Half a period further on the colour is the other one. -/
theorem stripes_eq_not {p q : Vector2i}
    (h : (p.x + 2 * p.y) % 4 = (q.x + 2 * q.y + 2) % 4) : stripes p = !stripes q := by
  unfold stripes
  rw [← decide_not, decide_eq_decide]
  omega

/-- In every direction the stripes change within three fields. -/
theorem mixed_stripes : Mixed stripes := by
  intro start line
  have hchange : ∃ j : Nat, j < 5 ∧
      stripes (start + (j : Int) * line.step) = !stripes start := by
    cases line with
    | horizontal =>
        refine ⟨2, by omega, stripes_eq_not ?_⟩
        simp only [Line.step, Vector2i.add_x, Vector2i.add_y, Vector2i.mul_x, Vector2i.mul_y]
        omega
    | vertical =>
        refine ⟨1, by omega, stripes_eq_not ?_⟩
        simp only [Line.step, Vector2i.add_x, Vector2i.add_y, Vector2i.mul_x, Vector2i.mul_y]
        omega
    | diagonal =>
        refine ⟨2, by omega, stripes_eq_not ?_⟩
        simp only [Line.step, Vector2i.add_x, Vector2i.add_y, Vector2i.mul_x, Vector2i.mul_y]
        omega
    | antidiagonal =>
        refine ⟨2, by omega, stripes_eq_not ?_⟩
        simp only [Line.step, Vector2i.add_x, Vector2i.add_y, Vector2i.mul_x, Vector2i.mul_y]
        omega
  obtain ⟨j, hj, hcolour⟩ := hchange
  have hstart : start ∈ window start line := ⟨0, by omega, by apply Vector2i.ext <;> simp⟩
  have hother : start + (j : Int) * line.step ∈ window start line := ⟨j, hj, rfl⟩
  cases hfirst : stripes start with
  | true => exact ⟨_, hstart, _, hother, hfirst, by rw [hcolour, hfirst]; rfl⟩
  | false => exact ⟨_, hother, _, hstart, by rw [hcolour, hfirst]; rfl, hfirst⟩

/-- The game of the stripes. -/
def drawnGame : List Vector2i := colouring stripes

/-- The game of the stripes is drawn. -/
theorem undecided_drawnGame : Undecided drawnGame :=
  undecided_colouring mixed_stripes (by decide +kernel)

end Gomoku.Board
