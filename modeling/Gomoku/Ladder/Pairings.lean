import Gomoku.Ladder.Ladder
import Mathlib.Data.Finset.Prod
import Mathlib.Data.Finset.Card
import Mathlib.Data.Set.Function
import Mathlib.Tactic.Lift

/-!
# Who plays whom

`BasicLadder::PrepareGameRequest` draws an index for the first player and one less for the second,
which skips over the first. `pairing` is the pair of indices for two draws: a bijection from
the possible draws to the ordered pairs of different indices (`pairing_bijOn`), so every such
pair is as likely as every other.
-/

namespace Gomoku.BasicLadder

open Execution Random

/-- The indices of the two players for two draws. -/
def pairing (first second : Int) : Int × Int :=
  (first, if second ≥ first then second + 1 else second)

/-- The numbers from 0 that are below `n`. -/
def below (n : Nat) : Finset Int := (Finset.range n).image fun i : Nat => (i : Int)

/-- The pairs of numbers that the two distributions of a ladder with `n` actors can return. -/
def draws (n : Nat) : Finset (Int × Int) := below n ×ˢ below (n - 1)

/-- The ordered pairs of different indices below `n`. -/
def orderedPairs (n : Nat) : Finset (Int × Int) :=
  (below n ×ˢ below n).filter fun pair => pair.1 ≠ pair.2

theorem mem_below {n : Nat} {i : Int} : i ∈ below n ↔ 0 ≤ i ∧ i < n := by
  rw [below, Finset.mem_image]
  constructor
  · intro h
    obtain ⟨i, hi, rfl⟩ := h
    rw [Finset.mem_range] at hi
    omega
  · intro h
    lift i to Nat using h.1
    exact ⟨i, Finset.mem_range.mpr (by omega), rfl⟩

theorem mem_draws {n : Nat} {draw : Int × Int} :
    draw ∈ draws n ↔ (0 ≤ draw.1 ∧ draw.1 ≤ n - 1) ∧ 0 ≤ draw.2 ∧ draw.2 ≤ n - 2 := by
  rw [draws, Finset.mem_product, mem_below, mem_below]
  omega

theorem mem_orderedPairs {n : Nat} {pair : Int × Int} :
    pair ∈ orderedPairs n ↔ ((0 ≤ pair.1 ∧ pair.1 < n) ∧ 0 ≤ pair.2 ∧ pair.2 < n) ∧ pair.1 ≠ pair.2 := by
  rw [orderedPairs, Finset.mem_filter, Finset.mem_product, mem_below, mem_below]

/-- Two draws give different indices of actors. -/
theorem pairing_mem {n : Nat} {draw : Int × Int} (h : draw ∈ draws n) :
    pairing draw.1 draw.2 ∈ orderedPairs n := by
  rw [mem_draws] at h
  rw [mem_orderedPairs]
  simp only [pairing]
  split <;> omega

/-- Different draws give different pairs. -/
theorem pairing_inj {first second first' second' : Int}
    (h : pairing first second = pairing first' second') :
    first = first' ∧ second = second' := by
  obtain ⟨rfl, hsecond⟩ := Prod.mk.inj h
  refine ⟨rfl, ?_⟩
  split at hsecond <;> split at hsecond <;> omega

/-- Every pair of different indices is the pair for some draws. -/
theorem exists_pairing {n : Nat} {pair : Int × Int} (h : pair ∈ orderedPairs n) :
    ∃ draw ∈ draws n, pairing draw.1 draw.2 = pair := by
  obtain ⟨i, j⟩ := pair
  rw [mem_orderedPairs] at h
  by_cases hlater : i < j
  · refine ⟨(i, j - 1), mem_draws.mpr (by omega), ?_⟩
    simp only [pairing, ge_iff_le, if_pos (show i ≤ j - 1 by omega), Int.sub_add_cancel]
  · refine ⟨(i, j), mem_draws.mpr (by omega), ?_⟩
    simp only [pairing, ge_iff_le, if_neg (show ¬ i ≤ j by omega)]

theorem pairing_bijOn (n : Nat) :
    Set.BijOn (fun draw : Int × Int => pairing draw.1 draw.2) (draws n) (orderedPairs n) := by
  refine ⟨fun draw hdraw => pairing_mem hdraw, fun draw _ draw' _ heq => ?_, fun pair hpair => ?_⟩
  · obtain ⟨hfirst, hsecond⟩ := pairing_inj heq
    exact Prod.ext hfirst hsecond
  · exact exists_pairing hpair

/-! ## The requests of a ladder -/

/-- The indices of the players of the next request. -/
def matchup (ladder : BasicLadder) : Int × Int :=
  pairing (uniformInt 0 (ladder.ladderSpec.actorSpec.length - 1) ladder.rng).1
    (uniformInt 0 (ladder.ladderSpec.actorSpec.length - 2) ladder.rng.tail).1

/-- The ladder when its random device has delivered the numbers for `k` requests. -/
def advance (ladder : BasicLadder) (k : Nat) : BasicLadder :=
  { ladder with rng := ladder.rng.skip (3 * k) }

variable {ladder : BasicLadder}

/-- The two draws are possible draws. -/
theorem draws_mem (hactors : 2 ≤ ladder.ladderSpec.actorSpec.length) :
    ((uniformInt 0 (ladder.ladderSpec.actorSpec.length - 1) ladder.rng).1,
      (uniformInt 0 (ladder.ladderSpec.actorSpec.length - 2) ladder.rng.tail).1) ∈
        draws ladder.ladderSpec.actorSpec.length :=
  mem_draws.mpr ⟨uniformInt_mem (by omega) _, uniformInt_mem (by omega) _⟩

/-- A matchup is a pair of different indices of actors. -/
theorem matchup_mem (ladder : BasicLadder) (hactors : 2 ≤ ladder.ladderSpec.actorSpec.length) :
    ladder.matchup ∈ orderedPairs ladder.ladderSpec.actorSpec.length :=
  pairing_mem (draws_mem hactors)

/-- An index of the actors is the index of one. -/
theorem exists_actor {actors : List ActorSpec} {i : Int} (hlow : 0 ≤ i) (hhigh : i < actors.length) :
    ∃ actor, actors[i.toNat]? = some actor :=
  ⟨_, List.getElem?_eq_getElem (show i.toNat < actors.length by omega)⟩

/-- With two or more actors, a request names the actors of its matchup and takes three numbers from
the random device. -/
theorem prepareGameRequest_eq_ok (hactors : 2 ≤ ladder.ladderSpec.actorSpec.length) :
    ∃ request,
      ladder.prepareGameRequest = .ok (request, { ladder with rng := ladder.rng.skip 3 }) ∧
      ladder.ladderSpec.actorSpec[ladder.matchup.1.toNat]? = some request.firstPlayer ∧
      ladder.ladderSpec.actorSpec[ladder.matchup.2.toNat]? = some request.secondPlayer := by
  obtain ⟨⟨⟨hlow, hhigh⟩, hlow', hhigh'⟩, _⟩ := mem_orderedPairs.mp (ladder.matchup_mem hactors)
  obtain ⟨first, hfirst⟩ := exists_actor hlow hhigh
  obtain ⟨second, hsecond⟩ := exists_actor hlow' hhigh'
  have hfew : ¬ ladder.ladderSpec.actorSpec.length < 2 := by omega
  refine ⟨⟨first, second, ladder.ladderSpec.moveTimeLimitMicros,
    (ladder.rng.draw 2 % 2 ^ 32 : Nat)⟩, ?_, hfirst, hsecond⟩
  unfold prepareGameRequest
  rw [if_neg hfew]
  dsimp only [uniformInt]
  split
  · rename_i first' second' hfirst' hsecond'
    obtain rfl : first' = first := Option.some.inj (hfirst'.symm.trans hfirst)
    obtain rfl : second' = second := Option.some.inj (hsecond'.symm.trans hsecond)
    rfl
  · rename_i hnone
    exact absurd hsecond (hnone first second hfirst)

/-- With two or more actors, the request for two draws names the actors at the indices of their
pairing, and the two distributions can return any draws. The pairing is a bijection from the
draws to the ordered pairs of different indices of actors: indices are in range, nobody plays
against itself, and every ordered pair of different actors has one of the equally likely
draws. -/
theorem prepareGameRequest_fair (ladderSpec : LadderSpec)
    (hactors : 2 ≤ ladderSpec.actorSpec.length) :
    let n := ladderSpec.actorSpec.length
    (∀ ladder : BasicLadder, ladder.ladderSpec = ladderSpec →
      ∃ first second request next,
        (first, second) ∈ draws n ∧
        uniformInt 0 (n - 1) ladder.rng = (first, ladder.rng.tail) ∧
        uniformInt 0 (n - 2) ladder.rng.tail = (second, ladder.rng.tail.tail) ∧
        ladder.prepareGameRequest = .ok (request, next) ∧
        ladderSpec.actorSpec[(pairing first second).1.toNat]? = some request.firstPlayer ∧
        ladderSpec.actorSpec[(pairing first second).2.toNat]? = some request.secondPlayer) ∧
    (∀ draw ∈ draws n, ∃ rng, uniformInt 0 (n - 1) rng = (draw.1, rng.tail) ∧
      uniformInt 0 (n - 2) rng.tail = (draw.2, rng.tail.tail)) ∧
    Set.BijOn (fun draw : Int × Int => pairing draw.1 draw.2) (draws n) (orderedPairs n) ∧
    ∀ pair ∈ orderedPairs n,
      ((draws n).filter fun draw => pairing draw.1 draw.2 = pair).card = 1 := by
  intro n
  refine ⟨fun ladder hspec => ?_, fun draw hdraw => ?_, pairing_bijOn n, fun pair hpair => ?_⟩
  · subst hspec
    obtain ⟨request, hrequest, hfirst, hsecond⟩ := prepareGameRequest_eq_ok hactors
    exact ⟨_, _, request, _, draws_mem hactors, rfl, rfl, hrequest, hfirst, hsecond⟩
  · obtain ⟨first, second⟩ := draw
    obtain ⟨⟨hlow, hhigh⟩, hlow', hhigh'⟩ := mem_draws.mp hdraw
    lift first to Nat using hlow
    lift second to Nat using hlow'
    exact ⟨((⟨fun _ => 0⟩ : Rng).push second).push first, uniformInt_push hhigh _,
      uniformInt_push hhigh' _⟩
  · rw [Finset.card_eq_one]
    obtain ⟨draw, hdraw, hpairing⟩ := exists_pairing hpair
    refine ⟨draw, Finset.eq_singleton_iff_unique_mem.mpr
      ⟨Finset.mem_filter.mpr ⟨hdraw, hpairing⟩, fun other hother => ?_⟩⟩
    obtain ⟨_, hother⟩ := Finset.mem_filter.mp hother
    obtain ⟨hfirst, hsecond⟩ := pairing_inj (hother.trans hpairing.symm)
    exact Prod.ext hfirst hsecond

/-- A ladder with three actors, whose random device delivers zeros. -/
def threeActors : BasicLadder where
  ladderSpec := ⟨"ladder", 100, [⟨"a", "RandomActor", ⟨[]⟩⟩, ⟨"b", "RandomActor", ⟨[]⟩⟩,
    ⟨"c", "RandomActor", ⟨[]⟩⟩]⟩
  rng := ⟨fun _ => 0⟩
  stats := ∅

/-- The last actor against the first one has one of the six draws. -/
theorem prepareGameRequest_fair_three :
    (draws 3).card = 6 ∧
      ((draws 3).filter fun draw => pairing draw.1 draw.2 = (2, 0)).card = 1 :=
  ⟨by decide, (prepareGameRequest_fair threeActors.ladderSpec (by decide)).2.2.2 (2, 0)
    (by decide)⟩

end Gomoku.BasicLadder
