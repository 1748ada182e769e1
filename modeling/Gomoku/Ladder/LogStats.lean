import Gomoku.Ladder.Pairings
import Gomoku.Ladder.Statistics
import Gomoku.Ladder.SupervisorRuns

/-!
# Printing the statistics

`BasicLadder::LogStats` asserts that every actor of the specification has an entry, but only
completed games make entries. In a run of `Supervisor::Play` on a `BasicLadder` the request of
a call is determined by its tag and the random device (`Drawn`), and a run that returns has
completed exactly the calls with the first `num_games` tags, in some order. So whether the
assertion holds after a run depends on the draws alone (`logStats_passes_iff`).
-/

namespace Gomoku

open Execution Random

/-- `LogStats` returns exactly when every actor of the specification has an entry. -/
theorem BasicLadder.logStats_returns_iff (printFloat : Rat → String) (ladder : BasicLadder) :
    (∃ lines, ladder.logStats printFloat = .ok lines) ↔
      ∀ actor ∈ ladder.ladderSpec.actorSpec, actor.name ∈ ladder.stats.keys := by
  unfold BasicLadder.logStats
  apply foldlM_returns_iff
  intro lines actor
  rw [Finmap.mem_keys, ← Finmap.lookup_isSome]
  cases ladder.stats.lookup actor.name with
  | none => simp [check]
  | some stats => simp

namespace Supervisor

variable {config : Config} {ladder : BasicLadder} {state next : State basicLadder}

/-- The ladder of a state. -/
def ladderOf (state : State basicLadder) : BasicLadder := state.ladder

/-- A request names the actors at the indices that are drawn for the `k`-th request. -/
def NamesMatchup (ladder : BasicLadder) (k : Nat) (request : PlayGameRequest) : Prop :=
  ladder.ladderSpec.actorSpec[(ladder.advance k).matchup.1.toNat]? = some request.firstPlayer ∧
    ladder.ladderSpec.actorSpec[(ladder.advance k).matchup.2.toNat]? = some request.secondPlayer

/-- In a run from a ladder, every call has the request that is drawn for its tag, and the
statistics are those of the games reported so far. -/
structure Drawn (ladder : BasicLadder) (state : State basicLadder) : Prop where
  spec_eq : (ladderOf state).ladderSpec = ladder.ladderSpec
  rng_eq : (ladderOf state).rng = ladder.rng.skip (3 * state.allocated)
  stats_eq : (ladderOf state).stats = (ladder.afterGames state.reported).stats
  request : ∀ call ∈ state.delivered.map Prod.fst ++ state.inFlight,
    NamesMatchup ladder call.tag call.request

namespace Drawn

theorem initial (ladder : BasicLadder) : Drawn ladder (initial (L := basicLadder) ladder) where
  spec_eq := rfl
  rng_eq := rfl
  stats_eq := rfl
  request := by
    intro call hcall
    cases hcall

theorem withControl (h : Drawn ladder state) (control : Control) :
    Drawn ladder { state with control } :=
  ⟨h.spec_eq, h.rng_eq, h.stats_eq, h.request⟩

/-- A new call has the request that is drawn for the next tag. -/
theorem startGame (hactors : 2 ≤ ladder.ladderSpec.actorSpec.length) (h : Drawn ladder state)
    {worker : Nat} (hstart : startGame worker state = .ok next) : Drawn ladder next := by
  obtain ⟨request, ladder', hprepare, rfl⟩ := startGame_eq_ok hstart
  have hactors' : 2 ≤ (ladderOf state).ladderSpec.actorSpec.length := by rwa [h.spec_eq]
  obtain ⟨request', hprepare', hfirst, hsecond⟩ :=
    BasicLadder.prepareGameRequest_eq_ok hactors'
  obtain ⟨rfl, rfl⟩ := Prod.mk.inj (Except.ok.inj (hprepare.symm.trans hprepare'))
  have hmatchup : (ladderOf state).matchup = (ladder.advance state.allocated).matchup := by
    unfold BasicLadder.matchup
    rw [h.spec_eq, h.rng_eq]
    rfl
  rw [h.spec_eq, hmatchup] at hfirst hsecond
  refine ⟨h.spec_eq, ?_, h.stats_eq, fun call hcall => ?_⟩
  · show (ladderOf state).rng.skip 3 = ladder.rng.skip (3 * (state.allocated + 1))
    rw [h.rng_eq, Rng.skip_skip]
    rfl
  · rw [← List.append_assoc, List.mem_append, List.mem_singleton] at hcall
    rcases hcall with hold | rfl
    · exact h.request call hold
    · exact ⟨hfirst, hsecond⟩

section Deliver

variable {before after : List PlayGameCall} {call : PlayGameCall}

/-- A delivered call keeps its request. -/
theorem delivered (h : Drawn ladder state) (hsplit : state.inFlight = before ++ call :: after)
    (status : Status) : Drawn ladder (deliver call status (before ++ after) state) := by
  refine ⟨h.spec_eq, h.rng_eq, h.stats_eq, fun other hother => h.request other ?_⟩
  rw [hsplit]
  simp only [deliver, List.map_append, List.map_cons, List.map_nil, List.mem_append,
    List.mem_cons, List.not_mem_nil, or_false] at hother ⊢
  tauto

/-- A reported game changes the statistics as `GameCompleted` does. -/
theorem recorded (h : Drawn ladder state) (response : PlayGameResponse) :
    Drawn ladder (record call response state) := by
  refine ⟨h.spec_eq, h.rng_eq, ?_, h.request⟩
  show ((ladderOf state).gameCompleted call.request response).stats =
    (ladder.afterGames (state.reported ++ [(call.request, response)])).stats
  rw [BasicLadder.afterGames_append, BasicLadder.gameCompleted_stats, h.stats_eq,
    ← BasicLadder.gameCompleted_stats]
  rfl

end Deliver

/-- Every step keeps the requests and the statistics as they were drawn and reported. -/
theorem step (hactors : 2 ≤ ladder.ladderSpec.actorSpec.length) (h : Drawn ladder state)
    (hstep : Step config state next) : Drawn ladder next := by
  cases hstep with
  | start worker i started _ _ _ _ hstart => exact (h.startGame hactors hstart).withControl _
  | nextWorker => exact h.withControl _
  | enterLoop => exact h.withControl _
  | deliver before call after status _ _ _ hsplit hhandle =>
      have hdelivered := h.delivered hsplit status
      obtain ⟨message, rfl, rfl⟩ | ⟨response, rfl, ⟨_, hstart⟩ | ⟨_, rfl⟩⟩ :=
        handle_cases hhandle
      · exact hdelivered
      · exact (hdelivered.recorded response).startGame hactors hstart
      · exact hdelivered.recorded response
  | exit => exact h.withControl _

end Drawn

theorem Reachable.drawn (hactors : 2 ≤ ladder.ladderSpec.actorSpec.length)
    (h : Reachable (L := basicLadder) config ladder state) : Drawn ladder state := by
  induction h with
  | refl => exact Drawn.initial ladder
  | tail _ hstep ih => exact ih.step hactors hstep

/-! ## After the run -/

/-- When `Play` has returned, a request was reported for every drawn matchup and for no other. -/
theorem reported_iff_of_returned (hactors : 2 ≤ ladder.ladderSpec.actorSpec.length)
    (hnum : 0 ≤ config.numGames) (hreach : Reachable (L := basicLadder) config ladder state)
    (hreturned : state.control = .returned) (k : Nat) :
    (k : Int) < config.numGames ↔
      ∃ entry ∈ state.delivered, entry.1.tag = k ∧ NamesMatchup ladder k entry.1.request ∧
        ∃ response, (entry.1.request, response) ∈ state.reported := by
  obtain ⟨hstarted, _, hall, hidle⟩ := hreach.all_of_returned hnum hreturned
  have hledger := hreach.ledger
  have hallocated := hledger.allocated_eq
  have htags := hledger.tags_perm
  have hdrawn := (hreach.drawn hactors).request
  rw [hidle, List.append_nil] at htags hdrawn
  have hmem := htags.mem_iff (a := k)
  rw [List.mem_range, List.map_map, List.mem_map] at hmem
  rw [show (k : Int) < config.numGames ↔ k < state.allocated by omega, ← hmem]
  constructor
  · intro h
    obtain ⟨entry, hentry, htag⟩ := h
    obtain ⟨response, hok⟩ := hall entry hentry
    have hnames := hdrawn entry.1 (List.mem_map_of_mem hentry)
    refine ⟨entry, hentry, htag, ?_, response, ?_⟩
    · rw [← htag]
      exact hnames
    · rw [hledger.reported_eq, List.mem_filterMap]
      refine ⟨entry, hentry, ?_⟩
      obtain ⟨call, status⟩ := entry
      subst hok
      rfl
  · intro h
    obtain ⟨entry, hentry, htag, _⟩ := h
    exact ⟨entry, hentry, htag⟩

/-- Reported requests were delivered. -/
theorem delivered_of_reported (hledger : Ledger config state) {request : PlayGameRequest}
    {response : PlayGameResponse} (h : (request, response) ∈ state.reported) :
    ∃ entry ∈ state.delivered, entry.1.request = request := by
  rw [hledger.reported_eq, List.mem_filterMap] at h
  obtain ⟨⟨call, status⟩, hentry, hsuccess⟩ := h
  refine ⟨(call, status), hentry, ?_⟩
  cases status with
  | failed message => cases hsuccess
  | ok response' => exact (Prod.mk.inj (Option.some.inj hsuccess)).1

/-- Actors with unique names are told apart by their names. -/
theorem name_eq_iff {actors : List ActorSpec} (hunique : (actors.map ActorSpec.name).Nodup)
    {j : Int} (hj : 0 ≤ j) {player : ActorSpec} (hplayer : actors[j.toNat]? = some player)
    {i : Nat} (hi : i < actors.length) : actors[i].name = player.name ↔ j = i := by
  obtain ⟨hlt, rfl⟩ := List.getElem?_eq_some_iff.mp hplayer
  constructor
  · intro hname
    have hactor : actors[i] = actors[j.toNat] :=
      List.inj_on_of_nodup_map hunique (List.getElem_mem hi) (List.getElem_mem hlt) hname
    have hsame : i = j.toNat := (hunique.of_map _).getElem_inj_iff.mp hactor
    omega
  · intro hsame
    subst hsame
    rfl

/-- The actor at an index plays in a request exactly if the index is drawn for it. -/
theorem NamesMatchup.plays_iff {k : Nat} {request : PlayGameRequest}
    (h : NamesMatchup ladder k request) (hactors : 2 ≤ ladder.ladderSpec.actorSpec.length)
    (hunique : (ladder.ladderSpec.actorSpec.map ActorSpec.name).Nodup) {i : Nat}
    (hi : i < ladder.ladderSpec.actorSpec.length) :
    (ladder.ladderSpec.actorSpec[i].name = request.firstPlayer.name ∨
        ladder.ladderSpec.actorSpec[i].name = request.secondPlayer.name) ↔
      (ladder.advance k).matchup.1 = i ∨ (ladder.advance k).matchup.2 = i := by
  have hmatch := (ladder.advance k).matchup_mem hactors
  obtain ⟨⟨⟨hlow, _⟩, hlow', _⟩, _⟩ := BasicLadder.mem_orderedPairs.mp hmatch
  rw [name_eq_iff hunique hlow h.1 hi, name_eq_iff hunique hlow' h.2 hi]

/-- When `Play` has returned, an actor has an entry exactly if it had one before the run or is drawn
for one of the requests. -/
theorem entry_iff_of_returned (hactors : 2 ≤ ladder.ladderSpec.actorSpec.length)
    (hunique : (ladder.ladderSpec.actorSpec.map ActorSpec.name).Nodup)
    (hnum : 0 ≤ config.numGames) (hreach : Reachable (L := basicLadder) config ladder state)
    (hreturned : state.control = .returned) (i : Nat)
    (hi : i < ladder.ladderSpec.actorSpec.length) :
    ladder.ladderSpec.actorSpec[i].name ∈ (ladderOf state).stats.keys ↔
      ladder.ladderSpec.actorSpec[i].name ∈ ladder.stats.keys ∨
        ∃ k : Nat, (k : Int) < config.numGames ∧
          ((ladder.advance k).matchup.1 = i ∨ (ladder.advance k).matchup.2 = i) := by
  have hdrawn := hreach.drawn hactors
  have hreported := reported_iff_of_returned hactors hnum hreach hreturned
  rw [hdrawn.stats_eq, BasicLadder.mem_keys_afterGames]
  apply or_congr_right
  constructor
  · intro h
    obtain ⟨⟨request, response⟩, hmem, hplays⟩ := h
    obtain ⟨entry, hdelivered, rfl⟩ := delivered_of_reported hreach.ledger hmem
    have hnames := hdrawn.request entry.1
      (List.mem_append_left _ (List.mem_map_of_mem hdelivered))
    exact ⟨entry.1.tag, (hreported _).mpr ⟨entry, hdelivered, rfl, hnames, response, hmem⟩,
      (hnames.plays_iff hactors hunique hi).mp hplays⟩
  · intro h
    obtain ⟨k, hk, hplays⟩ := h
    obtain ⟨entry, _, _, hnames, response, hmem⟩ := (hreported k).mp hk
    exact ⟨(entry.1.request, response), hmem, (hnames.plays_iff hactors hunique hi).mpr hplays⟩

/-- For a ladder with two or more uniquely named actors, and every run of `Play` that returns: the
following `LogStats` passes its check for every actor exactly when every actor had an entry
before the run or is drawn for one of the `num_games` requests. -/
theorem logStats_passes_iff (config : Config) (hnum : 1 ≤ config.numGames) (ladder : BasicLadder)
    (hactors : 2 ≤ ladder.ladderSpec.actorSpec.length)
    (hunique : (ladder.ladderSpec.actorSpec.map ActorSpec.name).Nodup)
    (state : State basicLadder) (hreach : Reachable (L := basicLadder) config ladder state)
    (hreturned : state.control = .returned) (printFloat : Rat → String) :
    (∃ lines, BasicLadder.logStats printFloat state.ladder = .ok lines) ↔
      ∀ i (hi : i < ladder.ladderSpec.actorSpec.length),
        ladder.ladderSpec.actorSpec[i].name ∈ ladder.stats.keys ∨
          ∃ k : Nat, (k : Int) < config.numGames ∧
            ((ladder.advance k).matchup.1 = i ∨ (ladder.advance k).matchup.2 = i) := by
  show (∃ lines, (ladderOf state).logStats printFloat = .ok lines) ↔ _
  rw [BasicLadder.logStats_returns_iff, (hreach.drawn hactors).spec_eq,
    List.forall_mem_iff_getElem]
  exact forall₂_congr (entry_iff_of_returned hactors hunique (by omega) hreach hreturned)

/-- After one game of two actors `LogStats` passes. -/
theorem logStats_passes_iff_two_actors :
    ∃ state : State basicLadder, Reachable (L := basicLadder) ⟨1, 1, 1⟩ twoActors state ∧
      state.control = .returned ∧
      ∃ lines, BasicLadder.logStats (fun _ => "") state.ladder = .ok lines := by
  have hprepare : basicLadder.prepareGameRequest twoActors =
      .ok (onlyCall.request, (oneCall .rpcLoop).ladder) := rfl
  obtain ⟨state, hreach, hreturned, _⟩ :=
    exists_returned_of_prepareGameRequest hprepare ⟨⟨[], 1⟩, []⟩
  refine ⟨state, hreach, hreturned, ?_⟩
  rw [logStats_passes_iff ⟨1, 1, 1⟩ (by decide) twoActors (by decide) (by decide) state hreach
    hreturned]
  intro i hi
  have hindex : i = 0 ∨ i = 1 := by
    have hlt : i < 2 := hi
    omega
  refine Or.inr ⟨0, by decide, ?_⟩
  rcases hindex with rfl | rfl
  · exact Or.inl (by decide)
  · exact Or.inr (by decide)

/-- After one game of three actors, one of them has no entry, and `LogStats` fails its check. -/
theorem logStats_fails_three_actors :
    2 ≤ BasicLadder.threeActors.ladderSpec.actorSpec.length ∧
      (BasicLadder.threeActors.ladderSpec.actorSpec.map ActorSpec.name).Nodup ∧
      ∃ state : State basicLadder,
        Reachable (L := basicLadder) ⟨1, 1, 1⟩ BasicLadder.threeActors state ∧
        state.control = .returned ∧
        ¬ ∃ lines, BasicLadder.logStats (fun _ => "") state.ladder = .ok lines := by
  have hactors : 2 ≤ BasicLadder.threeActors.ladderSpec.actorSpec.length := by decide
  have hunique : (BasicLadder.threeActors.ladderSpec.actorSpec.map ActorSpec.name).Nodup := by
    decide
  obtain ⟨request, hrequest, _⟩ := BasicLadder.prepareGameRequest_eq_ok hactors
  have hprepare : basicLadder.prepareGameRequest BasicLadder.threeActors = .ok (request, _) :=
    hrequest
  obtain ⟨state, hreach, hreturned, _⟩ :=
    exists_returned_of_prepareGameRequest hprepare ⟨⟨[], 1⟩, []⟩
  refine ⟨hactors, hunique, state, hreach, hreturned, ?_⟩
  show ¬ ∃ lines, (ladderOf state).logStats _ = .ok lines
  rw [BasicLadder.logStats_returns_iff, (hreach.drawn hactors).spec_eq]
  intro hall
  have hlast := entry_iff_of_returned hactors hunique (by decide) hreach hreturned 2 (by decide)
  rcases hlast.mp (hall _ (List.getElem_mem _)) with hbefore | ⟨k, hk, hplays⟩
  · cases hbefore
  · obtain rfl : k = 0 := by
      have hlt : (k : Int) < 1 := hk
      omega
    rcases hplays with hfirst | hsecond
    · exact absurd hfirst (by decide)
    · exact absurd hsecond (by decide)

end Supervisor

end Gomoku
