import Gomoku.Ladder.Supervisor

/-!
# Runs of the ladder supervisor

The accounts of `Supervisor::Play` balance in every state of every run: `Ledger` relates the
counters, the calls in flight, what the queue delivered and what was passed on, and `Slots`
bounds the calls of every worker. Every step keeps both. `play_accounting` is what follows
about runs, and `never_stuck_without_failure` that a run can only get stuck after a call has
failed.
-/

namespace Gomoku.Supervisor

open Execution

variable {L : Ladder} {config : Config} {state next : State L} {ladder : L.State}

/-- What a delivered call is reported with if it succeeded. -/
def success : PlayGameCall × Status → Option (PlayGameRequest × PlayGameResponse)
  | (call, .ok response) => some (call.request, response)
  | (_, .failed _) => none

/-- The number of calls in flight on a worker. -/
def running (state : State L) (worker : Nat) : Nat :=
  state.inFlight.countP fun call => call.worker == worker

/-- A game is started with a request of the ladder. -/
theorem startGame_eq_ok {worker : Nat} (h : startGame worker state = .ok next) :
    ∃ request ladder, L.prepareGameRequest state.ladder = .ok (request, ladder) ∧
      next = { state with
        ladder := ladder
        allocated := state.allocated + 1
        inFlight := state.inFlight ++ [⟨state.allocated, worker, request⟩]
        gamesStarted := state.gamesStarted + 1 } := by
  obtain ⟨played, hplay, hnext⟩ := bind_eq_ok.mp h
  obtain ⟨⟨request, ladder⟩, hprepare, hplayed⟩ := bind_eq_ok.mp hplay
  obtain rfl := Except.ok.inj hplayed
  exact ⟨request, ladder, hprepare, (Except.ok.inj hnext).symm⟩

/-- What one pass of the RPC loop does: nothing for a failed call; for a successful one, the game
is passed on and a new game is started on the same worker if there are games left. -/
theorem handle_cases {call : PlayGameCall} {status : Status}
    (h : handle config call status state = .ok next) :
    (∃ message, status = .failed message ∧ next = state) ∨
      ∃ response, status = .ok response ∧
        (state.gamesStarted < config.numGames ∧
            startGame call.worker (record call response state) = .ok next ∨
          ¬ state.gamesStarted < config.numGames ∧ next = record call response state) := by
  cases status with
  | failed message => exact Or.inl ⟨message, rfl, (Except.ok.inj h).symm⟩
  | ok response =>
      refine Or.inr ⟨response, rfl, ?_⟩
      have hbody : (if state.gamesStarted < config.numGames then
          startGame call.worker (record call response state)
        else .ok (record call response state)) = .ok next := h
      by_cases hroom : state.gamesStarted < config.numGames
      · rw [if_pos hroom] at hbody
        exact Or.inl ⟨hroom, hbody⟩
      · rw [if_neg hroom] at hbody
        exact Or.inr ⟨hroom, (Except.ok.inj hbody).symm⟩

/-! ## The accounts -/

/-- The counters, the calls in flight and the records agree. -/
structure Ledger (config : Config) (state : State L) : Prop where
  started_eq : state.gamesStarted = state.delivered.length + state.inFlight.length
  allocated_eq : state.gamesStarted = state.allocated
  started_le : state.gamesStarted ≤ max config.numGames 0
  completed_eq : state.gamesCompleted = state.reported.length
  reported_eq : state.reported = state.delivered.filterMap success
  appended_eq : state.appended = state.reported.map fun game => game.2.metrics
  tags_perm : ((state.delivered.map Prod.fst ++ state.inFlight).map PlayGameCall.tag).Perm
    (List.range state.allocated)

namespace Ledger

theorem initial (config : Config) (ladder : L.State) : Ledger config (initial ladder) where
  started_eq := rfl
  allocated_eq := rfl
  started_le := by
    show (0 : Int) ≤ max config.numGames 0
    omega
  completed_eq := rfl
  reported_eq := rfl
  appended_eq := rfl
  tags_perm := List.Perm.refl _

/-- Where `Play` is does not matter to the accounts. -/
theorem withControl (h : Ledger config state) (control : Control) :
    Ledger config { state with control } :=
  ⟨h.started_eq, h.allocated_eq, h.started_le, h.completed_eq, h.reported_eq, h.appended_eq,
    h.tags_perm⟩

/-- A new call has the next tag. -/
theorem startGame (h : Ledger config state) (hroom : state.gamesStarted < config.numGames)
    {worker : Nat} (hstart : startGame worker state = .ok next) : Ledger config next := by
  obtain ⟨request, ladder, _, rfl⟩ := startGame_eq_ok hstart
  refine ⟨?_, ?_, ?_, h.completed_eq, h.reported_eq, h.appended_eq, ?_⟩
  · show state.gamesStarted + 1 = _
    rw [h.started_eq]
    simp only [List.length_append, List.length_singleton]
    push_cast
    ring
  · show state.gamesStarted + 1 = _
    rw [h.allocated_eq]
    push_cast
    ring
  · show state.gamesStarted + 1 ≤ _
    omega
  · show (List.map _ (_ ++ (state.inFlight ++ [_]))).Perm (List.range (state.allocated + 1))
    rw [← List.append_assoc, List.map_append, List.range_succ]
    exact h.tags_perm.append_right _

section Deliver

variable {before after : List PlayGameCall} {call : PlayGameCall}

/-- A delivered call moves from the calls in flight to the delivered ones. -/
theorem delivered (h : Ledger config state) (hsplit : state.inFlight = before ++ call :: after)
    (status : Status) :
    state.gamesStarted = (state.delivered ++ [(call, status)]).length + (before ++ after).length ∧
      (((state.delivered ++ [(call, status)]).map Prod.fst ++ (before ++ after)).map
        PlayGameCall.tag).Perm (List.range state.allocated) := by
  refine ⟨?_, ?_⟩
  · rw [h.started_eq, hsplit]
    simp only [List.length_append, List.length_cons, List.length_nil]
    push_cast
    ring
  · refine List.Perm.trans (List.Perm.map _ ?_) h.tags_perm
    rw [hsplit, List.map_append, List.append_assoc]
    have hmiddle : (call :: (before ++ after)).Perm (before ++ call :: after) :=
      List.perm_middle.symm
    exact hmiddle.append_left _

/-- A failed call is not passed on. -/
theorem failed (h : Ledger config state) (hsplit : state.inFlight = before ++ call :: after)
    (message : String) :
    Ledger config (deliver call (.failed message) (before ++ after) state) := by
  obtain ⟨hstarted, htags⟩ := h.delivered hsplit (.failed message)
  refine ⟨hstarted, h.allocated_eq, h.started_le, h.completed_eq, ?_, h.appended_eq, htags⟩
  show state.reported = (state.delivered ++ [(call, Status.failed message)]).filterMap success
  rw [List.filterMap_append, ← h.reported_eq]
  simp [success]

/-- A successful call is passed on once, with its own request and response. -/
theorem succeeded (h : Ledger config state) (hsplit : state.inFlight = before ++ call :: after)
    (response : PlayGameResponse) :
    Ledger config
      (record call response (deliver call (.ok response) (before ++ after) state)) := by
  obtain ⟨hstarted, htags⟩ := h.delivered hsplit (.ok response)
  refine ⟨hstarted, h.allocated_eq, h.started_le, ?_, ?_, ?_, htags⟩
  · show state.gamesCompleted + 1 = ((state.reported ++ [_]).length : Int)
    rw [h.completed_eq]
    simp
  · show state.reported ++ [_] =
      (state.delivered ++ [(call, Status.ok response)]).filterMap success
    rw [List.filterMap_append, ← h.reported_eq]
    simp [success]
  · show state.appended ++ [_] = (state.reported ++ [_]).map _
    rw [List.map_append, ← h.appended_eq]
    simp

/-- One pass of the RPC loop keeps the accounts. -/
theorem handle (h : Ledger config state) (hsplit : state.inFlight = before ++ call :: after)
    {status : Status}
    (hhandle : handle config call status (deliver call status (before ++ after) state) =
      .ok next) : Ledger config next := by
  obtain ⟨message, rfl, rfl⟩ | ⟨response, rfl, ⟨hroom, hstart⟩ | ⟨_, rfl⟩⟩ :=
    handle_cases hhandle
  · exact h.failed hsplit message
  · exact (h.succeeded hsplit response).startGame hroom hstart
  · exact h.succeeded hsplit response

end Deliver

/-- Every step keeps the accounts. -/
theorem step (h : Ledger config state) (hstep : Step config state next) : Ledger config next := by
  cases hstep with
  | start worker i started _ _ _ hroom hstart => exact (h.startGame hroom hstart).withControl _
  | nextWorker => exact h.withControl _
  | enterLoop => exact h.withControl _
  | deliver before call after status _ _ _ hsplit hhandle => exact h.handle hsplit hhandle
  | exit => exact h.withControl _

end Ledger

theorem Reachable.ledger (h : Reachable config ladder state) : Ledger config state := by
  induction h with
  | refl => exact Ledger.initial config ladder
  | tail _ hstep ih => exact ih.step hstep

/-! ## The calls of a worker -/

theorem running_startGame {worker : Nat} (h : startGame worker state = .ok next) (other : Nat) :
    running next other = running state other + if worker = other then 1 else 0 := by
  obtain ⟨request, ladder, _, rfl⟩ := startGame_eq_ok h
  simp [running, List.countP_append, List.countP_singleton]

theorem control_startGame {worker : Nat} (h : startGame worker state = .ok next) :
    next.control = state.control := by
  obtain ⟨request, ladder, _, rfl⟩ := startGame_eq_ok h
  rfl

/-- A pass of the RPC loop replaces a call by at most one on the same worker. -/
theorem running_handle_le {before after : List PlayGameCall} {call : PlayGameCall}
    {status : Status} (hsplit : state.inFlight = before ++ call :: after)
    (h : handle config call status (deliver call status (before ++ after) state) = .ok next)
    (worker : Nat) : running next worker ≤ running state worker := by
  have hcount : running state worker =
      running (deliver call status (before ++ after) state) worker +
        if call.worker = worker then 1 else 0 := by
    simp only [running, deliver, hsplit, List.countP_append, List.countP_cons, beq_iff_eq]
    omega
  obtain ⟨message, rfl, rfl⟩ | ⟨response, rfl, ⟨_, hstart⟩ | ⟨_, rfl⟩⟩ := handle_cases h
  · omega
  · rw [running_startGame hstart, hcount]
    exact Nat.le_refl _
  · rw [hcount]
    exact Nat.le_add_right _ _

theorem control_handle {call : PlayGameCall} {status : Status}
    (h : handle config call status state = .ok next) : next.control = state.control := by
  obtain ⟨message, rfl, rfl⟩ | ⟨response, rfl, ⟨_, hstart⟩ | ⟨_, rfl⟩⟩ := handle_cases h
  · rfl
  · have hsame := control_startGame hstart
    exact hsame
  · rfl

/-- No worker has more calls in flight than it may have at once. During the wave, the current
worker has only those of the wave and the later workers have none. -/
structure Slots (config : Config) (state : State L) : Prop where
  running_le : ∀ worker, (running state worker : Int) ≤ max config.concurrentGames 0
  wave : ∀ worker i, state.control = .wave worker i →
    0 ≤ i ∧ (running state worker : Int) ≤ i ∧ ∀ later, worker < later → running state later = 0

namespace Slots

theorem initial (config : Config) (ladder : L.State) : Slots config (initial ladder) := by
  have hnone : ∀ worker, running (Supervisor.initial ladder) worker = 0 := fun _ => rfl
  refine ⟨fun worker => ?_, fun worker i hcontrol => ?_⟩
  · rw [hnone]
    exact le_max_right _ _
  · obtain ⟨rfl, rfl⟩ : 0 = worker ∧ 0 = i := by simpa [Supervisor.initial] using hcontrol
    exact ⟨Int.le_refl 0, by rw [hnone]; rfl, fun later _ => hnone later⟩

/-- Every step keeps the bounds. -/
theorem step (h : Slots config state) (hstep : Step config state next) : Slots config next := by
  cases hstep with
  | start worker i started hcontrol _ hroom _ hstart =>
      obtain ⟨hi, hcurrent, hlater⟩ := h.wave worker i hcontrol
      have hcount := running_startGame hstart
      refine ⟨fun other => ?_, fun worker' i' hcontrol' => ?_⟩
      · show (running started other : Int) ≤ _
        have hle := h.running_le other
        rw [hcount]
        by_cases hsame : worker = other
        · subst hsame
          rw [if_pos rfl]
          push_cast
          omega
        · rw [if_neg hsame]
          exact hle
      · obtain ⟨rfl, rfl⟩ : worker = worker' ∧ i + 1 = i' := by simpa using hcontrol'
        refine ⟨by omega, ?_, fun later hgt => ?_⟩
        · show (running started worker : Int) ≤ _
          rw [hcount, if_pos rfl]
          push_cast
          omega
        · show running started later = 0
          rw [hcount, hlater later hgt, if_neg (by omega)]
  | nextWorker worker i hcontrol =>
      obtain ⟨_, _, hlater⟩ := h.wave worker i hcontrol
      refine ⟨h.running_le, fun worker' i' hcontrol' => ?_⟩
      obtain ⟨rfl, rfl⟩ : worker + 1 = worker' ∧ 0 = i' := by simpa using hcontrol'
      refine ⟨Int.le_refl 0, ?_, fun later hgt => hlater later (by omega)⟩
      have hnone := hlater (worker + 1) (by omega)
      show (running state (worker + 1) : Int) ≤ 0
      omega
  | enterLoop => exact ⟨h.running_le, fun worker i hcontrol => by cases hcontrol⟩
  | deliver before call after status _ hcontrol _ hsplit hhandle =>
      refine ⟨fun worker => ?_, fun worker i hcontrol' => ?_⟩
      · have hle := running_handle_le hsplit hhandle worker
        have hbound := h.running_le worker
        omega
      · have hsame := control_handle hhandle
        rw [hcontrol'] at hsame
        exact absurd (hsame.trans hcontrol) (by simp)
  | exit => exact ⟨h.running_le, fun worker i hcontrol => by cases hcontrol⟩

end Slots

theorem Reachable.slots (h : Reachable config ladder state) : Slots config state := by
  induction h with
  | refl => exact Slots.initial config ladder
  | tail _ hstep ih => exact ih.step hstep

/-- `Play` returns only when enough games are completed. -/
theorem Reachable.completed_of_returned (h : Reachable config ladder state)
    (hreturned : state.control = .returned) : config.numGames ≤ state.gamesCompleted := by
  induction h with
  | refl => cases hreturned
  | tail _ hstep ih =>
      cases hstep with
      | start => cases hreturned
      | nextWorker => cases hreturned
      | enterLoop => cases hreturned
      | deliver before call after status _ hcontrol _ _ hhandle =>
          have hsame := control_handle hhandle
          rw [hreturned] at hsame
          exact absurd (hsame.trans hcontrol) (by simp)
      | exit _ hdone => exact Int.not_lt.mp hdone

/-- Every delivered call has succeeded. -/
def AllSucceeded (state : State L) : Prop :=
  ∀ entry ∈ state.delivered, ∃ response, entry.2 = .ok response

/-- Only delivered calls are reported, and all of them exactly when all have succeeded. -/
theorem Ledger.completed_le (h : Ledger config state) :
    state.gamesCompleted ≤ state.delivered.length ∧
      (state.gamesCompleted = state.delivered.length ↔ AllSucceeded state) := by
  rw [h.completed_eq, h.reported_eq]
  refine ⟨by exact_mod_cast List.length_filterMap_le success state.delivered, ?_⟩
  rw [Nat.cast_inj, List.filterMap_length_eq_length]
  apply forall₂_congr
  intro entry _
  obtain ⟨call, status⟩ := entry
  cases status <;> simp [success]

/-- When `Play` returns, all games were started and have succeeded, and no call is in flight. -/
theorem Reachable.all_of_returned (hnum : 0 ≤ config.numGames)
    (h : Reachable config ladder state) (hreturned : state.control = .returned) :
    state.gamesStarted = config.numGames ∧ state.delivered.length = config.numGames ∧
      AllSucceeded state ∧ state.inFlight = [] := by
  have hstarted := h.ledger.started_eq
  have hbound := h.ledger.started_le
  have hcompleted := h.ledger.completed_le
  have henough := h.completed_of_returned hreturned
  have hall : state.gamesCompleted = state.delivered.length := by omega
  refine ⟨by omega, by omega, hcompleted.2.mp hall, ?_⟩
  apply List.eq_nil_of_length_eq_zero
  omega

/-- The accounts of `Play` in every state that it reaches, whatever calls finish in whatever order
with whatever status. No more games are completed than started and no more started than
asked for; no worker has more calls in flight than it may have. The ladder and the metric
collector have been called once for every delivered call that succeeded, with its own
request and response. Every call that was started is either delivered once or in flight.
When `Play` returns, all games were started and have succeeded, and no call is in flight. -/
theorem play_accounting (config : Config) (hnum : 0 ≤ config.numGames) (ladder : L.State)
    (state : State L) (hreach : Reachable config ladder state) :
    state.gamesCompleted ≤ state.gamesStarted ∧
    state.gamesStarted ≤ config.numGames ∧
    (∀ worker, ((state.inFlight.countP fun call => call.worker == worker : Nat) : Int) ≤
      max config.concurrentGames 0) ∧
    state.reported = state.delivered.filterMap success ∧
    state.appended = (state.delivered.filterMap success).map (fun game => game.2.metrics) ∧
    ((state.delivered.map Prod.fst ++ state.inFlight).map PlayGameCall.tag).Perm
      (List.range state.gamesStarted.toNat) ∧
    (state.control = .returned →
      state.gamesStarted = config.numGames ∧ state.delivered.length = config.numGames ∧
        AllSucceeded state ∧ state.inFlight = []) := by
  have hledger := hreach.ledger
  have hstarted := hledger.started_eq
  have hbound := hledger.started_le
  have hcompleted := hledger.completed_le
  refine ⟨by omega, by omega, hreach.slots.running_le, hledger.reported_eq, ?_, ?_,
    hreach.all_of_returned hnum⟩
  · rw [hledger.appended_eq, hledger.reported_eq]
  · have hallocated := hledger.allocated_eq
    rw [show state.gamesStarted.toNat = state.allocated by omega]
    exact hledger.tags_perm

/-! ## Progress -/

/-- As long as no call has failed, some call is in flight or all games have been started, from the
first call on. -/
structure Busy (config : Config) (state : State L) : Prop where
  wave : AllSucceeded state → ∀ worker i, state.control = .wave worker i →
    0 < worker ∨ 0 < i → config.numGames ≤ state.gamesStarted ∨ state.inFlight ≠ []
  rpcLoop : AllSucceeded state → state.control = .rpcLoop →
    config.numGames ≤ state.gamesStarted ∨ state.inFlight ≠ []

namespace Busy

theorem initial (config : Config) (ladder : L.State) : Busy config (initial ladder) := by
  refine ⟨fun _ worker i hcontrol hlater => ?_, fun _ hcontrol => by cases hcontrol⟩
  obtain ⟨rfl, rfl⟩ : 0 = worker ∧ 0 = i := by simpa [Supervisor.initial] using hcontrol
  omega

theorem inFlight_startGame {worker : Nat} (h : startGame worker state = .ok next) :
    next.inFlight ≠ [] := by
  obtain ⟨request, ladder, _, rfl⟩ := startGame_eq_ok h
  simp

/-- Every step keeps the supervisor busy. -/
theorem step (hworkers : 0 < config.workers) (hconcurrent : 1 ≤ config.concurrentGames)
    (h : Busy config state) (hstep : Step config state next) : Busy config next := by
  cases hstep with
  | start worker i started _ _ _ _ hstart =>
      have hcall := inFlight_startGame hstart
      refine ⟨fun _ _ _ _ _ => Or.inr hcall, fun _ hcontrol => ?_⟩
      cases hcontrol
  | nextWorker worker i hcontrol _ hfull =>
      refine ⟨fun hall _ _ _ _ => ?_, fun _ hloop => ?_⟩
      · -- the inner loop ended at its bound, after at least one call, or with all games started
        by_cases hstarted : state.gamesStarted < config.numGames
        · exact h.wave hall worker i hcontrol (by omega)
        · exact Or.inl (Int.not_lt.mp hstarted)
      · cases hloop
  | enterLoop worker i hcontrol hlast =>
      refine ⟨fun _ _ _ hwave => ?_, fun hall _ => ?_⟩
      · cases hwave
      · exact h.wave hall worker i hcontrol (by omega)
  | deliver before call after status _ hcontrol _ hsplit hhandle =>
      have hsame := control_handle hhandle
      refine ⟨fun _ worker i hwave => ?_, fun hall _ => ?_⟩
      · rw [hwave] at hsame
        exact absurd (hsame.trans hcontrol) (by simp)
      · obtain ⟨message, rfl, rfl⟩ | ⟨response, rfl, ⟨_, hstart⟩ | ⟨hroom, rfl⟩⟩ :=
          handle_cases hhandle
        · obtain ⟨response, hok⟩ := hall (call, .failed message) (by simp [deliver])
          cases hok
        · exact Or.inr (inFlight_startGame hstart)
        · exact Or.inl (Int.not_lt.mp hroom)
  | exit =>
      refine ⟨fun _ _ _ hwave => ?_, fun _ hloop => ?_⟩
      · cases hwave
      · cases hloop

end Busy

theorem Reachable.busy (hworkers : 0 < config.workers)
    (hconcurrent : 1 ≤ config.concurrentGames) (h : Reachable config ladder state) :
    Busy config state := by
  induction h with
  | refl => exact Busy.initial config ladder
  | tail _ hstep ih => exact ih.step hworkers hconcurrent hstep

/-- If all calls in flight fail, `Play` gets stuck unless it has completed all games. -/
theorem exists_stuck (hloop : state.control = .rpcLoop)
    (hunfinished : state.gamesCompleted < config.numGames) :
    ∃ later, Relation.ReflTransGen (Step config) state later ∧ Stuck config later := by
  generalize hcalls : state.inFlight = calls
  induction calls generalizing state with
  | nil => exact ⟨state, .refl, hloop, hunfinished, hcalls⟩
  | cons call rest ih =>
      have hstep : Step config state (deliver call (.failed "") rest state) :=
        .deliver state [] call rest (.failed "") _ hloop hunfinished hcalls rfl
      obtain ⟨later, hrun, hstuck⟩ :=
        @ih (deliver call (.failed "") rest state) hloop hunfinished rfl
      exact ⟨later, .head hstep hrun, hstuck⟩

/-- With a worker and a positive number of concurrent games: in every run of `Play` in which no
call has failed, a call is in flight whenever `Play` waits for one. In every run with a failed
call the games are incomplete, and `Play` gets stuck if the remaining calls fail too. -/
theorem never_stuck_without_failure (config : Config) (hworkers : 0 < config.workers)
    (hconcurrent : 1 ≤ config.concurrentGames) (ladder : L.State) (state : State L)
    (hreach : Reachable config ladder state) (hloop : state.control = .rpcLoop) :
    (AllSucceeded state → state.gamesCompleted < config.numGames → state.inFlight ≠ []) ∧
    (¬ AllSucceeded state → state.gamesCompleted < config.numGames ∧
      ∃ later, Relation.ReflTransGen (Step config) state later ∧ Stuck config later) := by
  have hledger := hreach.ledger
  have hstarted := hledger.started_eq
  have hcompleted := hledger.completed_le
  refine ⟨fun hall hunfinished hidle => ?_, fun hfailed => ?_⟩
  · have hsame := hcompleted.2.mpr hall
    rcases (hreach.busy hworkers hconcurrent).rpcLoop hall hloop with hdone | hbusy
    · rw [hidle, List.length_nil] at hstarted
      omega
    · exact hbusy hidle
  · have hne : state.gamesCompleted ≠ state.delivered.length :=
      fun hsame => hfailed (hcompleted.2.mp hsame)
    have hunfinished : state.gamesCompleted < config.numGames := by
      have hbound := hledger.started_le
      have hcount := hledger.completed_eq
      omega
    exact ⟨hunfinished, exists_stuck hloop hunfinished⟩

/-- If the only call of a run succeeds, `Play` returns. -/
theorem exists_returned_of_prepareGameRequest {request : PlayGameRequest} {prepared : L.State}
    (hprepare : L.prepareGameRequest ladder = .ok (request, prepared))
    (response : PlayGameResponse) :
    ∃ state : State L, Reachable ⟨1, 1, 1⟩ ladder state ∧ state.control = .returned ∧
      state.reported = [(request, response)] := by
  let oneCall (control : Control) : State L :=
    ⟨control, 1, 0, prepared, 1, [⟨0, 0, request⟩], [], [], []⟩
  have hstart : startGame 0 (initial ladder) = .ok (oneCall (.wave 0 0)) := by
    unfold startGame playGame
    rw [show (initial ladder : State L).ladder = ladder from rfl, hprepare]
    rfl
  have hfirst : Step ⟨1, 1, 1⟩ (initial ladder) (oneCall (.wave 0 1)) :=
    .start _ 0 0 _ rfl (by decide) (by decide) (show (0 : Int) < 1 by decide) hstart
  have hsecond : Step ⟨1, 1, 1⟩ (oneCall (.wave 0 1)) (oneCall (.wave 1 0)) :=
    .nextWorker _ 0 1 rfl (by decide) (show ¬ ((1 : Int) < 1 ∧ (1 : Int) < 1) by decide)
  have hthird : Step ⟨1, 1, 1⟩ (oneCall (.wave 1 0)) (oneCall .rpcLoop) :=
    .enterLoop _ 1 0 rfl (by decide)
  have hdeliver : Step ⟨1, 1, 1⟩ (oneCall .rpcLoop)
      (record ⟨0, 0, request⟩ response
        (deliver ⟨0, 0, request⟩ (.ok response) [] (oneCall .rpcLoop))) :=
    .deliver _ [] ⟨0, 0, request⟩ [] (.ok response) _ rfl (show (0 : Int) < 1 by decide) rfl rfl
  have hexit : Step ⟨1, 1, 1⟩ _ _ := .exit (record ⟨0, 0, request⟩ response
    (deliver ⟨0, 0, request⟩ (.ok response) [] (oneCall .rpcLoop))) rfl
    (show ¬ (0 + 1 : Int) < 1 by decide)
  exact ⟨_, ((((Relation.ReflTransGen.single hfirst).tail hsecond).tail hthird).tail
    hdeliver).tail hexit, rfl, rfl⟩

section OneGame

/-- A ladder with two actors whose random device delivers zeros. -/
def twoActors : BasicLadder where
  ladderSpec := ⟨"ladder", 100, [⟨"a", "RandomActor", ⟨[]⟩⟩, ⟨"b", "RandomActor", ⟨[]⟩⟩]⟩
  rng := ⟨fun _ => 0⟩
  stats := ∅

/-- The only call when one game is played on one worker. -/
def onlyCall : PlayGameCall where
  tag := 0
  worker := 0
  request := ⟨⟨"a", "RandomActor", ⟨[]⟩⟩, ⟨"b", "RandomActor", ⟨[]⟩⟩, 100, 0⟩

/-- The state while the only call is in flight. -/
def oneCall (control : Control) : State basicLadder :=
  { initial (L := basicLadder) twoActors with
    control := control
    gamesStarted := 1
    allocated := 1
    inFlight := [onlyCall] }

theorem reachable_oneCall :
    Reachable (L := basicLadder) ⟨1, 1, 1⟩ twoActors (oneCall .rpcLoop) := by
  have hstart : startGame (L := basicLadder) 0 (initial (L := basicLadder) twoActors) =
      .ok (oneCall (.wave 0 0)) := rfl
  have hfirst : Step ⟨1, 1, 1⟩ (initial (L := basicLadder) twoActors) (oneCall (.wave 0 1)) :=
    .start _ 0 0 _ rfl (by decide) (by decide) (by decide) hstart
  have hsecond : Step ⟨1, 1, 1⟩ (oneCall (.wave 0 1)) (oneCall (.wave 1 0)) :=
    .nextWorker _ 0 1 rfl (by decide) (by decide)
  have hthird : Step ⟨1, 1, 1⟩ (oneCall (.wave 1 0)) (oneCall .rpcLoop) :=
    .enterLoop _ 1 0 rfl (by decide)
  exact ((Relation.ReflTransGen.single hfirst).tail hsecond).tail hthird

/-- When the only call succeeds, `Play` returns, and its game is reported once. -/
theorem play_accounting_one_game :
    ∃ state : State basicLadder, Reachable ⟨1, 1, 1⟩ twoActors state ∧
      state.control = .returned ∧ state.reported = [(onlyCall.request, ⟨⟨[], 1⟩, []⟩)] ∧
      state.gamesStarted = 1 ∧ state.inFlight = [] := by
  have hprepare : basicLadder.prepareGameRequest twoActors =
      .ok (onlyCall.request, (oneCall .rpcLoop).ladder) := rfl
  obtain ⟨state, hreach, hreturned, hreported⟩ :=
    exists_returned_of_prepareGameRequest hprepare ⟨⟨[], 1⟩, []⟩
  have haccounts := play_accounting (L := basicLadder) ⟨1, 1, 1⟩ (by decide) twoActors _ hreach
  obtain ⟨hstarted, _, _, hidle⟩ := haccounts.2.2.2.2.2.2 hreturned
  exact ⟨state, hreach, hreturned, hreported, hstarted, hidle⟩

/-- While no call has failed, the only call is in flight. -/
theorem never_stuck_without_failure_one_game :
    (oneCall .rpcLoop).gamesCompleted < 1 ∧ (oneCall .rpcLoop).inFlight ≠ [] := by
  have hprogress := never_stuck_without_failure (L := basicLadder) ⟨1, 1, 1⟩ (by decide)
    (by decide) twoActors (oneCall .rpcLoop) reachable_oneCall rfl
  refine ⟨by decide, hprogress.1 ?_ (by decide)⟩
  intro entry hentry
  cases hentry

/-- When the only call fails, `Play` waits for ever. -/
theorem stuck_after_failure :
    ∃ state : State basicLadder, Reachable ⟨1, 1, 1⟩ twoActors state ∧ Stuck ⟨1, 1, 1⟩ state := by
  have hdeliver : Step ⟨1, 1, 1⟩ (oneCall .rpcLoop)
      (deliver onlyCall (.failed "unavailable") [] (oneCall .rpcLoop)) :=
    .deliver _ [] onlyCall [] (.failed "unavailable") _ rfl (by decide) rfl rfl
  exact ⟨_, reachable_oneCall.tail hdeliver, rfl, by decide, rfl⟩

end OneGame

end Gomoku.Supervisor
