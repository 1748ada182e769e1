import Mathlib.Data.List.Basic
import Mathlib.Tactic.Common

/-!
# Executions that can stop short of a value

A `Result` is a value or the `Fault` that ended the execution: a failed assertion, a fatal
log line, an access or an arithmetic operation outside its range, or a loop that is still
running when its fuel is gone. `whileLoop` is the C loop over an explicit state, and
`whileLoop_total` is its rule of total correctness: an invariant and a variant give a
result for every fuel above the variant.
-/

namespace Execution

/-- How an execution can end without a value. `outOfFuel` stands for a loop that has not
ended within the iterations granted to it. -/
inductive Fault where
  | check (condition : String)
  | fatal (message : String)
  | outOfRange
  | overflow
  | outOfFuel
  deriving DecidableEq, Repr

/-- The outcome of an execution. -/
abbrev Result := Except Fault

/-- Debug assertions are compiled into a `debug` build only. -/
inductive Build where
  | debug
  | optimised
  deriving DecidableEq, Repr

/-- An assertion that every build evaluates. -/
def check (condition : String) (holds : Bool) : Result Unit :=
  if holds then .ok () else .error (.check condition)

/-- An assertion that only a debug build evaluates. -/
def dcheck (build : Build) (condition : String) (holds : Bool) : Result Unit :=
  match build with
  | .debug => check condition holds
  | .optimised => .ok ()

/-- The result of an `int` operation, defined only inside the 32-bit range. -/
def int32 (value : Int) : Result Int :=
  if -2147483648 ≤ value ∧ value < 2147483648 then .ok value else .error .overflow

@[simp] theorem check_true (condition : String) : check condition true = .ok () := rfl

@[simp] theorem dcheck_true (build : Build) (condition : String) :
    dcheck build condition true = .ok () := by
  cases build <;> rfl

@[simp] theorem dcheck_optimised (condition : String) (holds : Bool) :
    dcheck .optimised condition holds = .ok () := rfl

/-- Inside the 32-bit range an `int` operation returns its mathematical value. -/
theorem int32_of_mem {value : Int} (hlow : -2147483648 ≤ value) (hhigh : value < 2147483648) :
    int32 value = .ok value :=
  if_pos ⟨hlow, hhigh⟩

/-- What an `int` operation returns is its mathematical value. -/
theorem int32_eq_ok {value result : Int} (h : int32 value = .ok result) : result = value := by
  unfold int32 at h
  split at h
  · exact (Except.ok.inj h).symm
  · cases h

section Bind

variable {α β : Type}

@[simp] theorem ok_bind (value : α) (next : α → Result β) :
    (Except.ok value >>= next : Result β) = next value := rfl

@[simp] theorem error_bind (fault : Fault) (next : α → Result β) :
    (Except.error fault >>= next : Result β) = .error fault := rfl

@[simp] theorem pure_eq_ok (value : α) : (pure value : Result α) = .ok value := rfl

@[simp] theorem bind_ok (first : Result α) : (first >>= fun value => .ok value) = first := by
  cases first <;> rfl

/-- A sequence returns exactly when its first part does and the rest returns from there. -/
theorem bind_eq_ok {first : Result α} {next : α → Result β} {value : β} :
    first >>= next = .ok value ↔ ∃ middle, first = .ok middle ∧ next middle = .ok value := by
  cases first with
  | error fault => simp
  | ok middle => simp

end Bind

section Search

variable {α : Type}

/-- A short-circuiting search whose test decides `Q` on every element decides whether some
element has `Q`. -/
theorem anyM_total (list : List α) (test : α → Result Bool) (Q : α → Prop)
    (h : ∀ item ∈ list, ∃ found, test item = .ok found ∧ (found = true ↔ Q item)) :
    ∃ found, list.anyM test = .ok found ∧ (found = true ↔ ∃ item ∈ list, Q item) := by
  induction list with
  | nil => exact ⟨false, rfl, by simp⟩
  | cons item rest ih =>
      obtain ⟨found, htest, hfound⟩ := h item (by simp)
      obtain ⟨later, hrest, hlater⟩ := ih (fun other hm => h other (by simp [hm]))
      rw [List.anyM_cons, htest]
      cases found with
      | true => exact ⟨true, rfl, by simpa using Or.inl (hfound.mp rfl)⟩
      | false =>
          have hnot : ¬ Q item := fun hq => by simpa using hfound.mpr hq
          exact ⟨later, hrest, by simpa [hnot] using hlater⟩

/-- A search that returns does not depend on the test of the items where the test faults. -/
theorem anyM_mono {list : List α} {test test' : α → Result Bool}
    (htest : ∀ item found, test item = .ok found → test' item = .ok found) {found : Bool}
    (h : list.anyM test = .ok found) : list.anyM test' = .ok found := by
  induction list with
  | nil => exact h
  | cons item rest ih =>
      rw [List.anyM_cons] at h ⊢
      obtain ⟨first, hfirst, h⟩ := bind_eq_ok.mp h
      rw [htest item first hfirst]
      cases first with
      | true => exact h
      | false => exact ih h

/-- The first match of a test that never faults is the first match of the pure test. -/
theorem findM?_eq_ok (list : List α) (test : α → Result Bool) (pred : α → Bool)
    (h : ∀ item ∈ list, test item = .ok (pred item)) :
    list.findM? test = .ok (list.find? pred) := by
  induction list with
  | nil => rfl
  | cons item rest ih =>
      rw [List.findM?, h item (by simp), List.find?]
      cases hp : pred item with
      | true => simp
      | false => simpa [hp] using ih (fun other hm => h other (by simp [hm]))

end Search

section Fold

variable {α σ : Type}

/-- A fold whose steps never fault is the fold of the pure steps. -/
theorem foldlM_eq_ok (list : List α) (step : σ → α → Result σ) (next : σ → α → σ)
    (h : ∀ item ∈ list, ∀ state, step state item = .ok (next state item)) (state : σ) :
    list.foldlM step state = .ok (list.foldl next state) := by
  induction list generalizing state with
  | nil => rfl
  | cons item rest ih =>
      rw [List.foldlM_cons, h item (by simp), ok_bind, List.foldl_cons]
      exact ih (fun other hm => h other (by simp [hm])) (next state item)

/-- A fold whose steps return for the items with `Q`, whatever the state, returns exactly when all
items have `Q`. -/
theorem foldlM_returns_iff {step : σ → α → Result σ} {Q : α → Prop}
    (hstep : ∀ state item, (∃ next, step state item = .ok next) ↔ Q item) (list : List α)
    (state : σ) : (∃ final, list.foldlM step state = .ok final) ↔ ∀ item ∈ list, Q item := by
  induction list generalizing state with
  | nil => simp
  | cons item rest ih =>
      rw [List.forall_mem_cons, ← hstep state item, List.foldlM_cons]
      simp only [bind_eq_ok]
      constructor
      · intro h
        obtain ⟨final, next, hnext, hfinal⟩ := h
        exact ⟨⟨next, hnext⟩, (ih next).mp ⟨final, hfinal⟩⟩
      · intro h
        obtain ⟨⟨next, hnext⟩, hrest⟩ := h
        obtain ⟨final, hfinal⟩ := (ih next).mpr hrest
        exact ⟨final, next, hnext, hfinal⟩

/-- A fold does not distinguish items that every step treats alike. -/
theorem foldlM_congr_of_forall₂ {step : σ → α → Result σ} {alike : α → α → Prop}
    (hstep : ∀ item other, alike item other → ∀ state, step state item = step state other)
    {list list' : List α} (h : List.Forall₂ alike list list') (state : σ) :
    list.foldlM step state = list'.foldlM step state := by
  induction h generalizing state with
  | nil => rfl
  | cons hitem _ ih =>
      rw [List.foldlM_cons, List.foldlM_cons, hstep _ _ hitem]
      congr 1
      funext next
      exact ih next

end Fold

section Fuel

variable {α : Type}

/-- The execution returns `value` whenever it is given enough fuel. -/
def Returns (run : Nat → Result α) (value : α) : Prop :=
  ∃ bound, ∀ fuel, bound ≤ fuel → run fuel = .ok value

/-- An execution returns at most one value. -/
theorem Returns.unique {run : Nat → Result α} {value other : α} (h : Returns run value)
    (hother : Returns run other) : value = other := by
  obtain ⟨bound, hvalue⟩ := h
  obtain ⟨bound', hvalue'⟩ := hother
  have hfirst := hvalue (max bound bound') (Nat.le_max_left _ _)
  have hsecond := hvalue' (max bound bound') (Nat.le_max_right _ _)
  exact Except.ok.inj (hfirst.symm.trans hsecond)

/-- A test that decides the same proposition for every fuel has the same value for every fuel. -/
theorem exists_value_of_decides {run : Nat → Result Bool} {bound : Nat} {P : Prop}
    (h : ∀ fuel, bound ≤ fuel → ∃ value, run fuel = .ok value ∧ (value = true ↔ P)) :
    ∃ value, (∀ fuel, bound ≤ fuel → run fuel = .ok value) ∧ (value = true ↔ P) := by
  classical
  refine ⟨decide P, fun fuel hfuel => ?_, by simp⟩
  obtain ⟨value, hrun, hvalue⟩ := h fuel hfuel
  rw [hrun]
  congr 1
  rw [Bool.eq_iff_iff, hvalue, decide_eq_true_iff]

end Fuel

section Loop

variable {σ : Type}

/-- `while (test) body` over an explicit state, for at most `fuel` evaluations of the test. -/
def whileLoop (test : σ → Result Bool) (body : σ → Result σ) : Nat → σ → Result σ
  | 0, _ => .error .outOfFuel
  | fuel + 1, state => do
      if ← test state then whileLoop test body fuel (← body state) else pure state

variable {test : σ → Result Bool} {body : σ → Result σ}

/-- A false test ends the loop in the state it was evaluated in. -/
theorem whileLoop_of_false {state : σ} (h : test state = .ok false) (fuel : Nat) :
    whileLoop test body (fuel + 1) state = .ok state := by
  simp [whileLoop, h]

/-- A true test runs the body once and continues with the remaining fuel. -/
theorem whileLoop_of_true {state : σ} (h : test state = .ok true) (fuel : Nat) :
    whileLoop test body (fuel + 1) state = body state >>= whileLoop test body fuel := by
  simp [whileLoop, h]

/-- Partial correctness. What every pass keeps holds in the state in which the loop ends. -/
theorem whileLoop_preserves (invariant : σ → Prop)
    (hbody : ∀ state next, invariant state → test state = .ok true → body state = .ok next →
      invariant next)
    {fuel : Nat} {state final : σ} (hstart : invariant state)
    (hrun : whileLoop test body fuel state = .ok final) : invariant final := by
  induction fuel generalizing state with
  | zero => cases hrun
  | succ fuel ih =>
      rw [whileLoop] at hrun
      obtain ⟨value, htest, hrun⟩ := bind_eq_ok.mp hrun
      cases value with
      | false =>
          obtain rfl : state = final := Except.ok.inj hrun
          exact hstart
      | true =>
          obtain ⟨next, hnext, hrun⟩ := bind_eq_ok.mp hrun
          exact ih (hbody state next hstart htest hnext) hrun

/-- The test is false in the state in which the loop ends. -/
theorem whileLoop_test_final {fuel : Nat} {state final : σ}
    (hrun : whileLoop test body fuel state = .ok final) : test final = .ok false := by
  induction fuel generalizing state with
  | zero => cases hrun
  | succ fuel ih =>
      rw [whileLoop] at hrun
      obtain ⟨value, htest, hrun⟩ := bind_eq_ok.mp hrun
      cases value with
      | false =>
          obtain rfl : state = final := Except.ok.inj hrun
          exact htest
      | true =>
          obtain ⟨next, _, hrun⟩ := bind_eq_ok.mp hrun
          exact ih hrun

/-- A loop that has ended ends in the same state when it is granted more iterations. -/
theorem whileLoop_mono {fuel fuel' : Nat} (hle : fuel ≤ fuel') {state final : σ}
    (hrun : whileLoop test body fuel state = .ok final) :
    whileLoop test body fuel' state = .ok final := by
  induction fuel generalizing fuel' state with
  | zero => cases hrun
  | succ fuel ih =>
      obtain ⟨rest, rfl⟩ : ∃ rest, fuel' = rest + 1 := ⟨fuel' - 1, by omega⟩
      rw [whileLoop] at hrun ⊢
      obtain ⟨value, htest, hrun⟩ := bind_eq_ok.mp hrun
      rw [htest, ok_bind]
      cases value with
      | false => exact hrun
      | true =>
          obtain ⟨next, hnext, hrun⟩ := bind_eq_ok.mp hrun
          show body state >>= whileLoop test body rest = .ok final
          rw [hnext]
          exact ih (by omega) hrun

/-- Total correctness. The test and the body may use fuel of their own, of which `bound` is
enough. While the invariant holds the test decides whether the loop is `going`, and every pass
through the body of a loop that is going keeps the invariant and decreases the variant. The
loop then ends, whatever limit above the variant it is given, in one state that has the
invariant and is not going. -/
theorem whileLoop_total (test : Nat → σ → Result Bool) (body : Nat → σ → Result σ) (bound : Nat)
    (invariant going : σ → Prop) (variant : σ → Nat)
    (htest : ∀ state, invariant state → ∃ value,
      (∀ fuel, bound ≤ fuel → test fuel state = .ok value) ∧ (value = true ↔ going state))
    (hbody : ∀ state, invariant state → going state →
      ∃ next, (∀ fuel, bound ≤ fuel → body fuel state = .ok next) ∧ invariant next ∧
        variant next < variant state)
    {state : σ} (hstart : invariant state) :
    ∃ final, (∀ fuel limit, bound ≤ fuel → variant state < limit →
        whileLoop (test fuel) (body fuel) limit state = .ok final) ∧
      invariant final ∧ ¬ going final := by
  generalize hvariant : variant state = size
  induction size using Nat.strongRecOn generalizing state with
  | ind size ih =>
      subst hvariant
      obtain ⟨value, hvalue, hgoing⟩ := htest state hstart
      cases value with
      | false =>
          have hstop : ¬ going state := fun hgo => Bool.false_ne_true (hgoing.mpr hgo)
          refine ⟨state, fun fuel limit hfuel hlimit => ?_, hstart, hstop⟩
          obtain ⟨rest, rfl⟩ : ∃ rest, limit = rest + 1 := ⟨limit - 1, by omega⟩
          exact whileLoop_of_false (hvalue fuel hfuel) rest
      | true =>
          obtain ⟨next, hnext, hinv, hlt⟩ := hbody state hstart (hgoing.mp rfl)
          obtain ⟨final, hrun, hfinal⟩ := ih (variant next) hlt hinv rfl
          refine ⟨final, fun fuel limit hfuel hlimit => ?_, hfinal⟩
          obtain ⟨rest, rfl⟩ : ∃ rest, limit = rest + 1 := ⟨limit - 1, by omega⟩
          rw [whileLoop_of_true (hvalue fuel hfuel), hnext fuel hfuel, ok_bind]
          exact hrun fuel rest hfuel (by omega)

end Loop

end Execution
