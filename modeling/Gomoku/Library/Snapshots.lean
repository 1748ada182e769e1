import Mathlib.Data.Set.Insert
import Mathlib.Tactic.Common

/-!
# Snapshots of growing sets

A sequence without repetitions is shown by the sets of the elements seen so far, from the
empty set on. The snapshots of several sequences are put one after the other, without marks
between them. `flatMap_snapshots_injective` recovers the sequences: a new one starts at every
empty snapshot, and inside one the next element is what the next snapshot adds.
-/

namespace Snapshots

variable {α : Type}

/-- The sets of the elements seen so far, starting from `seen`. -/
def snapshotsFrom (seen : Set α) (items : List α) : List (Set α) :=
  items.scanl (fun set item => insert item set) seen

/-- The snapshots of a sequence, the empty one first. -/
def snapshots (items : List α) : List (Set α) := snapshotsFrom ∅ items

theorem snapshotsFrom_cons (seen : Set α) (item : α) (items : List α) :
    snapshotsFrom seen (item :: items) = seen :: snapshotsFrom (insert item seen) items :=
  List.scanl_cons

theorem snapshotsFrom_eq_cons (seen : Set α) (items : List α) :
    ∃ later, snapshotsFrom seen items = seen :: later := by
  cases items with
  | nil => exact ⟨[], List.scanl_nil⟩
  | cons item items => exact ⟨_, snapshotsFrom_cons seen item items⟩

/-- The list is empty or starts with the empty set. -/
def AtBoundary (sets : List (Set α)) : Prop := ∀ set ∈ sets.head?, set = ∅

/-- The snapshots of sequences start at a boundary. -/
theorem atBoundary_flatMap (sequences : List (List α)) :
    AtBoundary (sequences.flatMap snapshots) := by
  intro set hset
  cases sequences with
  | nil => simp at hset
  | cons items sequences =>
      obtain ⟨later, heq⟩ := snapshotsFrom_eq_cons ∅ items
      rw [List.flatMap_cons, snapshots, heq, List.cons_append, List.head?_cons] at hset
      exact (Option.mem_some.mp hset).symm

/-- A snapshot with an element in it is no boundary. -/
theorem not_atBoundary_snapshotsFrom {seen : Set α} {item : α} (hmem : item ∈ seen)
    (items : List α) (later : List (Set α)) :
    ¬ AtBoundary (snapshotsFrom seen items ++ later) := by
  intro h
  obtain ⟨tail, heq⟩ := snapshotsFrom_eq_cons seen items
  rw [heq] at h
  have hempty : seen = ∅ := h seen (by simp)
  rw [hempty] at hmem
  exact hmem

variable {seen : Set α} {items other : List α} {later later' : List (Set α)}

/-- No element repeats another one or was seen before. -/
def Fresh (seen : Set α) (items : List α) : Prop := items.Nodup ∧ ∀ item ∈ items, item ∉ seen

/-- Once the first element is seen, the others are still fresh. -/
theorem Fresh.of_cons {item : α} (h : Fresh seen (item :: items)) :
    item ∉ seen ∧ Fresh (insert item seen) items := by
  obtain ⟨hnodup, hnew⟩ := h
  obtain ⟨hnot, hrest⟩ := List.nodup_cons.mp hnodup
  refine ⟨hnew item (by simp), hrest, ?_⟩
  intro other hother hmem
  rcases Set.mem_insert_iff.mp hmem with hsame | hold
  · exact hnot (hsame ▸ hother)
  · exact hnew other (by simp [hother]) hold

/-- Snapshots up to a boundary determine their sequence and what follows it. -/
theorem snapshotsFrom_append_inj (hfresh : Fresh seen items) (hfresh' : Fresh seen other)
    (hlater : AtBoundary later) (hlater' : AtBoundary later')
    (heq : snapshotsFrom seen items ++ later = snapshotsFrom seen other ++ later') :
    items = other ∧ later = later' := by
  induction items generalizing seen other with
  | nil =>
      cases other with
      | nil => exact ⟨rfl, List.append_cancel_left heq⟩
      | cons item other =>
          rw [snapshotsFrom_cons, snapshotsFrom, List.scanl_nil] at heq
          have htail : later = snapshotsFrom (insert item seen) other ++ later' :=
            (List.cons.inj heq).2
          exact absurd (htail ▸ hlater)
            (not_atBoundary_snapshotsFrom (Set.mem_insert item seen) other later')
  | cons item items ih =>
      cases other with
      | nil =>
          rw [snapshotsFrom_cons, snapshotsFrom, snapshotsFrom, List.scanl_nil] at heq
          have htail : snapshotsFrom (insert item seen) items ++ later = later' :=
            (List.cons.inj heq).2
          exact absurd (htail ▸ hlater')
            (not_atBoundary_snapshotsFrom (Set.mem_insert item seen) items later)
      | cons item' other =>
          rw [snapshotsFrom_cons, snapshotsFrom_cons, List.cons_append, List.cons_append] at heq
          have htail := (List.cons.inj heq).2
          -- the next snapshots are equal, so they add the same element
          have hsets : insert item seen = insert item' seen := by
            obtain ⟨_, hfirst⟩ := snapshotsFrom_eq_cons (insert item seen) items
            obtain ⟨_, hfirst'⟩ := snapshotsFrom_eq_cons (insert item' seen) other
            rw [hfirst, hfirst'] at htail
            exact (List.cons.inj htail).1
          have hitem : item = item' := by
            have hmem : item ∈ insert item' seen := hsets ▸ Set.mem_insert item seen
            rcases Set.mem_insert_iff.mp hmem with hsame | hold
            · exact hsame
            · exact absurd hold hfresh.of_cons.1
          subst hitem
          obtain ⟨rfl, hrest⟩ := ih hfresh.of_cons.2 hfresh'.of_cons.2 htail
          exact ⟨rfl, hrest⟩

/-- The snapshots of sequences without repetitions determine the sequences. -/
theorem flatMap_snapshots_injective {sequences sequences' : List (List α)}
    (hnodup : ∀ items ∈ sequences, items.Nodup) (hnodup' : ∀ items ∈ sequences', items.Nodup)
    (heq : sequences.flatMap snapshots = sequences'.flatMap snapshots) :
    sequences = sequences' := by
  -- a sequence has at least the empty snapshot
  have hne : ∀ (items : List α) (rest : List (List α)),
      (items :: rest).flatMap snapshots ≠ [] := by
    intro items rest hnil
    obtain ⟨later, hcons⟩ := snapshotsFrom_eq_cons ∅ items
    rw [List.flatMap_cons, snapshots, hcons] at hnil
    cases hnil
  induction sequences generalizing sequences' with
  | nil =>
      cases sequences' with
      | nil => rfl
      | cons items rest => exact absurd heq.symm (hne items rest)
  | cons items rest ih =>
      cases sequences' with
      | nil => exact absurd heq (hne items rest)
      | cons items' rest' =>
          rw [List.flatMap_cons, List.flatMap_cons] at heq
          obtain ⟨rfl, hrest⟩ := snapshotsFrom_append_inj
            ⟨hnodup items (by simp), fun _ _ h => h⟩
            ⟨hnodup' items' (by simp), fun _ _ h => h⟩
            (atBoundary_flatMap rest) (atBoundary_flatMap rest') heq
          rw [ih (fun other hm => hnodup other (by simp [hm]))
            (fun other hm => hnodup' other (by simp [hm])) hrest]

end Snapshots
