import Mathlib.Algebra.BigOperators.Group.Finset.Basic
import Mathlib.Data.Finmap

/-!
# Finite maps updated one key at a time

`update` replaces the entry of a key by a function of what was there, which may have been
nothing. A list of updates changes the entry of a key by its own updates only
(`lookup_updates`), so the order of the updates does not matter as long as those of the same
key commute (`updates_perm`). A quantity summed over all entries changes by what the updates
add to it (`total_update`).
-/

namespace KeyedUpdates

variable {K V : Type} [DecidableEq K]

/-- The map after the entry of a key has been replaced by a function of the old entry. -/
def update (map : Finmap fun _ : K => V) (key : K) (change : Option V → V) :
    Finmap fun _ : K => V :=
  map.insert key (change (map.lookup key))

/-- An update changes the entry at its key and no other. -/
theorem lookup_update (map : Finmap fun _ : K => V) (updated key : K) (change : Option V → V) :
    (update map updated change).lookup key =
      if updated = key then some (change (map.lookup key)) else map.lookup key := by
  unfold update
  by_cases hkey : updated = key
  · subst hkey
    rw [if_pos rfl, Finmap.lookup_insert]
  · have hne : key ≠ updated := fun h => hkey h.symm
    rw [if_neg hkey, Finmap.lookup_insert_of_ne _ hne]

theorem keys_update (map : Finmap fun _ : K => V) (key : K) (change : Option V → V) :
    (update map key change).keys = insert key map.keys := by
  ext other
  simp [update, Finmap.mem_keys, Finmap.mem_insert]

/-- Updates of the same key commute if their changes do, all others always do. -/
theorem update_comm (map : Finmap fun _ : K => V) {key key' : K} {change change' : Option V → V}
    (hcomm : key = key' → ∀ entry, change (some (change' entry)) = change' (some (change entry))) :
    update (update map key change) key' change' =
      update (update map key' change') key change := by
  apply Finmap.ext_lookup
  intro other
  simp only [lookup_update]
  by_cases hkey : key = other
  · by_cases hkey' : key' = other
    · simp only [if_pos hkey, if_pos hkey']
      rw [hcomm (hkey.trans hkey'.symm)]
    · simp only [if_pos hkey, if_neg hkey']
  · simp only [if_neg hkey]

/-! ## Lists of updates -/

/-- The map after some updates, in order. -/
def updates (map : Finmap fun _ : K => V) (changes : List (K × (Option V → V))) :
    Finmap fun _ : K => V :=
  changes.foldl (fun map change => update map change.1 change.2) map

theorem updates_append (map : Finmap fun _ : K => V) (changes changes' : List (K × (Option V → V))) :
    updates map (changes ++ changes') = updates (updates map changes) changes' :=
  List.foldl_append

/-- The entry of a key is changed by the updates of that key, in order. -/
theorem lookup_updates (map : Finmap fun _ : K => V) (changes : List (K × (Option V → V)))
    (key : K) :
    (updates map changes).lookup key =
      (changes.filter fun change => change.1 = key).foldl
        (fun entry change => some (change.2 entry)) (map.lookup key) := by
  induction changes generalizing map with
  | nil => rfl
  | cons change rest ih =>
      show (updates (update map change.1 change.2) rest).lookup key = _
      rw [ih, lookup_update]
      by_cases hkey : change.1 = key
      · simp [hkey]
      · simp [hkey]

theorem mem_keys_updates (map : Finmap fun _ : K => V) (changes : List (K × (Option V → V)))
    (key : K) :
    key ∈ (updates map changes).keys ↔ key ∈ map.keys ∨ ∃ change ∈ changes, change.1 = key := by
  induction changes generalizing map with
  | nil => simp [updates]
  | cons change rest ih =>
      show key ∈ (updates (update map change.1 change.2) rest).keys ↔ _
      rw [ih, keys_update, Finset.mem_insert, List.exists_mem_cons_iff, eq_comm, or_assoc,
        or_left_comm]

/-- Commuting updates lead to the same map in any order. -/
theorem updates_perm {changes changes' : List (K × (Option V → V))} (h : changes.Perm changes')
    (hcomm : ∀ change ∈ changes, ∀ other ∈ changes, ∀ entry,
      change.2 (some (other.2 entry)) = other.2 (some (change.2 entry)))
    (map : Finmap fun _ : K => V) : updates map changes = updates map changes' := by
  apply h.foldl_eq'
  intro change hchange other hother map
  exact update_comm map fun _ => hcomm change hchange other hother

/-! ## Sums over the entries -/

section Total

variable {M : Type} [AddCommMonoid M]

/-- The sum of a quantity over all entries. -/
def total (map : Finmap fun _ : K => V) (quantity : Option V → M) : M :=
  ∑ key ∈ map.keys, quantity (map.lookup key)

/-- An update that adds to a quantity adds as much to its sum. -/
theorem total_update (map : Finmap fun _ : K => V) (key : K) (change : Option V → V)
    (quantity : Option V → M) (amount : M) (hnone : quantity none = 0)
    (hchange : quantity (some (change (map.lookup key))) = quantity (map.lookup key) + amount) :
    total (update map key change) quantity = total map quantity + amount := by
  have hmem : key ∈ insert key map.keys := Finset.mem_insert_self key _
  have hrest : ∑ other ∈ (insert key map.keys).erase key,
        quantity ((update map key change).lookup other) =
      ∑ other ∈ (insert key map.keys).erase key, quantity (map.lookup other) := by
    apply Finset.sum_congr rfl
    intro other hother
    have hne : key ≠ other := (Finset.ne_of_mem_erase hother).symm
    rw [lookup_update, if_neg hne]
  -- a key without an entry adds nothing to the sum before the update
  have hbefore : total map quantity = ∑ other ∈ insert key map.keys, quantity (map.lookup other) := by
    unfold total
    symm
    apply Finset.sum_insert_of_eq_zero_if_notMem
    intro hnew
    rw [Finmap.mem_keys, ← Finmap.lookup_eq_none] at hnew
    rw [hnew, hnone]
  rw [hbefore]
  unfold total
  rw [keys_update, ← Finset.add_sum_erase _ _ hmem, hrest, lookup_update, if_pos rfl, hchange,
    add_right_comm, Finset.add_sum_erase (insert key map.keys) (fun other =>
      quantity (map.lookup other)) hmem]

end Total

end KeyedUpdates
