import Gomoku.Core.Metrics
import Mathlib.Algebra.BigOperators.Group.List.Basic

/-!
# What a metric collector stores

The leaves of a metrics tree are its means, each with the names of the groups above it. A
collector stores, for every path, the mean of all samples of the leaves with that path
(`collected_means`), in whatever order the trees arrive and their groups list their members.
A leaf without a value is what `ConcatMetrics` calls incompatible: it makes the collector
forget the samples of its path for good (`keeps_data_iff`).
-/

namespace Gomoku

/-! ## Leaves -/

mutual

/-- The leaves of a metric, each with the names on the way to it. -/
def Metric.leaves : Metric → List (List String × Metric)
  | .group name metric => (Metric.leavesOf metric).map fun leaf => (name :: leaf.1, leaf.2)
  | .mean name value count => [([name], .mean name value count)]
  | .unset name => [([name], .unset name)]

/-- The leaves of a list of metrics. -/
def Metric.leavesOf : List Metric → List (List String × Metric)
  | [] => []
  | metric :: rest => metric.leaves ++ Metric.leavesOf rest

end

/-- The leaves of `Metrics`. -/
abbrev Metrics.leaves (metrics : Metrics) : List (List String × Metric) := Metric.leavesOf metrics

/-- The names joined by separators, with one in front. -/
def joinNames : List String → String
  | [] => ""
  | name :: rest => "/" ++ name ++ joinNames rest

theorem Metric.leavesOf_eq_flatMap (metrics : List Metric) :
    Metric.leavesOf metrics = metrics.flatMap Metric.leaves := by
  induction metrics with
  | nil => rfl
  | cons metric rest ih => rw [Metric.leavesOf, ih, List.flatMap_cons]

mutual

/-- The visitor is called for the leaves of a metric, with their names joined. -/
theorem iterateFlatMetric_eq (path : String) :
    (metric : Metric) → iterateFlatMetric path metric =
      metric.leaves.map fun leaf => (path ++ joinNames leaf.1, leaf.2)
  | .group name metric => by
      rw [iterateFlatMetric, Metric.leaves, iterateFlatMetrics_eq, List.map_map]
      apply List.map_congr_left
      intro leaf _
      show (path ++ "/" ++ name ++ joinNames leaf.1, leaf.2) =
        (path ++ ("/" ++ name ++ joinNames leaf.1), leaf.2)
      simp only [String.append_assoc]
  | .mean name value count => by
      simp [iterateFlatMetric, Metric.leaves, joinNames, String.append_assoc]
  | .unset name => by
      simp [iterateFlatMetric, Metric.leaves, joinNames, String.append_assoc]

/-- The visitor is called for the leaves of a list of metrics. -/
theorem iterateFlatMetrics_eq (path : String) :
    (metrics : List Metric) → iterateFlatMetrics path metrics =
      (Metric.leavesOf metrics).map fun leaf => (path ++ joinNames leaf.1, leaf.2)
  | [] => rfl
  | metric :: rest => by
      rw [iterateFlatMetrics, Metric.leavesOf, List.map_append, iterateFlatMetric_eq,
        iterateFlatMetrics_eq]

end

/-! ## Rearranged trees -/

/-- The members of some groups of a tree are listed in another order. -/
inductive Rearranged : List Metric → List Metric → Prop where
  | siblings (metrics metrics') : metrics.Perm metrics' → Rearranged metrics metrics'
  | inside (before name inner inner' after) : Rearranged inner inner' →
      Rearranged (before ++ .group name inner :: after) (before ++ .group name inner' :: after)
  | trans (metrics metrics' metrics'') :
      Rearranged metrics metrics' → Rearranged metrics' metrics'' → Rearranged metrics metrics''

/-- Rearranged trees have the same leaves, in another order. -/
theorem Rearranged.leaves_perm {metrics metrics' : List Metric} (h : Rearranged metrics metrics') :
    (Metric.leavesOf metrics).Perm (Metric.leavesOf metrics') := by
  induction h with
  | siblings metrics metrics' hperm =>
      rw [Metric.leavesOf_eq_flatMap, Metric.leavesOf_eq_flatMap]
      exact hperm.flatMap_right _
  | inside before name inner inner' after _ ih =>
      simp only [Metric.leavesOf_eq_flatMap, List.flatMap_append, List.flatMap_cons]
      apply List.Perm.append_left
      apply List.Perm.append_right
      simp only [Metric.leaves]
      exact ih.map _
  | trans _ _ _ _ _ ih ih' => exact ih.trans ih'

/-- Trees in another order, with rearranged groups, have the same leaves in another order. -/
theorem flatMap_leaves_perm {trees rearranged trees' : List Metrics}
    (hinside : List.Forall₂ Rearranged trees rearranged) (hperm : rearranged.Perm trees') :
    (trees.flatMap Metrics.leaves).Perm (trees'.flatMap Metrics.leaves) := by
  have hsame : (trees.flatMap Metrics.leaves).Perm (rearranged.flatMap Metrics.leaves) := by
    clear hperm
    induction hinside with
    | nil => exact List.Perm.refl _
    | cons hhead _ ih => exact hhead.leaves_perm.append ih
  exact hsame.trans (hperm.flatMap_right _)

/-! ## Means -/

/-- The number of samples of a mean. -/
def Metric.count : Metric → Nat
  | .mean _ _ count => count
  | _ => 0

/-- The sum of the samples of a mean. -/
def Metric.sum : Metric → Rat
  | .mean _ value count => count * value
  | _ => 0

/-- The value and the count of a mean. -/
def Metric.sample : Metric → Option (Rat × Nat)
  | .mean _ value count => some (value, count)
  | _ => none

/-- A mean of at least one sample. -/
def Metric.Sampled (metric : Metric) : Prop :=
  ∃ name value count, metric = .mean name value count ∧ 1 ≤ count

namespace MetricCollector

open KeyedUpdates

/-- Sampled means merged one after the other give the mean of all samples. -/
theorem foldl_merge_sampled (metrics : List Metric) (h : ∀ metric ∈ metrics, metric.Sampled) :
    (metrics = [] ∧ metrics.foldl merge none = none) ∨
      (metrics ≠ [] ∧ ∃ label, metrics.foldl merge none = some (.mean label
        ((metrics.map Metric.sum).sum / ((metrics.map Metric.count).sum : Nat))
        (metrics.map Metric.count).sum)) := by
  have hsamples : ∃ samples : List (String × Rat × Nat), metrics = samples.map meanOf ∧
      ∀ sample ∈ samples, 0 < sample.2.2 := by
    induction metrics with
    | nil => exact ⟨[], rfl, by simp⟩
    | cons metric rest ih =>
        obtain ⟨samples, rfl, hcounts⟩ := ih fun other hm => h other (by simp [hm])
        obtain ⟨name, value, count, rfl, hcount⟩ := h metric (by simp)
        refine ⟨(name, value, count) :: samples, rfl, ?_⟩
        rw [List.forall_mem_cons]
        exact ⟨hcount, hcounts⟩
  obtain ⟨samples, rfl, hcounts⟩ := hsamples
  have hmeans := foldl_merge_means samples hcounts
  simp only [List.map_map, ne_eq, List.map_eq_nil_iff]
  exact hmeans

/-- The leaves whose names join to a path. -/
def leavesWith (path : String) (leaves : List (List String × Metric)) : List Metric :=
  (leaves.filter fun leaf => joinNames leaf.1 = path).map Prod.snd

theorem leavesWith_append (path : String) (leaves leaves' : List (List String × Metric)) :
    leavesWith path (leaves ++ leaves') = leavesWith path leaves ++ leavesWith path leaves' := by
  rw [leavesWith, List.filter_append, List.map_append]
  rfl

theorem leavesWith_ne_nil_iff {path : String} {leaves : List (List String × Metric)} :
    leavesWith path leaves ≠ [] ↔ ∃ leaf ∈ leaves, joinNames leaf.1 = path := by
  rw [leavesWith, Ne, List.map_eq_nil_iff, List.filter_eq_nil_iff]
  simp

/-- The collector after the calls of the visitor for some leaves. -/
def collect (leaves : List (List String × Metric)) : MetricCollector :=
  leaves.foldl (fun collector leaf => collector.visit (joinNames leaf.1) leaf.2) new

/-- Appending some trees calls the visitor for their leaves. -/
theorem foldl_append_eq (trees : List Metrics) (collector : MetricCollector) :
    trees.foldl append collector = (trees.flatMap Metrics.leaves).foldl
      (fun collector leaf => collector.visit (joinNames leaf.1) leaf.2) collector := by
  induction trees generalizing collector with
  | nil => rfl
  | cons tree rest ih =>
      rw [List.foldl_cons, ih, List.flatMap_cons, List.foldl_append, append,
        iterateFlatMetrics_eq, List.foldl_map]
      simp only [String.empty_append]

/-- The visitor updates the entries at the joined names of the leaves. -/
theorem collect_metrics (leaves : List (List String × Metric)) :
    (collect leaves).metrics =
      updates ∅ (leaves.map fun leaf => (joinNames leaf.1, change leaf.2)) := by
  have hvisits := visits_metrics (leaves.map fun leaf => (joinNames leaf.1, leaf.2)) new
  rw [List.foldl_map, List.map_map] at hvisits
  exact hvisits

theorem mem_keys_collect (path : String) (leaves : List (List String × Metric)) :
    path ∈ (collect leaves).metrics.keys ↔ ∃ leaf ∈ leaves, joinNames leaf.1 = path := by
  rw [collect_metrics, mem_keys_updates, Finmap.keys_empty,
    or_iff_right (Finset.notMem_empty path)]
  simp only [List.mem_map, exists_exists_and_eq_and]

theorem lookup_collect_leaves (path : String) (leaves : List (List String × Metric)) :
    (collect leaves).metrics.lookup path = (leavesWith path leaves).foldl merge none := by
  rw [collect_metrics, lookup_updates, List.filter_map, List.foldl_map, leavesWith, List.foldl_map]
  simp only [merge_eq]
  rfl

/-- The entry at a path is merged from the leaves whose names join to it. -/
theorem lookup_collected (path : String) (trees : List Metrics) :
    (trees.foldl append new).metrics.lookup path =
      (leavesWith path (trees.flatMap Metrics.leaves)).foldl merge none := by
  rw [foldl_append_eq]
  exact lookup_collect_leaves path _

/-- What is stored for leaves that are all sampled means. -/
theorem lookup_of_sampled {trees : List Metrics}
    (hmeans : ∀ leaf ∈ trees.flatMap Metrics.leaves, leaf.2.Sampled) (path : String) :
    (leavesWith path (trees.flatMap Metrics.leaves) = [] ∧
        (trees.foldl append new).metrics.lookup path = none) ∨
      (leavesWith path (trees.flatMap Metrics.leaves) ≠ [] ∧
        ∃ label, (trees.foldl append new).metrics.lookup path = some (.mean label
          (((leavesWith path (trees.flatMap Metrics.leaves)).map Metric.sum).sum /
            ((leavesWith path (trees.flatMap Metrics.leaves)).map Metric.count).sum)
          ((leavesWith path (trees.flatMap Metrics.leaves)).map Metric.count).sum)) := by
  rw [lookup_collected]
  apply foldl_merge_sampled
  intro metric hm
  obtain ⟨leaf, hleaf, rfl⟩ := List.mem_map.mp hm
  exact hmeans leaf (List.mem_of_mem_filter hleaf)

/-- The value and the count that are stored for leaves that are all sampled means. -/
theorem sample_lookup_of_sampled {trees : List Metrics}
    (hmeans : ∀ leaf ∈ trees.flatMap Metrics.leaves, leaf.2.Sampled) (path : String) :
    ((trees.foldl append new).metrics.lookup path).map Metric.sample =
      if leavesWith path (trees.flatMap Metrics.leaves) = [] then none
      else some (some
        (((leavesWith path (trees.flatMap Metrics.leaves)).map Metric.sum).sum /
          ((leavesWith path (trees.flatMap Metrics.leaves)).map Metric.count).sum,
        ((leavesWith path (trees.flatMap Metrics.leaves)).map Metric.count).sum)) := by
  rcases lookup_of_sampled hmeans path with ⟨hnone, hlookup⟩ | ⟨hsome, label, hlookup⟩
  · rw [hlookup, if_pos hnone]
    rfl
  · rw [hlookup, if_neg hsome]
    rfl

/-- The same sampled means in another order give the same values and counts. -/
theorem sample_lookup_perm {trees trees' : List Metrics}
    (h : (trees.flatMap Metrics.leaves).Perm (trees'.flatMap Metrics.leaves))
    (hmeans : ∀ leaf ∈ trees.flatMap Metrics.leaves, leaf.2.Sampled) (path : String) :
    ((trees.foldl append new).metrics.lookup path).map Metric.sample =
      ((trees'.foldl append new).metrics.lookup path).map Metric.sample := by
  have hmeans' : ∀ leaf ∈ trees'.flatMap Metrics.leaves, leaf.2.Sampled :=
    fun leaf hleaf => hmeans leaf (h.mem_iff.mpr hleaf)
  have hwith : (leavesWith path (trees.flatMap Metrics.leaves)).Perm
      (leavesWith path (trees'.flatMap Metrics.leaves)) := (h.filter _).map _
  have hempty : leavesWith path (trees.flatMap Metrics.leaves) = [] ↔
      leavesWith path (trees'.flatMap Metrics.leaves) = [] := by
    rw [← List.length_eq_zero_iff, ← List.length_eq_zero_iff, hwith.length_eq]
  rw [sample_lookup_of_sampled hmeans, sample_lookup_of_sampled hmeans',
    (hwith.map Metric.sum).sum_eq, (hwith.map Metric.count).sum_eq]
  simp only [hempty]

/-- For any trees whose leaves are means of at least one sample: the keys are the joined names of the
leaves, and the entry at a path counts the samples of all leaves with that path and has their
mean as its value. The order of the trees and of the members of their groups does not
matter. -/
theorem collected_means (trees : List Metrics)
    (hmeans : ∀ tree ∈ trees, ∀ leaf ∈ tree.leaves,
      ∃ name value count, leaf.2 = .mean name value count ∧ 1 ≤ count) :
    let stored := (trees.foldl append new).metrics
    let leaves := trees.flatMap Metrics.leaves
    (∀ path, path ∈ stored.keys ↔ ∃ leaf ∈ leaves, joinNames leaf.1 = path) ∧
    (∀ path ∈ stored.keys, ∃ label, stored.lookup path = some (.mean label
      (((leavesWith path leaves).map Metric.sum).sum /
        ((leavesWith path leaves).map Metric.count).sum)
      ((leavesWith path leaves).map Metric.count).sum)) ∧
    ∀ rearranged trees', List.Forall₂ Rearranged trees rearranged → rearranged.Perm trees' →
      ∀ path, ((trees'.foldl append new).metrics.lookup path).map Metric.sample =
        (stored.lookup path).map Metric.sample := by
  intro stored leaves
  have hsampled : ∀ leaf ∈ leaves, leaf.2.Sampled := by
    intro leaf hleaf
    obtain ⟨tree, htree, hmem⟩ := List.mem_flatMap.mp hleaf
    exact hmeans tree htree leaf hmem
  have hkeys : ∀ path, path ∈ stored.keys ↔ ∃ leaf ∈ leaves, joinNames leaf.1 = path := by
    intro path
    show path ∈ (trees.foldl append new).metrics.keys ↔ _
    rw [foldl_append_eq]
    exact mem_keys_collect path leaves
  refine ⟨hkeys, fun path hpath => ?_, fun rearranged trees' hinside hperm path => ?_⟩
  · rcases lookup_of_sampled hsampled path with ⟨hnone, _⟩ | ⟨_, hlookup⟩
    · exact absurd hnone (leavesWith_ne_nil_iff.mpr ((hkeys path).mp hpath))
    · exact hlookup
  · exact (sample_lookup_perm (flatMap_leaves_perm hinside hperm) hsampled path).symm

/-- A mean in a group and a mean whose name contains a separator have the same path. -/
theorem collected_means_two_trees :
    ((([[.group "a" [.mean "b" 1 1]], [.mean "a/b" 4 2]] : List Metrics).foldl append
      new).metrics.lookup "/a/b").map Metric.sample = some (some (3, 3)) := by
  have hmeans := collected_means [[.group "a" [.mean "b" 1 1]], [.mean "a/b" 4 2]] (by
    simp [Metrics.leaves, Metric.leavesOf, Metric.leaves])
  have hleaves : leavesWith "/a/b" (([[.group "a" [.mean "b" 1 1]], [.mean "a/b" 4 2]] :
      List Metrics).flatMap Metrics.leaves) = [.mean "b" 1 1, .mean "a/b" 4 2] := by
    simp [leavesWith, Metrics.leaves, Metric.leavesOf, Metric.leaves, joinNames]
  obtain ⟨label, hlookup⟩ := hmeans.2.1 "/a/b" ((hmeans.1 "/a/b").mpr
    ⟨(["a", "b"], .mean "b" 1 1), by simp [Metrics.leaves, Metric.leavesOf, Metric.leaves], rfl⟩)
  rw [hlookup, hleaves]
  norm_num [Metric.sum, Metric.count, Metric.sample]

end MetricCollector

/-! ## Incompatible metrics -/

/-- The metric has a mean. -/
def Metric.isMean : Metric → Bool
  | .mean _ _ _ => true
  | _ => false

theorem Metric.sample_of_not_isMean {metric : Metric} (h : metric.isMean = false) :
    metric.sample = none := by
  cases metric with
  | mean name value count => cases h
  | group name metric => rfl
  | unset name => rfl

theorem Metric.sample_ne_none {metric : Metric} (h : metric.isMean = true) :
    metric.sample ≠ none := by
  cases metric with
  | mean name value count => simp [Metric.sample]
  | group name metric => cases h
  | unset name => cases h

/-- Only two means make a mean. -/
theorem isMean_concatMetrics (left right : Metric) :
    (concatMetrics left right).isMean = (left.isMean && right.isMean) := by
  cases left <;> cases right <;> rfl

theorem isMean_foldl_concatMetrics (metrics : List Metric) (stored : Metric) :
    (metrics.foldl concatMetrics stored).isMean = (stored.isMean && metrics.all Metric.isMean) := by
  induction metrics generalizing stored with
  | nil => simp
  | cons metric rest ih =>
      rw [List.foldl_cons, ih, isMean_concatMetrics, List.all_cons, Bool.and_assoc]

namespace MetricCollector

/-- Merging into an entry. -/
theorem foldl_merge_eq_some (metrics : List Metric) (stored : Metric) :
    metrics.foldl merge (some stored) = some (metrics.foldl concatMetrics stored) := by
  induction metrics generalizing stored with
  | nil => rfl
  | cons metric rest ih =>
      rw [List.foldl_cons, List.foldl_cons, ← ih]
      rfl

/-- An entry was made by the first leaf of its path. -/
theorem lookup_collect_eq_some {path : String} {leaves : List (List String × Metric)}
    {stored : Metric} (h : (collect leaves).metrics.lookup path = some stored) :
    ∃ first rest, leavesWith path leaves = first :: rest ∧
      stored = rest.foldl concatMetrics first := by
  rw [lookup_collect_leaves] at h
  cases hleaves : leavesWith path leaves with
  | nil =>
      rw [hleaves] at h
      cases h
  | cons first rest =>
      rw [hleaves, List.foldl_cons] at h
      exact ⟨first, rest, rfl, Option.some.inj (h.symm.trans (foldl_merge_eq_some rest first))⟩

/-- What later leaves make of an entry. -/
theorem lookup_collect_append {path : String} {leaves leaves' : List (List String × Metric)}
    {stored : Metric} (h : (collect leaves).metrics.lookup path = some stored) :
    (collect (leaves ++ leaves')).metrics.lookup path =
      some ((leavesWith path leaves').foldl concatMetrics stored) := by
  rw [lookup_collect_leaves] at h ⊢
  rw [leavesWith_append, List.foldl_append, h, foldl_merge_eq_some]

/-- While some trees are appended, an incompatible metric does not destroy what was collected: a
leaf that cannot be merged into the entry at its path leaves the value and the count of the
entry as they are, and an entry with a mean is still merged with all later means of its
path. -/
structure KeepsData (trees : List Metrics) : Prop where
  unchanged : ∀ before leaf after, trees.flatMap Metrics.leaves = before ++ leaf :: after →
    ∀ stored, (collect before).metrics.lookup (joinNames leaf.1) = some stored →
      ¬ (stored.isMean ∧ leaf.2.isMean) →
      ((collect (before ++ [leaf])).metrics.lookup (joinNames leaf.1)).map Metric.sample =
        some stored.sample
  merged : ∀ before after, trees.flatMap Metrics.leaves = before ++ after →
    ∀ path stored, (collect before).metrics.lookup path = some stored → stored.isMean →
      ((collect (before ++ after)).metrics.lookup path).map Metric.sample =
        some (((leavesWith path after).filter Metric.isMean).foldl concatMetrics stored).sample

/-- At every path, the first leaf is no mean or all leaves are means. -/
def Compatible (leaves : List (List String × Metric)) : Prop :=
  ∀ path first rest, leavesWith path leaves = first :: rest → first.isMean →
    ∀ metric ∈ rest, metric.isMean

/-- An incompatible leaf meets only entries without a mean. -/
theorem Compatible.not_isMean {before after : List (List String × Metric)}
    {leaf : List String × Metric} {stored : Metric} (h : Compatible (before ++ leaf :: after))
    (hstored : (collect before).metrics.lookup (joinNames leaf.1) = some stored)
    (hmerge : ¬ (stored.isMean ∧ leaf.2.isMean)) : stored.isMean = false := by
  obtain ⟨first, rest, hbefore, rfl⟩ := lookup_collect_eq_some hstored
  by_contra hmean
  rw [Bool.not_eq_false, isMean_foldl_concatMetrics, Bool.and_eq_true] at hmean
  have hleaves : leavesWith (joinNames leaf.1) (before ++ leaf :: after) =
      first :: (rest ++ leaf.2 :: leavesWith (joinNames leaf.1) after) := by
    rw [leavesWith_append, hbefore]
    simp [leavesWith]
  have hleaf := h _ first _ hleaves hmean.1 leaf.2 (by simp)
  exact hmerge ⟨by rw [isMean_foldl_concatMetrics, Bool.and_eq_true]; exact hmean, hleaf⟩

/-- After a mean, all later leaves of the path are means. -/
theorem Compatible.filter_eq {before after : List (List String × Metric)} {path : String}
    {stored : Metric} (h : Compatible (before ++ after))
    (hstored : (collect before).metrics.lookup path = some stored) (hmean : stored.isMean = true) :
    (leavesWith path after).filter Metric.isMean = leavesWith path after := by
  obtain ⟨first, rest, hbefore, rfl⟩ := lookup_collect_eq_some hstored
  rw [isMean_foldl_concatMetrics, Bool.and_eq_true] at hmean
  rw [List.filter_eq_self]
  intro metric hm
  have hleaves : leavesWith path (before ++ after) = first :: (rest ++ leavesWith path after) := by
    rw [leavesWith_append, hbefore, List.cons_append]
  exact h path first _ hleaves hmean.1 metric (by simp [hm])

/-- The leaves with a path, from the first of them on. -/
theorem exists_of_leavesWith_eq_cons {path : String} {leaves : List (List String × Metric)}
    {first : Metric} {rest : List Metric} (h : leavesWith path leaves = first :: rest) :
    ∃ before after, leaves = before ++ after ∧ leavesWith path before = [first] ∧
      leavesWith path after = rest := by
  obtain ⟨leaf, leaves', hfilter, rfl, rfl⟩ := List.map_eq_cons_iff.mp h
  obtain ⟨before, after, rfl, hbefore, hleaf, hafter⟩ := List.filter_eq_cons_iff.mp hfilter
  refine ⟨before ++ [leaf], after, by simp, ?_, ?_⟩
  · have hnone : before.filter (fun leaf => joinNames leaf.1 = path) = [] :=
      List.filter_eq_nil_iff.mpr hbefore
    rw [leavesWith, List.filter_append, hnone]
    simp [hleaf]
  · rw [leavesWith, hafter]

/-- For any trees appended to a new collector: incompatible metrics do not destroy what was
collected exactly when at every path the first leaf is no mean or all leaves are means. -/
theorem keeps_data_iff (trees : List Metrics) :
    KeepsData trees ↔ Compatible (trees.flatMap Metrics.leaves) := by
  constructor
  · intro hkeeps path first rest hleaves hfirst metric hm
    obtain ⟨before, after, hsplit, hbefore, rfl⟩ := exists_of_leavesWith_eq_cons hleaves
    have hstored : (collect before).metrics.lookup path = some first := by
      rw [lookup_collect_leaves, hbefore]
      rfl
    have hmerged := hkeeps.merged before after hsplit path first hstored hfirst
    rw [lookup_collect_append hstored] at hmerged
    by_contra hnot
    -- the incompatible leaf has removed the mean, the means alone would have kept it
    have hlost : ((leavesWith path after).foldl concatMetrics first).isMean = false := by
      rw [isMean_foldl_concatMetrics, Bool.and_eq_false_iff, List.all_eq_false]
      exact Or.inr ⟨metric, hm, hnot⟩
    have hkept : (((leavesWith path after).filter Metric.isMean).foldl concatMetrics
        first).isMean = true := by
      rw [isMean_foldl_concatMetrics, Bool.and_eq_true, List.all_filter]
      exact ⟨hfirst, by simp⟩
    apply Metric.sample_ne_none hkept
    rw [← Option.some.inj hmerged]
    exact Metric.sample_of_not_isMean hlost
  · intro hcompatible
    refine ⟨fun before leaf after hsplit stored hstored hmerge => ?_,
      fun before after hsplit path stored hstored hmean => ?_⟩
    · rw [hsplit] at hcompatible
      have hnone := hcompatible.not_isMean hstored hmerge
      rw [lookup_collect_append hstored, Option.map_some, Metric.sample_of_not_isMean hnone]
      congr 1
      apply Metric.sample_of_not_isMean
      rw [isMean_foldl_concatMetrics, hnone, Bool.false_and]
    · rw [hsplit] at hcompatible
      rw [lookup_collect_append hstored, hcompatible.filter_eq hstored hmean, Option.map_some]

/-- A metric without a value between two samples: the collector has neither of the samples. -/
theorem not_keeps_data_unset :
    (([[.mean "a" 1 1]] : List Metrics).foldl append new).metrics.lookup "/a" =
        some (.mean "a" 1 1) ∧
      (([[.mean "a" 1 1], [.unset "a"]] : List Metrics).foldl append new).metrics.lookup "/a" =
        some (.unset "") ∧
      (([[.mean "a" 1 1], [.unset "a"], [.mean "a" 3 1]] : List Metrics).foldl append
        new).metrics.lookup "/a" = some (.unset "") ∧
      ¬ KeepsData [[.mean "a" 1 1], [.unset "a"], [.mean "a" 3 1]] := by
  have hfirst : (collect [(["a"], .mean "a" 1 1)]).metrics.lookup "/a" = some (.mean "a" 1 1) := by
    simp [lookup_collect_leaves, leavesWith, joinNames, merge]
  refine ⟨?_, ?_, ?_, fun hkeeps => ?_⟩
  · rw [foldl_append_eq]
    exact hfirst
  · rw [lookup_collected]
    simp [leavesWith, Metric.leavesOf, Metric.leaves, joinNames, merge, concatMetrics]
  · rw [lookup_collected]
    simp [leavesWith, Metric.leavesOf, Metric.leaves, joinNames, merge, concatMetrics]
  · have hmerged := hkeeps.merged [(["a"], .mean "a" 1 1)]
      [(["a"], .unset "a"), (["a"], .mean "a" 3 1)] rfl "/a" _ hfirst rfl
    rw [lookup_collect_append hfirst] at hmerged
    simp [leavesWith, joinNames, concatMetrics, List.filter, Metric.isMean,
      Metric.sample] at hmerged

end MetricCollector

end Gomoku
