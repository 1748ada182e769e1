import Gomoku.Core.Messages
import Gomoku.Library.KeyedUpdates
import Mathlib.Algebra.Field.Rat
import Mathlib.Tactic.FieldSimp
import Mathlib.Tactic.Ring

/-!
# Collecting metrics

`MetricCollector` of `core/metrics.cc`. A tree of metrics is flattened to its leaves, each with
the path of the names above it (`iterateFlatMetrics`), and the leaves with one path are merged
in the order in which they arrive (`lookup_collect`). Means are merged to the mean of
all samples (`foldl_merge_means`). Values and counts are exact numbers.
-/

namespace Gomoku

mutual

/-- The calls of the visitor that `IterateFlatMetrics` makes for one metric below a path. -/
def iterateFlatMetric (path : String) : Metric → List (String × Metric)
  | .group name metric => iterateFlatMetrics (path ++ "/" ++ name) metric
  | .mean name value count => [(path ++ "/" ++ name, .mean name value count)]
  | .unset name => [(path ++ "/" ++ name, .unset name)]

/-- `IterateFlatMetrics`: the calls of the visitor, in order. -/
def iterateFlatMetrics (path : String) : List Metric → List (String × Metric)
  | [] => []
  | metric :: rest => iterateFlatMetric path metric ++ iterateFlatMetrics path rest

end

theorem iterateFlatMetrics_append (path : String) (metrics metrics' : List Metric) :
    iterateFlatMetrics path (metrics ++ metrics') =
      iterateFlatMetrics path metrics ++ iterateFlatMetrics path metrics' := by
  induction metrics with
  | nil => simp [iterateFlatMetrics]
  | cons metric rest ih =>
      rw [List.cons_append, iterateFlatMetrics, iterateFlatMetrics, ih, List.append_assoc]

/-- `ConcatMetrics`. Metrics that are not both means are logged and give a metric without a
value. -/
def concatMetrics : Metric → Metric → Metric
  | .mean _ leftValue leftCount, .mean _ rightValue rightCount =>
      let totalCount := leftCount + rightCount
      let leftCoeff := (leftCount : Rat) / totalCount
      let rightCoeff := (rightCount : Rat) / totalCount
      .mean "" (leftCoeff * leftValue + rightCoeff * rightValue) totalCount
  | _, _ => .unset ""

/-- `MetricCollector`, with its map from paths to metrics. -/
structure MetricCollector where
  metrics : Finmap fun _ : String => Metric

namespace MetricCollector

open KeyedUpdates

/-- A collector before the first metrics. -/
def new : MetricCollector := ⟨∅⟩

/-- The visitor of `MetricCollector::Append`. -/
def visit (collector : MetricCollector) (path : String) (metric : Metric) : MetricCollector :=
  match collector.metrics.lookup path with
  | none => ⟨collector.metrics.insert path metric⟩
  | some stored => ⟨collector.metrics.insert path (concatMetrics stored metric)⟩

/-- `MetricCollector::Append`. -/
def append (collector : MetricCollector) (metrics : Metrics) : MetricCollector :=
  (iterateFlatMetrics "" metrics).foldl (fun collector leaf => collector.visit leaf.1 leaf.2)
    collector

/-- What a leaf makes of the entry at its path. -/
def merge (entry : Option Metric) (metric : Metric) : Option Metric :=
  match entry with
  | none => some metric
  | some stored => some (concatMetrics stored metric)

/-- The metric that a leaf leaves at its path. -/
def change (metric : Metric) (entry : Option Metric) : Metric :=
  match entry with
  | none => metric
  | some stored => concatMetrics stored metric

theorem merge_eq (entry : Option Metric) (metric : Metric) :
    merge entry metric = some (change metric entry) := by
  cases entry with
  | none => rfl
  | some stored => rfl

/-- A call of the visitor updates the entry at its path. -/
theorem visit_metrics (collector : MetricCollector) (path : String) (metric : Metric) :
    (collector.visit path metric).metrics = update collector.metrics path (change metric) := by
  unfold visit update change
  cases collector.metrics.lookup path with
  | none => rfl
  | some stored => rfl

/-- Calls of the visitor update the entries at their paths. -/
theorem visits_metrics (leaves : List (String × Metric)) (collector : MetricCollector) :
    (leaves.foldl (fun collector leaf => collector.visit leaf.1 leaf.2) collector).metrics =
      updates collector.metrics (leaves.map fun leaf => (leaf.1, change leaf.2)) := by
  induction leaves generalizing collector with
  | nil => rfl
  | cons leaf rest ih =>
      rw [List.foldl_cons, ih, visit_metrics]
      rfl

/-- The metrics of the leaves with a path. -/
def leavesAt (path : String) (leaves : List (String × Metric)) : List Metric :=
  (leaves.filter fun leaf => leaf.1 = path).map Prod.snd

@[simp] theorem leavesAt_nil (path : String) : leavesAt path [] = [] := rfl

theorem leavesAt_append (path : String) (leaves leaves' : List (String × Metric)) :
    leavesAt path (leaves ++ leaves') = leavesAt path leaves ++ leavesAt path leaves' := by
  simp [leavesAt]

/-- The entry at a path after some leaves is merged from the leaves with that path. -/
theorem lookup_visits (path : String) (leaves : List (String × Metric))
    (collector : MetricCollector) :
    (leaves.foldl (fun collector leaf => collector.visit leaf.1 leaf.2)
        collector).metrics.lookup path =
      (leavesAt path leaves).foldl merge (collector.metrics.lookup path) := by
  rw [visits_metrics, lookup_updates, List.filter_map, List.foldl_map, leavesAt, List.foldl_map]
  simp only [merge_eq]
  rfl

/-- The entry at a path after appending some trees is merged from all leaves with that path. -/
theorem lookup_collect (path : String) (trees : List Metrics) (collector : MetricCollector) :
    (trees.foldl append collector).metrics.lookup path =
      (trees.flatMap fun tree => leavesAt path (iterateFlatMetrics "" tree)).foldl merge
        (collector.metrics.lookup path) := by
  induction trees generalizing collector with
  | nil => rfl
  | cons tree rest ih =>
      rw [List.foldl_cons, ih, append, lookup_visits, List.flatMap_cons, List.foldl_append]

/-- A mean as a metric: name, value and count. -/
def meanOf (sample : String × Rat × Nat) : Metric := .mean sample.1 sample.2.1 sample.2.2

/-- Means merged into a mean give the mean of all samples. -/
theorem foldl_merge_some (samples : List (String × Rat × Nat)) (name : String) (value : Rat)
    {count : Nat} (hcount : 0 < count) :
    ∃ label, (samples.map meanOf).foldl merge (some (.mean name value count)) =
      some (.mean label
        ((count * value + (samples.map fun sample => (sample.2.2 : Rat) * sample.2.1).sum) /
          (count + (samples.map fun sample => sample.2.2).sum : Nat))
        (count + (samples.map fun sample => sample.2.2).sum)) := by
  have hne : (count : Rat) ≠ 0 := by
    rw [Nat.cast_ne_zero]
    omega
  induction samples generalizing name value count with
  | nil =>
      refine ⟨name, ?_⟩
      have hvalue : (count : Rat) * value / count = value := by
        field_simp
      simp [hvalue]
  | cons sample rest ih =>
      have htotal : 0 < count + sample.2.2 := by omega
      have htotal' : ((count + sample.2.2 : Nat) : Rat) ≠ 0 := by
        rw [Nat.cast_ne_zero]
        omega
      obtain ⟨label, hlabel⟩ := ih ""
        ((count : Rat) / (count + sample.2.2 : Nat) * value +
          (sample.2.2 : Rat) / (count + sample.2.2 : Nat) * sample.2.1) htotal htotal'
      have hsum : ((count + sample.2.2 : Nat) : Rat) *
          ((count : Rat) / (count + sample.2.2 : Nat) * value +
            (sample.2.2 : Rat) / (count + sample.2.2 : Nat) * sample.2.1) =
          count * value + sample.2.2 * sample.2.1 := by
        field_simp
      refine ⟨label, ?_⟩
      rw [List.map_cons, List.foldl_cons]
      show (rest.map meanOf).foldl merge (some (.mean "" _ _)) = _
      rw [hlabel, hsum]
      simp only [List.map_cons, List.sum_cons, add_assoc]

/-- Means collected at a path give the mean of all samples. -/
theorem foldl_merge_means (samples : List (String × Rat × Nat))
    (hcount : ∀ sample ∈ samples, 0 < sample.2.2) :
    (samples = [] ∧ (samples.map meanOf).foldl merge none = none) ∨
      (samples ≠ [] ∧ ∃ label, (samples.map meanOf).foldl merge none =
        some (.mean label
          ((samples.map fun sample => (sample.2.2 : Rat) * sample.2.1).sum /
            ((samples.map fun sample => sample.2.2).sum : Nat))
          (samples.map fun sample => sample.2.2).sum)) := by
  cases samples with
  | nil => exact Or.inl ⟨rfl, rfl⟩
  | cons sample rest =>
      right
      obtain ⟨label, hlabel⟩ := foldl_merge_some rest sample.1 sample.2.1
        (hcount sample (by simp))
      refine ⟨by simp, label, ?_⟩
      rw [List.map_cons, List.foldl_cons]
      show (rest.map meanOf).foldl merge (some (.mean sample.1 sample.2.1 sample.2.2)) = _
      rw [hlabel]
      simp only [List.map_cons, List.sum_cons]

end MetricCollector

end Gomoku
