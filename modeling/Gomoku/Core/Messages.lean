import Gomoku.Core.Board
import Mathlib.Data.Rat.Defs

/-!
# The protocol messages

The messages of `core/recording.proto`, `core/metrics.proto`, `actors/actor_spec.proto` and
`ladder/worker.proto`, with the functions of `core/metrics.cc` and `actors/actor_config.cc`
that build and read them. Metric values and configuration floats are exact numbers. The
score of a recording has an arbitrary type of numbers.
-/

namespace Gomoku

/-- `Recording`: the moves of a game and its score. -/
structure Recording (R : Type) where
  move : List Vector2i
  score : R
  deriving DecidableEq

/-- `Metric`: a mean, a named group, or a metric without a value. -/
inductive Metric where
  | mean (name : String) (value : Rat) (count : Nat)
  | group (name : String) (metric : List Metric)
  | unset (name : String)

/-- `Metrics`. -/
abbrev Metrics := List Metric

/-- `AddMetricMean` with a name. -/
def addMetricMean (metrics : Metrics) (name : String) (value : Rat) : Metrics :=
  metrics ++ [.mean name value 1]

/-- `AddMetricMean` with a name and a key. -/
def addMetricMeanAt (metrics : Metrics) (name : String) (key : Int) (value : Rat) : Metrics :=
  addMetricMean metrics (name ++ "/" ++ toString key) value

/-- `ActorConfig::Item`. -/
structure ConfigItem where
  key : String
  string : String
  floating : Rat
  integer : Int

/-- `ActorConfig`. -/
structure ActorConfig where
  item : List ConfigItem

/-- `GetConfigString`: the string of the first item with the key. -/
def getConfigString (config : ActorConfig) (key : String) : Option String :=
  (config.item.find? fun item => item.key == key).map ConfigItem.string

/-- `ActorSpec`. -/
structure ActorSpec where
  name : String
  type : String
  config : ActorConfig

/-- `PlayGameRequest`. -/
structure PlayGameRequest where
  firstPlayer : ActorSpec
  secondPlayer : ActorSpec
  moveTimeLimitMicros : Nat
  seed : Int

/-- `PlayGameResponse`. -/
structure PlayGameResponse where
  recording : Recording Rat
  metrics : Metrics

end Gomoku
