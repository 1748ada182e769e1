import Gomoku.Core.Messages
import Gomoku.Library.Random
import Mathlib.Data.Finmap

/-!
# Ladders

`ladder/ladder.h` and `ladder/ladder.cc`. `Ladder` is what the supervisor uses of the class: it
asks for requests and reports completed games. `BasicLadder` pairs the actors of its
specification at random and counts games and wins by name. The statistics are a finite map,
in which `stats_[name]` inserts zeros for a new name; `LogStats` asserts that every actor of
the specification has an entry.
-/

namespace Gomoku

open Execution Random

/-- `Ladder`. -/
structure Ladder where
  State : Type
  prepareGameRequest : State → Result (PlayGameRequest × State)
  gameCompleted : State → PlayGameRequest → PlayGameResponse → State

/-- `LadderSpec`. -/
structure LadderSpec where
  name : String
  moveTimeLimitMicros : Nat
  actorSpec : List ActorSpec

/-- `BasicLadder::ActorStats`. -/
structure ActorStats where
  won : Int := 0
  games : Int := 0

/-- The members of `BasicLadder`, where `rng` is what the random device is going to deliver. -/
structure BasicLadder where
  ladderSpec : LadderSpec
  rng : Rng
  stats : Finmap fun _ : String => ActorStats

namespace BasicLadder

/-- `BasicLadder::PrepareGameRequest`. With fewer than two actors a draw has an empty range. -/
def prepareGameRequest (ladder : BasicLadder) : Result (PlayGameRequest × BasicLadder) :=
  let actors := ladder.ladderSpec.actorSpec
  if actors.length < 2 then .error .outOfRange
  else
    let (first, rng) := uniformInt 0 (actors.length - 1) ladder.rng
    let (second, rng) := uniformInt 0 (actors.length - 2) rng
    let second := if second ≥ first then second + 1 else second
    match actors[first.toNat]?, actors[second.toNat]? with
    | some firstPlayer, some secondPlayer =>
        .ok (⟨firstPlayer, secondPlayer, ladder.ladderSpec.moveTimeLimitMicros,
          (rng.draw 0 % 2 ^ 32 : Nat)⟩, { ladder with rng := rng.tail })
    | _, _ => .error .outOfRange

/-- Change the entry of a name, inserting zeros first if there is none. -/
def updateStats (stats : Finmap fun _ : String => ActorStats) (name : String)
    (change : ActorStats → ActorStats) : Finmap fun _ : String => ActorStats :=
  stats.insert name (change ((stats.lookup name).getD {}))

/-- `BasicLadder::GameCompleted`. -/
def gameCompleted (ladder : BasicLadder) (request : PlayGameRequest)
    (response : PlayGameResponse) : BasicLadder :=
  let (winner, loser) :=
    if response.recording.score ≥ 1 / 2 then
      (request.firstPlayer.name, request.secondPlayer.name)
    else (request.secondPlayer.name, request.firstPlayer.name)
  let stats := updateStats ladder.stats winner fun stats => { stats with won := stats.won + 1 }
  let stats := updateStats stats winner fun stats => { stats with games := stats.games + 1 }
  let stats := updateStats stats loser fun stats => { stats with games := stats.games + 1 }
  { ladder with stats }

/-- `BasicLadder::LogStats`: the lines that are logged, where `printFloat` prints the quotient of
two numbers. -/
def logStats (printFloat : Rat → String) (ladder : BasicLadder) : Result (List String) :=
  ladder.ladderSpec.actorSpec.foldlM
    (fun lines actorSpec => do
      let stats := ladder.stats.lookup actorSpec.name
      check "stats != nullptr" stats.isSome
      let stats := stats.getD {}
      return lines ++ ["Actor " ++ actorSpec.name ++ ": " ++ toString stats.won ++ "/" ++
        toString stats.games ++ " = " ++ printFloat (stats.won / stats.games)])
    ["Statistics for ladder " ++ ladder.ladderSpec.name ++ ":"]

end BasicLadder

/-- The ladder of the program. -/
def basicLadder : Ladder where
  State := BasicLadder
  prepareGameRequest := BasicLadder.prepareGameRequest
  gameCompleted := BasicLadder.gameCompleted

end Gomoku
