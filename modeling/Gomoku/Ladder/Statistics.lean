import Gomoku.Ladder.Ladder
import Gomoku.Library.KeyedUpdates
import Mathlib.Algebra.Order.Ring.Rat
import Mathlib.Algebra.Order.Ring.Int
import Mathlib.Tactic.Ring

/-!
# The statistics of a ladder

A completed game makes three changes to the statistics of `BasicLadder`: a win and a game for the
winner, and a game for the loser (`gameCompleted_stats`). All of them are increments, so after
any completed games the statistics depend on the games but not on their order, every game has
added one win and two games in total, and exactly the players have entries
(`stats_conserved`).
-/

namespace Gomoku.BasicLadder

open KeyedUpdates

/-- The constructor of `BasicLadder`. -/
def new (ladderSpec : LadderSpec) (rng : Random.Rng) : BasicLadder := ⟨ladderSpec, rng, ∅⟩

/-- The number of wins that the ladder shows for a name. -/
def won (ladder : BasicLadder) (name : String) : Int := ((ladder.stats.lookup name).getD {}).won

/-- The number of games that the ladder shows for a name. -/
def games (ladder : BasicLadder) (name : String) : Int :=
  ((ladder.stats.lookup name).getD {}).games

variable {ladder : BasicLadder} {request : PlayGameRequest} {response : PlayGameResponse}
  {name : String}

/-! ## One game -/

/-- The name that `GameCompleted` takes for the winner. -/
def winner (request : PlayGameRequest) (response : PlayGameResponse) : String :=
  if response.recording.score ≥ 1 / 2 then request.firstPlayer.name else request.secondPlayer.name

/-- The name that `GameCompleted` takes for the loser. -/
def loser (request : PlayGameRequest) (response : PlayGameResponse) : String :=
  if response.recording.score ≥ 1 / 2 then request.secondPlayer.name else request.firstPlayer.name

/-- The winner and the loser are the two players. -/
theorem winner_or_loser_iff (request : PlayGameRequest) (response : PlayGameResponse)
    (name : String) :
    winner request response = name ∨ loser request response = name ↔
      name = request.firstPlayer.name ∨ name = request.secondPlayer.name := by
  unfold winner loser
  split
  · rw [eq_comm, eq_comm (b := name)]
  · rw [eq_comm, eq_comm (b := name), or_comm]

/-- One more win. -/
def addWin (entry : Option ActorStats) : ActorStats :=
  { entry.getD {} with won := (entry.getD {}).won + 1 }

/-- One more game. -/
def addGame (entry : Option ActorStats) : ActorStats :=
  { entry.getD {} with games := (entry.getD {}).games + 1 }

/-- The changes of the statistics that a completed game makes. -/
def changes (request : PlayGameRequest) (response : PlayGameResponse) :
    List (String × (Option ActorStats → ActorStats)) :=
  [(winner request response, addWin), (winner request response, addGame),
    (loser request response, addGame)]

theorem gameCompleted_stats (ladder : BasicLadder) (request : PlayGameRequest)
    (response : PlayGameResponse) :
    (ladder.gameCompleted request response).stats =
      updates ladder.stats (changes request response) := by
  unfold gameCompleted changes winner loser
  by_cases hscore : response.recording.score ≥ 1 / 2
  · simp only [if_pos hscore]
    rfl
  · simp only [if_neg hscore]
    rfl

/-- A completed game adds one win, to the first player exactly if the score is at least 1/2. -/
theorem won_gameCompleted :
    (ladder.gameCompleted request response).won name = ladder.won name +
      if name = (if response.recording.score ≥ 1 / 2 then request.firstPlayer.name
        else request.secondPlayer.name) then 1 else 0 := by
  show _ = _ + if name = winner request response then 1 else 0
  unfold won
  rw [gameCompleted_stats]
  simp only [changes, updates, List.foldl_cons, List.foldl_nil, lookup_update]
  by_cases hwinner : winner request response = name <;>
    by_cases hloser : loser request response = name <;>
    simp [hwinner, hloser, addWin, addGame, eq_comm (a := name)]

/-- A completed game adds a game to the winner and a game to the loser. -/
theorem games_gameCompleted :
    (ladder.gameCompleted request response).games name = ladder.games name +
      (if name = winner request response then 1 else 0) +
      if name = loser request response then 1 else 0 := by
  unfold games
  rw [gameCompleted_stats]
  simp only [changes, updates, List.foldl_cons, List.foldl_nil, lookup_update]
  by_cases hwinner : winner request response = name <;>
    by_cases hloser : loser request response = name <;>
    simp [hwinner, hloser, addWin, addGame, eq_comm (a := name)]

/-! ## Any number of games -/

/-- The ladder after some calls of `GameCompleted`. -/
def afterGames (ladder : BasicLadder) (calls : List (PlayGameRequest × PlayGameResponse)) :
    BasicLadder :=
  calls.foldl (fun ladder call => ladder.gameCompleted call.1 call.2) ladder

theorem afterGames_append (ladder : BasicLadder)
    (calls calls' : List (PlayGameRequest × PlayGameResponse)) :
    ladder.afterGames (calls ++ calls') = (ladder.afterGames calls).afterGames calls' :=
  List.foldl_append

/-- The changes of the statistics that some completed games make. -/
def allChanges (calls : List (PlayGameRequest × PlayGameResponse)) :
    List (String × (Option ActorStats → ActorStats)) :=
  calls.flatMap fun call => changes call.1 call.2

theorem afterGames_stats (ladder : BasicLadder)
    (calls : List (PlayGameRequest × PlayGameResponse)) :
    (ladder.afterGames calls).stats = updates ladder.stats (allChanges calls) := by
  induction calls generalizing ladder with
  | nil => rfl
  | cons call rest ih =>
      show ((ladder.gameCompleted call.1 call.2).afterGames rest).stats = _
      rw [ih, gameCompleted_stats, ← updates_append]
      rfl

/-- Every change adds a win or a game. -/
theorem eq_of_mem_allChanges {calls : List (PlayGameRequest × PlayGameResponse)}
    {change : String × (Option ActorStats → ActorStats)} (h : change ∈ allChanges calls) :
    change.2 = addWin ∨ change.2 = addGame := by
  obtain ⟨call, _, hchange⟩ := List.mem_flatMap.mp h
  simp only [changes, List.mem_cons, List.not_mem_nil, or_false] at hchange
  rcases hchange with rfl | rfl | rfl
  · exact Or.inl rfl
  · exact Or.inr rfl
  · exact Or.inr rfl

/-- The games of a permutation of the calls lead to the same statistics. -/
theorem afterGames_perm {calls calls' : List (PlayGameRequest × PlayGameResponse)}
    (h : calls.Perm calls') (ladder : BasicLadder) :
    (ladder.afterGames calls).stats = (ladder.afterGames calls').stats := by
  rw [afterGames_stats, afterGames_stats]
  apply updates_perm (h.flatMap_right _)
  intro change hchange other hother entry
  -- a win and a game can be added in either order
  rcases eq_of_mem_allChanges hchange with hadd | hadd <;>
    rcases eq_of_mem_allChanges hother with hadd' | hadd' <;>
    rw [hadd, hadd'] <;> rfl

/-- Exactly the names with an entry before and the players have an entry. -/
theorem mem_keys_afterGames (ladder : BasicLadder)
    (calls : List (PlayGameRequest × PlayGameResponse)) (name : String) :
    name ∈ (ladder.afterGames calls).stats.keys ↔ name ∈ ladder.stats.keys ∨
      ∃ call ∈ calls, name = call.1.firstPlayer.name ∨ name = call.1.secondPlayer.name := by
  rw [afterGames_stats, mem_keys_updates]
  apply or_congr_right
  constructor
  · intro h
    obtain ⟨change, hchange, hname⟩ := h
    obtain ⟨call, hcall, hchange⟩ := List.mem_flatMap.mp hchange
    refine ⟨call, hcall, (winner_or_loser_iff call.1 call.2 name).mp ?_⟩
    simp only [changes, List.mem_cons, List.not_mem_nil, or_false] at hchange
    rcases hchange with rfl | rfl | rfl
    · exact Or.inl hname
    · exact Or.inl hname
    · exact Or.inr hname
  · intro h
    obtain ⟨call, hcall, hplayer⟩ := h
    rcases (winner_or_loser_iff call.1 call.2 name).mpr hplayer with hname | hname
    · exact ⟨(winner call.1 call.2, addGame),
        List.mem_flatMap.mpr ⟨call, hcall, by simp [changes]⟩, hname⟩
    · exact ⟨(loser call.1 call.2, addGame),
        List.mem_flatMap.mpr ⟨call, hcall, by simp [changes]⟩, hname⟩

/-- A game adds one to the sum of the wins and two to the sum of the games. -/
theorem total_gameCompleted (ladder : BasicLadder) (request : PlayGameRequest)
    (response : PlayGameResponse) :
    total (ladder.gameCompleted request response).stats (fun entry => (entry.getD {}).won) =
        total ladder.stats (fun entry => (entry.getD {}).won) + 1 ∧
      total (ladder.gameCompleted request response).stats (fun entry => (entry.getD {}).games) =
        total ladder.stats (fun entry => (entry.getD {}).games) + 2 := by
  rw [gameCompleted_stats]
  simp only [changes, updates, List.foldl_cons, List.foldl_nil]
  refine ⟨?_, ?_⟩
  · rw [total_update _ _ addGame _ 0 rfl (add_zero _).symm,
      total_update _ _ addGame _ 0 rfl (add_zero _).symm, total_update _ _ addWin _ 1 rfl rfl,
      add_zero, add_zero]
  · rw [total_update _ _ addGame _ 1 rfl rfl, total_update _ _ addGame _ 1 rfl rfl,
      total_update _ _ addWin _ 0 rfl (add_zero _).symm, add_zero, add_assoc]
    rfl

/-- Some games add one each to the sum of the wins and two each to the sum of the games. -/
theorem total_afterGames (ladder : BasicLadder)
    (calls : List (PlayGameRequest × PlayGameResponse)) :
    total (ladder.afterGames calls).stats (fun entry => (entry.getD {}).won) =
        total ladder.stats (fun entry => (entry.getD {}).won) + calls.length ∧
      total (ladder.afterGames calls).stats (fun entry => (entry.getD {}).games) =
        total ladder.stats (fun entry => (entry.getD {}).games) + 2 * calls.length := by
  induction calls generalizing ladder with
  | nil => exact ⟨(add_zero _).symm, (add_zero _).symm⟩
  | cons call rest ih =>
      obtain ⟨hwon, hgames⟩ := ih (ladder.gameCompleted call.1 call.2)
      obtain ⟨hwon', hgames'⟩ := total_gameCompleted ladder call.1 call.2
      rw [hwon'] at hwon
      rw [hgames'] at hgames
      refine ⟨hwon.trans ?_, hgames.trans ?_⟩
      · rw [List.length_cons]
        push_cast
        ring
      · rw [List.length_cons]
        push_cast
        ring

/-- No name has more wins than games. -/
def Balanced (ladder : BasicLadder) : Prop :=
  ∀ name, 0 ≤ ladder.won name ∧ ladder.won name ≤ ladder.games name

theorem Balanced.gameCompleted (h : Balanced ladder) (request : PlayGameRequest)
    (response : PlayGameResponse) : Balanced (ladder.gameCompleted request response) := by
  intro name
  obtain ⟨hlow, hhigh⟩ := h name
  rw [won_gameCompleted, games_gameCompleted]
  show _ ≤ _ + (if name = winner request response then 1 else 0) ∧
    _ + (if name = winner request response then 1 else 0) ≤ _
  -- the name with one more win has one more game
  split
  · split <;> omega
  · split <;> omega

theorem Balanced.afterGames (h : Balanced ladder)
    (calls : List (PlayGameRequest × PlayGameResponse)) : Balanced (ladder.afterGames calls) := by
  induction calls generalizing ladder with
  | nil => exact h
  | cons call rest ih => exact ih (h.gameCompleted call.1 call.2)

/-- After any games completed on a new ladder, whoever played and with whatever scores: no name has
more wins than games, the wins of all names add up to the number of the games and their games
to twice that number, exactly the players have an entry, and the order of the games does not
matter. -/
theorem stats_conserved (ladderSpec : LadderSpec) (rng : Random.Rng)
    (calls : List (PlayGameRequest × PlayGameResponse)) :
    let ladder := (new ladderSpec rng).afterGames calls
    (∀ name, 0 ≤ ladder.won name ∧ ladder.won name ≤ ladder.games name) ∧
      ∑ name ∈ ladder.stats.keys, ladder.won name = calls.length ∧
      ∑ name ∈ ladder.stats.keys, ladder.games name = 2 * calls.length ∧
      (∀ name, name ∈ ladder.stats.keys ↔
        ∃ call ∈ calls, name = call.1.firstPlayer.name ∨ name = call.1.secondPlayer.name) ∧
      ∀ calls', calls'.Perm calls →
        ((new ladderSpec rng).afterGames calls').stats = ladder.stats := by
  intro ladder
  have hnew : Balanced (new ladderSpec rng) := fun name => ⟨le_refl 0, le_refl 0⟩
  obtain ⟨hwon, hgames⟩ := total_afterGames (new ladderSpec rng) calls
  refine ⟨hnew.afterGames calls, hwon.trans (zero_add _), hgames.trans (zero_add _),
    fun name => ?_, fun calls' hperm => afterGames_perm hperm _⟩
  rw [mem_keys_afterGames]
  exact or_iff_right (Finset.notMem_empty name)

end Gomoku.BasicLadder
