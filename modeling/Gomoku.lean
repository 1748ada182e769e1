import Gomoku.Library.Execution
import Gomoku.Library.Bitset
import Gomoku.Library.PositionalGame
import Gomoku.Core.Board
import Gomoku.Core.Stones
import Gomoku.Core.BoardInvariant
import Gomoku.Core.Rules
import Gomoku.Core.DidWin
import Gomoku.Library.Random
import Gomoku.Core.Sampling
import Gomoku.Core.Messages
import Gomoku.Core.Actor
import Gomoku.Actors.RandomActor
import Gomoku.Ladder.Worker
import Gomoku.Ladder.CompleteGames
import Gomoku.Core.Feature
import Gomoku.Library.Tensor
import Gomoku.Networks.DecodeReplays
import Gomoku.Networks.Rows
import Gomoku.Library.Snapshots
import Gomoku.Networks.Recovery
import Gomoku.Networks.Malformed
import Gomoku.Core.DrawnGames
import Gomoku.Ladder.ScriptedGames
import Gomoku.Networks.Labels
import Gomoku.Actors.McCell
import Gomoku.Actors.MonteCarloActor
import Gomoku.Actors.Rollouts
import Gomoku.Ladder.Ladder
import Gomoku.Ladder.Supervisor
import Gomoku.Ladder.SupervisorRuns
import Gomoku.Core.Transpositions
import Gomoku.Core.Uniformity
import Gomoku.Actors.WinProbabilities
import Gomoku.Actors.Scores
import Gomoku.Actors.Registry
import Gomoku.Actors.Search
import Gomoku.Core.Metrics
import Gomoku.Ladder.Credits
import Gomoku.Ladder.SearchMetrics
import Gomoku.Ladder.ExpiredDeadlines
import Gomoku.Library.KeyedUpdates
import Gomoku.Ladder.Statistics
import Gomoku.Ladder.Pairings
import Gomoku.Ladder.LogStats
import Gomoku.Core.CollectedMeans
import Gomoku.SelfPlay.RotateLog
import Gomoku.Library.InverseTransform
import Gomoku.Actors.SoftmaxDistribution
import Gomoku.Ladder.Referee
import Gomoku.Ladder.Session
import Gomoku.Ladder.RandomGames
import Gomoku.Library.Bytes
import Gomoku.Library.Crc
import Gomoku.Replays.Crc32c
import Gomoku.Library.Framing
import Gomoku.Replays.Records
import Gomoku.Library.SinglePrecision
import Gomoku.SelfPlay.Store
import Gomoku.SelfPlay.Pipeline
