import PushRelabel.Word
import PushRelabel.Fault
import PushRelabel.Room
import PushRelabel.Quantity
import PushRelabel.Decimal.Shortest
import PushRelabel.Decimal.Layout
import PushRelabel.Decimal.Reading
import PushRelabel.Text.Blank
import PushRelabel.Text.Line
import PushRelabel.Text.Invisible
import PushRelabel.Text.Quoted
import PushRelabel.FileTree
import PushRelabel.Accumulator
import PushRelabel.StopFlag
import PushRelabel.Generation
import PushRelabel.Granularity
import PushRelabel.Duration
import PushRelabel.Moment
import PushRelabel.Random
import PushRelabel.Network
import PushRelabel.Network.Uniform
import PushRelabel.Network.Records
import PushRelabel.Terminals
import PushRelabel.Compressed
import PushRelabel.FlowGraph
import PushRelabel.FlowGraph.Build
import PushRelabel.WorkingSet
import PushRelabel.Queue
import PushRelabel.Gap.Counts
import PushRelabel.Gap.Buckets
import PushRelabel.Gap.Ordered
import PushRelabel.Gap.Detector
import PushRelabel.Gap.Watch
import PushRelabel.Journal
import PushRelabel.Halt
import PushRelabel.Distance
import PushRelabel.Preflow
import PushRelabel.Pass
import PushRelabel.Pass.Fifo
import PushRelabel.Pass.Round
import PushRelabel.Pass.Rounds
import PushRelabel.Discharger
import PushRelabel.TwoPass
import PushRelabel.Solver
import PushRelabel.Memory
import PushRelabel.Message
import PushRelabel.CommandLine.Arguments
import PushRelabel.CommandLine.Run
import PushRelabel.Main
import PushRelabel.Proofs.Compressed
import PushRelabel.Proofs.Exact
import PushRelabel.Proofs.Flow.Carried
import PushRelabel.Proofs.Flow.Cut
import PushRelabel.Proofs.Flow.Labels
import PushRelabel.Proofs.Flow.Paths
import PushRelabel.Proofs.Success
import PushRelabel.Proofs.Pass.BetweenDischarges
import PushRelabel.Proofs.Discharger
import PushRelabel.Proofs.Accounts
import PushRelabel.Proofs.Termination
import PushRelabel.Proofs.Unlimited
import PushRelabel.Proofs.Feasible
import PushRelabel.Proofs.FlowGraph.Amounts
import PushRelabel.Proofs.FlowGraph.Meaning
import PushRelabel.Proofs.Solver
import PushRelabel.Proofs.Gap.Agreement
import PushRelabel.Proofs.Lockstep
import PushRelabel.Proofs.Pass.FifoGaps
import PushRelabel.Proofs.GapStrategies
import PushRelabel.Proofs.Distances
import PushRelabel.Proofs.Pass.OneWay
import PushRelabel.Proofs.Bystander
import PushRelabel.Proofs.Delivered
import PushRelabel.Proofs.Double
import PushRelabel.Proofs.FlowGraph.Terminals
import PushRelabel.Proofs.Faults
import PushRelabel.Proofs.Pass.Bookkeeping
import PushRelabel.Proofs.Resumed
import PushRelabel.Proofs.Gap.Contract
import PushRelabel.Proofs.Pass.Rising
import PushRelabel.Proofs.Pass.RoundGaps
import PushRelabel.Proofs.Pass.Waiting
import PushRelabel.Proofs.Pass.RoundsExact
import PushRelabel.Proofs.FlowGraph.Verdict
import PushRelabel.Proofs.FlowGraph.Rows
import PushRelabel.Proofs.WorkingSet
import PushRelabel.Proofs.Text
import PushRelabel.Proofs.Records
import PushRelabel.Proofs.Duration
import PushRelabel.Proofs.Duration.Range
import PushRelabel.Proofs.Network.History
import PushRelabel.Proofs.Network.Uniform
