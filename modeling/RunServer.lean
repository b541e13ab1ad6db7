import RunServer.Theory.Loop
import RunServer.Theory.Endless
import RunServer.Theory.Int32
import RunServer.Theory.IntExpr
import RunServer.Theory.Interleave
import RunServer.Theory.Decimal
import RunServer.Theory.Words
import RunServer.Theory.History
import RunServer.Theory.Aggregate
import RunServer.Theory.Descriptors
import RunServer.Theory.Naming
import RunServer.Theory.Chains
import RunServer.Theory.Greedy
import RunServer.Theory.Nearest
import RunServer.Theory.Pieces
import RunServer.Theory.Ranking
import RunServer.Theory.Threads
import RunServer.Config
import RunServer.Runner.OkCalls
import RunServer.Runner.Compare
import RunServer.Runner.Reading
import RunServer.Runner.Tokens
import RunServer.Runner.LineEnds
import RunServer.Runner.Blanks
import RunServer.Runner.Tolerance
import RunServer.Runner.Termination
import RunServer.Runner.Parameters
import RunServer.Runner.Watch
import RunServer.Runner.Main
import RunServer.Runner.Usage
import RunServer.Runner.Accounting
import RunServer.Runner.Counter
import RunServer.Runner.Sandbox
import RunServer.Runner.Outside
import RunServer.Runner.Acceptance
import RunServer.Runner.Order
import RunServer.Runner.Directory
import RunServer.Runner.Attempt
import RunServer.Runner.Isolation
import RunServer.Runner.Finality
import RunServer.Runner.Memory
import RunServer.Runner.Limits
import RunServer.Runner.Measure
import RunServer.Runner.Status
import RunServer.Runner.Budget
import RunServer.Runner.AllowLists
import RunServer.Runner.Recognition
import RunServer.Runner.Recording
import RunServer.Runner.Answers
import RunServer.Runner.Streams
import RunServer.Runner.Execution
import RunServer.Dispatch.Queue
import RunServer.Dispatch.Solution
import RunServer.Dispatch.WriteBack
import RunServer.Dispatch.Judger
import RunServer.Dispatch.Alone
import RunServer.Dispatch.Terminal
import RunServer.Dispatch.Rejudge
import RunServer.Dispatch.Interference
import RunServer.Dispatch.Statistics
import RunServer.Dispatch.Protocol
import RunServer.Dispatch.Lookup
import RunServer.Dispatch.Similarity
import RunServer.Dispatch.Requests
import RunServer.Dispatch.Execution
import RunServer.Sim.Words
import RunServer.Sim.Texts
import RunServer.Sim.References
import RunServer.Sim.Compare
import RunServer.Sim.Runs
import RunServer.Sim.Aiso
import RunServer.Sim.Newlines
import RunServer.Sim.Lines
import RunServer.Sim.Show
import RunServer.Sim.Percentages
import RunServer.Sim.Report
import RunServer.Sim.Chunks
import RunServer.Dispatch.Finding
import RunServer.Dispatch.Compared
