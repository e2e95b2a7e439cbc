import Wrenyard.Calls.Discipline
import Wrenyard.Calls.SentTexts
import Wrenyard.Calls.SharedSse
import Wrenyard.Control.Matching
import Wrenyard.Daemon.DesktopLane
import Wrenyard.Daemon.OperationAdapter
import Wrenyard.Devin.Transport
import Wrenyard.Exec.BufferTail
import Wrenyard.Exec.Iterators
import Wrenyard.Exec.OwnedFiles
import Wrenyard.Exec.SessionOrder
import Wrenyard.Gateway.RelayChunks
import Wrenyard.Js.Double
import Wrenyard.Gateway.RouteNames
import Wrenyard.Routing.Agreement
import Wrenyard.Routing.Pricing
import Wrenyard.Routing.QuotaGain
import Wrenyard.Scheduler.Foreign
import Wrenyard.Scheduler.Timing
import Wrenyard.Session.CompactionFloors
import Wrenyard.Session.DocumentHistory
import Wrenyard.Session.HotZone
import Wrenyard.Session.LedgerCache
import Wrenyard.Session.LedgerPages
import Wrenyard.Session.LedgerRecovery
import Wrenyard.Session.PageEvents
import Wrenyard.Session.PromptDelivery
import Wrenyard.Session.RecordFraming
import Wrenyard.Session.RecoveryClosure
import Wrenyard.Stats.RunTokens
import Wrenyard.Stats.SpeedSamples
import Wrenyard.Supervisor.LockRuns
import Wrenyard.Supervisor.Protection
import Wrenyard.Supervisor.RetainedOutput
import Wrenyard.TaskGraph.Cancellation
import Wrenyard.TaskGraph.Dispatch
import Wrenyard.TaskGraph.Finished
import Wrenyard.TaskGraph.FirstCause
import Wrenyard.TaskGraph.LiteralSchemas
import Wrenyard.TaskGraph.PatchFrame
import Wrenyard.TaskGraph.References
import Wrenyard.Todos.RoundTrip
import Wrenyard.Turn.TerminalStep
