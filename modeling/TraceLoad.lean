import TraceLoad.Limiter.Callers
import TraceLoad.Main
import TraceLoad.Session.Simulation
import TraceLoad.Proofs.ParentLinks
import TraceLoad.Proofs.TreeOfLinks
import TraceLoad.Proofs.Verdict
import TraceLoad.Proofs.Lookup
import TraceLoad.Proofs.Levels
import TraceLoad.Proofs.Descent
import TraceLoad.Proofs.TextBytes
import TraceLoad.Proofs.DurationGrammar
import TraceLoad.Proofs.Header
import TraceLoad.Proofs.Hops
import TraceLoad.Proofs.Walk
import TraceLoad.Proofs.TraceShape
import TraceLoad.Proofs.SpanTimes
import TraceLoad.Proofs.BrokenOff
import TraceLoad.Proofs.Propagation
import TraceLoad.Proofs.Pacing
import TraceLoad.Proofs.Credit
import TraceLoad.Proofs.Refund
import TraceLoad.Proofs.Batches
import TraceLoad.Proofs.HeaderGrammar
import TraceLoad.Proofs.HeaderFaults
import TraceLoad.Proofs.Identifiers
import TraceLoad.Proofs.Coverage
import TraceLoad.Proofs.ServiceNames
import TraceLoad.Proofs.Reordering
import TraceLoad.Proofs.Rehearsal
import TraceLoad.Proofs.WorkerPath
import TraceLoad.Proofs.WorkerReport
import TraceLoad.Proofs.RunTotals
import TraceLoad.Proofs.Replay
import TraceLoad.Proofs.WordOrder
import TraceLoad.Proofs.TracePermits
import TraceLoad.Proofs.Tokens
import TraceLoad.Proofs.Grammar
import TraceLoad.Proofs.Spelling
import TraceLoad.Proofs.Rounding
import TraceLoad.Proofs.Readback
import TraceLoad.Proofs.Passing
import TraceLoad.Proofs.Layouts
import TraceLoad.Proofs.Literals
import TraceLoad.Proofs.Unescaping
import TraceLoad.Proofs.KeptValues
import TraceLoad.Proofs.Variants
import TraceLoad.Proofs.Captures
import TraceLoad.Proofs.Delivery
