import QueueBench.Main
import QueueBench.Proofs.Summary
import QueueBench.Proofs.OrderIndependence
import QueueBench.Proofs.ResultFile
import QueueBench.Proofs.LineNumbers
import QueueBench.Proofs.SeriesIdentity
import QueueBench.Proofs.SplitRows
import QueueBench.Proofs.RepeatedHeader
import QueueBench.Proofs.Layout
import QueueBench.Proofs.Warnings
import QueueBench.Proofs.FullGrids
import QueueBench.Proofs.Drawing.Cells
import QueueBench.Proofs.Drawing.Content
import QueueBench.Proofs.BareCommand
import QueueBench.Proofs.Distribution
import QueueBench.Proofs.Acceptance
import QueueBench.Proofs.SpelledRun
import QueueBench.Proofs.Json.Grammar
import QueueBench.Proofs.Json.Layout
import QueueBench.Proofs.Json.Numbers
import QueueBench.Proofs.MachineReadable
import QueueBench.Proofs.LastOfEach
import QueueBench.Proofs.Partition
import QueueBench.Proofs.Comparison
import QueueBench.Proofs.Style
import QueueBench.Proofs.Loading
import QueueBench.Proofs.Number.TotalOrder
import QueueBench.Proofs.SummaryEntries
import QueueBench.Proofs.FileTree
import QueueBench.Proofs.Discovery
import QueueBench.Proofs.Drawing.Canvas
import QueueBench.Proofs.Drawing.BarSpans
import QueueBench.Proofs.Number.Sign
import QueueBench.Proofs.SignErrors
import QueueBench.Proofs.OsString
