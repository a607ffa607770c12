import AstraeaGateway.Transition
import AstraeaGateway.Fifo
import AstraeaGateway.Separated
import AstraeaGateway.Decimal
import AstraeaGateway.Hex
import AstraeaGateway.Percent
import AstraeaGateway.Json
import AstraeaGateway.SortedMap
import AstraeaGateway.SortBy
import AstraeaGateway.Overlap
import AstraeaGateway.Checked
import AstraeaGateway.Counter
import AstraeaGateway.Siblings
import AstraeaGateway.Forest
import AstraeaGateway.SiblingEdits
import AstraeaGateway.Matching
import AstraeaGateway.Clock
import AstraeaGateway.Data
import AstraeaGateway.Csv
import AstraeaGateway.Astraea.Batching
import AstraeaGateway.Gateway.ReadOut
import AstraeaGateway.Gateway.EmptyQueue
import AstraeaGateway.Gateway.Selection
import AstraeaGateway.Gateway.Database
import AstraeaGateway.Gateway.Metrics
import AstraeaGateway.Gateway.Handlers
import AstraeaGateway.Gateway.Refinement
import AstraeaGateway.Gateway.Throughput
import AstraeaGateway.Gateway.Recording
import AstraeaGateway.Gateway.ThroughputFile
import AstraeaGateway.Gateway.QueryResult
import AstraeaGateway.Gateway.Appending
import AstraeaGateway.Gateway.Bounded.ReadOut
import AstraeaGateway.Gateway.Bounded.Metrics
import AstraeaGateway.Gateway.Bounded.Handlers
import AstraeaGateway.Client.Recording
import AstraeaGateway.Client.Response
import AstraeaGateway.Http.QueryString
import AstraeaGateway.Http.CJson
import AstraeaGateway.Http.JsonBody
import AstraeaGateway.Http.Form
import AstraeaGateway.Http.ResponseText
import AstraeaGateway.CJson.Buffer
import AstraeaGateway.CJson.ParseString
import AstraeaGateway.CJson.Item
import AstraeaGateway.CJson.Parse
import AstraeaGateway.CJson.StringText
import AstraeaGateway.CJson.Text
import AstraeaGateway.CJson.Reads
import AstraeaGateway.CJson.LongNumerals
import AstraeaGateway.CJson.Print
import AstraeaGateway.CJson.RoundTrip
import AstraeaGateway.CJson.Posted
import AstraeaGateway.CJson.Truncated
import AstraeaGateway.CJson.Heap
import AstraeaGateway.CJson.Holds
import AstraeaGateway.CJson.Editing
import AstraeaGateway.CJson.Edits
import AstraeaGateway.CJson.PostTree
import AstraeaGateway.CJson.Duplicate
import AstraeaGateway.CJson.Compare
import AstraeaGateway.CJson.Minify
import AstraeaGateway.CJson.Comments
import AstraeaGateway.Scripts.SendRequest
import AstraeaGateway.Protocol.Model
import AstraeaGateway.Protocol.Steps
import AstraeaGateway.Protocol.Invariant
import AstraeaGateway.Protocol.Audit
import AstraeaGateway.Protocol.Execution
import AstraeaGateway.Protocol.Failure
import AstraeaGateway.Protocol.Snapshot
import AstraeaGateway.Protocol.ExactlyOnce
import AstraeaGateway.Protocol.Drain
import AstraeaGateway.Protocol.Order
import AstraeaGateway.Protocol.Ledger
import AstraeaGateway.Protocol.Causality
import AstraeaGateway.Protocol.Sequential
import AstraeaGateway.Progress
import AstraeaGateway.Astraea.Progress
import AstraeaGateway.Protocol.Progress
