import Pluster.Lib.Attempts
import Pluster.Lib.Crc
import Pluster.Lib.Framing
import Pluster.Lib.Glob
import Pluster.Lib.GoRuntime
import Pluster.Lib.GoSort
import Pluster.Lib.GoStrings
import Pluster.Lib.KeyedOps
import Pluster.Lib.Parties
import Pluster.Lib.Pipeline
import Pluster.Lib.ReorderBuffer
import Pluster.Lib.Runs
import Pluster.Lib.Tally
import Pluster.Lib.TextFields
import Pluster.Proto.Bytes
import Pluster.Proto.Command
import Pluster.Proto.Crc16
import Pluster.Proto.Extension
import Pluster.Proto.Frames
import Pluster.Proto.HashTag
import Pluster.Proto.Numbers
import Pluster.Proto.OpenRequests
import Pluster.Proto.Parse
import Pluster.Proto.ParseSafety
import Pluster.Proto.Reader
import Pluster.Proto.RequestFrame
import Pluster.Proto.RequestGrammar
import Pluster.Proto.Resp
import Pluster.Proto.RoundTrip
import Pluster.Proto.ScanAgree
import Pluster.Cluster.EntryPoints
import Pluster.Cluster.Fingerprints
import Pluster.Cluster.Listing
import Pluster.Cluster.Manager
import Pluster.Cluster.NodeChoice
import Pluster.Cluster.Recovery
import Pluster.Cluster.SlotLoops
import Pluster.Cluster.SlotTable
import Pluster.Cluster.Topology
import Pluster.Pool.Accounting
import Pluster.Pool.Callers
import Pluster.Pool.Closing
import Pluster.Pool.Handshake
import Pluster.Pool.PipeFair
import Pluster.Pool.PipeLoop
import Pluster.Pool.PipeMatch
import Pluster.Pool.PipeOrderly
import Pluster.Pool.PipeShutdown
import Pluster.Pool.PipeWires
import Pluster.Pool.Pipeline
import Pluster.Pool.Pool
import Pluster.Engine.AuthGate
import Pluster.Engine.Awaited
import Pluster.Engine.BackendAuth
import Pluster.Engine.Buffering
import Pluster.Engine.ClientClose
import Pluster.Engine.ClientCount
import Pluster.Engine.Commands
import Pluster.Engine.Compaction
import Pluster.Engine.Confirmations
import Pluster.Engine.Connections
import Pluster.Engine.CrossSlot
import Pluster.Engine.DeclaredKeys
import Pluster.Engine.Dispatch
import Pluster.Engine.FanOut
import Pluster.Engine.FanOutCorrect
import Pluster.Engine.FanOutParts
import Pluster.Engine.FollowedMoves
import Pluster.Engine.HubMaps
import Pluster.Engine.Moves
import Pluster.Engine.MultiIsolation
import Pluster.Engine.Mux
import Pluster.Engine.MuxLedger
import Pluster.Engine.MuxOrder
import Pluster.Engine.OwnReplies
import Pluster.Engine.PatternMatch
import Pluster.Engine.PlanUnits
import Pluster.Engine.Plans
import Pluster.Engine.Publish
import Pluster.Engine.PubsubHub
import Pluster.Engine.ReplyLog
import Pluster.Engine.ReplyOrder
import Pluster.Engine.ReplyUnits
import Pluster.Engine.RespQueue
import Pluster.Engine.ResponseRuns
import Pluster.Engine.SendCount
import Pluster.Engine.Session
import Pluster.Engine.SessionRuns
import Pluster.Engine.StateSteps
import Pluster.Engine.StreamReads
import Pluster.Engine.Traffic
import Pluster.Engine.TxOrder
import Pluster.Engine.TxSlots
import Pluster.Engine.TxSteps
import Pluster.Engine.TxWire
import Pluster.Engine.Unsubscribe
import Pluster.Engine.WatchedExec
import Pluster.Router.AllNodes
import Pluster.Router.Exchange
import Pluster.Router.Execute
import Pluster.Router.PoolSync
import Pluster.Router.Redirects
import Pluster.Router.Replies
import Pluster.Router.Retry
import Pluster.Router.Scan
import Pluster.Server.Pools
