import Haybarn.Lib.ByteMachine
import Haybarn.Lib.Run
import Haybarn.Lib.Window
import Haybarn.Lib.Lock
import Haybarn.Lib.Memory
import Haybarn.Lib.Prog
import Haybarn.Lib.JsMap
import Haybarn.Sab.Slot
import Haybarn.Sab.Ring
import Haybarn.Sab.Calls
import Haybarn.Sab.RingInv
import Haybarn.Sab.Pipe
import Haybarn.Sab.PipeInv
import Haybarn.Sab.Eos
import Haybarn.Sab.Wraparound
import Haybarn.Sab.Channel
import Haybarn.Sab.Reserve
import Haybarn.Sab.ChannelStep
import Haybarn.Sab.ChannelLock
import Haybarn.Sab.Exclusive
import Haybarn.Sab.Isolation
import Haybarn.Sab.Terminal
import Haybarn.Sab.Closed
import Haybarn.Flat.Heap
import Haybarn.Flat.Reference
import Haybarn.Flat.Stubs
import Haybarn.Flat.Refine
import Haybarn.Flat.Layout
import Haybarn.Flat.Address
import Haybarn.Bridge.Route
import Haybarn.Bridge.Machine
import Haybarn.Bridge.Steps
import Haybarn.Bridge.Registered
import Haybarn.Bridge.Workers
import Haybarn.Bridge.Policy
import Haybarn.Bridge.Ready
import Haybarn.Bridge.Talk
import Haybarn.Bridge.Agree
import Haybarn.Bridge.Ensure
import Haybarn.Lib.Slice
import Haybarn.Lib.Utf8
import Haybarn.Http.Mailbox
import Haybarn.Http.Tenancy
import Haybarn.Http.WireFormat
import Haybarn.Http.WireRoundTrip
import Haybarn.Http.CallSteps
import Haybarn.Http.ServeSteps
import Haybarn.Http.Ownership
import Haybarn.Http.Reclaim
import Haybarn.Io.InputStream
import Haybarn.Io.ReadAhead
import Haybarn.Io.ReadFailures
import Haybarn.Lib.NodeList
import Haybarn.Lib.Parties
import Haybarn.Lib.ReadWrite
import Haybarn.Io.PageBuffer
import Haybarn.Io.PageThreads
import Haybarn.Io.PageLinked
import Haybarn.Io.PageMoves
import Haybarn.Io.PageInv
import Haybarn.Io.PageOps
import Haybarn.Io.PageLatches
import Haybarn.Io.PageStates
import Haybarn.Io.PageRun
import Haybarn.Io.PageContents
import Haybarn.Io.PageUpdates
import Haybarn.Io.PageFailures
import Haybarn.Io.PageEviction
import Haybarn.Lib.Contents
import Haybarn.Io.PagedFile
import Haybarn.Io.FrameSizes
import Haybarn.Io.FileView
import Haybarn.Io.BufferedFile
import Haybarn.Io.FileRefines
import Haybarn.Worker.CancelWatch
import Haybarn.Worker.AsyncTasks
import Haybarn.Worker.Replies
import Haybarn.Worker.ResultStream
import Haybarn.Worker.ExtensionPrefetch
import Haybarn.Bindings.Instantiate
import Haybarn.Bindings.DeferredThreads
import Haybarn.Io.MemoryFiles
import Haybarn.Io.Glob
import Haybarn.WebDB.PendingQuery
import Haybarn.WebDB.ArrowInsert
import Haybarn.Io.WebFiles
import Haybarn.Io.WebFilesAgree
import Haybarn.Io.OpenFailures
import Haybarn.Io.MovedFiles
import Haybarn.Io.PlacedWrites
import Haybarn.Io.BufferedFiles
import Haybarn.Io.BufferedContents
import Haybarn.Io.BufferedInv
import Haybarn.Io.LastRelease
import Haybarn.Io.Reopen
import Haybarn.Io.Renames
import Haybarn.Runtime.NodeFiles
import Haybarn.Runtime.NodeRefines
import Haybarn.Runtime.FileInfos
import Haybarn.Runtime.FileInfoCache
import Haybarn.Runtime.WriteBuffers
import Haybarn.Runtime.UploadedBodies
import Haybarn.Lib.JsonDoc
import Haybarn.Json.Types
import Haybarn.Json.Analyzer
import Haybarn.Json.Handlers
import Haybarn.Json.Attribution
import Haybarn.Json.Inference
import Haybarn.Json.Accepts
import Haybarn.Json.ArrayReader
import Haybarn.Json.TableReader
import Haybarn.Json.Boundaries
import Haybarn.Json.Malformed
import Haybarn.Json.Builders
import Haybarn.Json.NestedParsers
import Haybarn.Json.NestedAppend
import Haybarn.Arrow.Types
import Haybarn.Arrow.Casts
import Haybarn.OAuth.AuthUrl
import Haybarn.OAuth.Delivery
import Haybarn.Typedef.Types
import Haybarn.Typedef.RoundTrip
import Haybarn.Lib.Lockstep
import Haybarn.Dylink.Glue
import Haybarn.Dylink.Refines
import Haybarn.Lib.Binary
import Haybarn.Dylink.WasmBinary
import Haybarn.Dylink.MutableGlobals
import Haybarn.Lib.MarkedText
import Haybarn.Shell.PromptBuffer
import Haybarn.Shell.Layout
import Haybarn.Shell.LineEditor
import Haybarn.Shell.Follows
import Haybarn.Shell.Highlight
import Haybarn.Lib.Percent
import Haybarn.Lib.RingLog
import Haybarn.Lib.Loop
import Haybarn.S3.UriEncode
import Haybarn.Lib.HttpUrl
import Haybarn.S3.SignedPath
import Haybarn.Shell.History
import Haybarn.Io.FileStats
import Haybarn.Io.StatsCodec
import Haybarn.Io.StatsBounds
import Haybarn.Io.PositionalRead
import Haybarn.Runtime.BufferBytes
import Haybarn.Runtime.RemoteFile
import Haybarn.Io.ArrowStream
import Haybarn.WebDB.CopyFile
import Haybarn.Utils.SharedMutex
import Haybarn.Utils.ParkingLot
import Haybarn.Lib.TypedHeap
import Haybarn.Lib.TextDecoder
import Haybarn.Udf.ScalarCall
import Haybarn.Udf.Arguments
import Haybarn.Udf.Results
import Haybarn.Udf.StringResults
import Haybarn.Udf.Elementwise
import Haybarn.Arrow.IpcReader
import Haybarn.WebDB.SentDictionaries
import Haybarn.Lib.Owned
import Haybarn.Runtime.AccessHandles
