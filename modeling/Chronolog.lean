import Chronolog.Foundation.BigEndian
import Chronolog.Foundation.OrderedStore
import Chronolog.Foundation.FirstOccurrence
import Chronolog.Foundation.Transition
import Chronolog.Foundation.Utf8
import Chronolog.Foundation.Utf8Cuts
import Chronolog.Foundation.Backtracking
import Chronolog.Foundation.Binary64
import Chronolog.Foundation.JsonText
import Chronolog.Foundation.Observations
import Chronolog.Foundation.Channel
import Chronolog.Foundation.WorkerFarm
import Chronolog.Foundation.Feed
import Chronolog.Foundation.LeftmostMatches
import Chronolog.Foundation.Draining
import Chronolog.Foundation.FormUrlencoded
import Chronolog.Foundation.Doubles
import Chronolog.Foundation.TextReaders
import Chronolog.Foundation.Json
import Chronolog.Storage.Schema
import Chronolog.Storage.ScanOrder
import Chronolog.Storage.KeyCodec
import Chronolog.Storage.KeyOrder
import Chronolog.Ingestion.Parser
import Chronolog.Ingestion.Message
import Chronolog.Ingestion.Listeners
import Chronolog.Ingestion.LineScan
import Chronolog.Ingestion.Priority
import Chronolog.Ingestion.SyslogParts
import Chronolog.Pipeline.Tokenizer
import Chronolog.Pipeline.TokenSeams
import Chronolog.Pipeline.TokenSizes
import Chronolog.Search.MemoryIndex
import Chronolog.Search.Query
import Chronolog.Search.Candidates
import Chronolog.Search.Call
import Chronolog.Search.ReadFailures
import Chronolog.Pipeline.WorkerPool
import Chronolog.Pipeline.PlainText
import Chronolog.Pipeline.Recycling
import Chronolog.Pipeline.IngestPaths
import Chronolog.Server.FlushLoop
import Chronolog.Server.Ledger
import Chronolog.Server.Contents
import Chronolog.Server.Registration
import Chronolog.Server.Answers
import Chronolog.Server.Retrieval
import Chronolog.Server.Responses
import Chronolog.Server.Concurrent
import Chronolog.Server.CallInvariant
import Chronolog.Server.SearchConsistency
import Chronolog.Server.Durability
import Chronolog.Server.WriteFailures
import Chronolog.Server.SearchOrder
import Chronolog.Server.MemoryTier
import Chronolog.Server.PersistentScan
import Chronolog.Server.Intake
import Chronolog.Server.Process
import Chronolog.Server.Progress
import Chronolog.Server.ClosedQueues
import Chronolog.Server.ShutdownLoss
import Chronolog.Server.ShutdownWait
import Chronolog.Server.Bounds
import Chronolog.Server.LineOrder
import Chronolog.LiveTail.Bridge
import Chronolog.LiveTail.Session
import Chronolog.LiveTail.Delivery
import Chronolog.LiveTail.Guarantees
import Chronolog.LiveTail.Lifecycle
import Chronolog.Web.QueryParser
import Chronolog.Web.QueryPrinting
import Chronolog.Web.DisplayedFields
import Chronolog.Web.SyslogDisplay
import Chronolog.Web.App
import Chronolog.Web.Highlighting
import Chronolog.Web.SearchWords
import Chronolog.Web.FlushBatches
import Chronolog.Web.SearchRace
import Chronolog.Web.LiveRows
import Chronolog.Web.TimeWindows
import Chronolog.Web.RowIds
import Chronolog.Web.LiveSockets
import Chronolog.Web.LabelSelectors
import Chronolog.Web.NewRows
import Chronolog.Web.LiveErasure
import Chronolog.Web.Numerals
import Chronolog.Web.SearchRequests
import Chronolog.Web.DisplaySources
import Chronolog.Web.FrameTexts
import Chronolog.Web.SearchResponses
import Chronolog.Server.Searchable
import Chronolog.Server.Instances
import Chronolog.Web.LiveDelivery
import Chronolog.Web.SyslogPatterns
import Chronolog.Web.SentLines
