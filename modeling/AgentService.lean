import AgentService.Lib.Utf8
import AgentService.Lib.JsString
import AgentService.Lib.Split
import AgentService.Lib.Percent
import AgentService.Lib.RootedPath
import AgentService.Lib.Utf8Table
import AgentService.Lib.Except
import AgentService.Lib.Loop
import AgentService.Lib.Generator
import AgentService.Lib.Decimal
import AgentService.Http.MuxCompat
import AgentService.Http.Redirect
import AgentService.Http.RoutedPath
import AgentService.Http.Query
import AgentService.Gateway.Json
import AgentService.Gateway.JsonGrammar
import AgentService.Gateway.JsonLeaves
import AgentService.Gateway.JsonStrings
import AgentService.Gateway.JsonParse
import AgentService.Gateway.Location
import AgentService.Gateway.Follow
import AgentService.Gateway.RedirectRun
import AgentService.Gateway.SameHost
import AgentService.Gateway.Value
import AgentService.Gateway.Pieces
import AgentService.Gateway.Calls
import AgentService.Gateway.BaseReference
import AgentService.Gateway.BaseHost
import AgentService.Gateway.SymbolPath
import AgentService.Gateway.SymbolHost
import AgentService.Gateway.Time
import AgentService.Gateway.Decode
import AgentService.Gateway.Errors
import AgentService.Gateway.Schemas
import AgentService.Http.Answers
import AgentService.Gateway.Client
import AgentService.Gateway.DecodedShape
import AgentService.Gateway.ErrorBody
import AgentService.Gateway.JsonNesting
import AgentService.Gateway.Quote
import AgentService.Gateway.TimeText
import AgentService.Gateway.Written
import AgentService.Gateway.RoundTrip
import AgentService.Gateway.JsonAhead
import AgentService.Gateway.JsonViable
import AgentService.Gateway.JsonByte
import AgentService.Gateway.FirstValue
import AgentService.Gateway.Verdict
import AgentService.Lib.Calendar
import AgentService.Lib.Effect
import AgentService.Gateway.Instant
import AgentService.Gateway.TimeReading
import AgentService.Db.Time
import AgentService.Db.Sql
import AgentService.Db.History
import AgentService.Db.Catalogue
import AgentService.Db.Migrate
import AgentService.Db.Migrated
import AgentService.Db.SqlTime
import AgentService.Db.TimeOrder
import AgentService.Persistence
import AgentService.Db.Columns
import AgentService.Http.Body
import AgentService.Http.ReadBody
import AgentService.Http.BodyVerdict
import AgentService.Controllers.Writes
import AgentService.Controllers.BestEffort
import AgentService.Controllers.Hangup
import AgentService.Controllers.History
import AgentService.Db.Readback
import AgentService.Db.Rows
import AgentService.Db.RowsReadBack
import AgentService.Lib.OrderedMap
import AgentService.Lib.JsText
import AgentService.Scripts.Snapshot
import AgentService.Scripts.SnapshotGate
import AgentService.Scripts.DevFlags
import AgentService.Lib.Reached
import AgentService.Scripts.LockPaths
import AgentService.Scripts.Reachability
import AgentService.Scripts.Check
import AgentService.Scripts.Provenance
import AgentService.Scripts.Declared
import AgentService.Gateway.MemberOrder
import AgentService.Gateway.DecodeNoise
import AgentService.Gateway.DecodedFrom
import AgentService.Gateway.FirstAndWhole
import AgentService.Db.HistoryReads
import AgentService.Http.SendJson
import AgentService.Config
import AgentService.IntrospectionUrl
import AgentService.Gateway.ResolvedPath
import AgentService.Gateway.FirstLocation
import AgentService.Gateway.OneUtf8
import AgentService.Lib.Machine
import AgentService.Db.Pool
import AgentService.Db.PoolLeases
import AgentService.Db.PoolRuns
import AgentService.Lib.Listing
import AgentService.Lib.Upsert
import AgentService.Db.Mysql
import AgentService.Db.Ledger
import AgentService.Db.LedgerReads
import AgentService.Controllers.HistoryRuns
import AgentService.Controllers.HistoryAnswers
import AgentService.Db.Setup
import AgentService.Startup
import AgentService.Http.Declaring
import AgentService.App
import AgentService.Routes
import AgentService.Access
import AgentService.Controllers.Relayed
import AgentService.Scripts.Gate
import AgentService.Http.UnreadBody
import AgentService.Shutdown
