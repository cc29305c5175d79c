import MuxRuntime.Values.Keyed
import MuxRuntime.Sql.Spans
import MuxRuntime.Sql.Batch
import MuxRuntime.Sql.Custody
import MuxRuntime.Sql.Exclusion
import MuxRuntime.Sql.Closing
import MuxRuntime.Sql.Migrating
import MuxRuntime.Json.Lexing
import MuxRuntime.Json.Tokens
import MuxRuntime.Json.Merging
import MuxRuntime.Json.Laws
import MuxRuntime.Http.Coding
import MuxRuntime.Http.Framing
import MuxRuntime.Http.Routing
import MuxRuntime.Http.Middleware
import MuxRuntime.Http.WebSocket
import MuxRuntime.Http.Authority
import MuxRuntime.Http.Oidc
import MuxRuntime.Crypto.Integrity
import MuxRuntime.Sync.Schedules
import MuxRuntime.Sync.Semaphore
import MuxRuntime.Cli.Counting
import MuxRuntime.Cli.Contract
import MuxRuntime.Cli.Response
import MuxRuntime.Stream.Teeing
import MuxRuntime.Datetime.Zoned
import MuxRuntime.Net.Cidr
import MuxRuntime.Random.Sampling
import MuxRuntime.Values.Queues
