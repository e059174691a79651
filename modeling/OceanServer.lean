import OceanServer.Http.Body
import OceanServer.Timer.Runs
import OceanServer.Timer.Insertion
import OceanServer.Server.Connections
import OceanServer.Server.Handshake
import OceanServer.Pool.ThreadPool
import OceanServer.Pool.SqlPool
import OceanServer.Log.BlockQueue
import OceanServer.Http.DoRequest
import OceanServer.Http.Accounts
import OceanServer.Http.Registration
import OceanServer.Http.SlotReuse
import OceanServer.Server.Exclusive
import OceanServer.Pool.Crew
import OceanServer.Log.AsyncLog
import OceanServer.Im.ConsistentHash
import OceanServer.Im.Redis
import OceanServer.Im.Sessions
import OceanServer.Im.LastSend
import OceanServer.Http.RequestLine
import OceanServer.Net.Logger
import OceanServer.Http.Reception
import OceanServer.Http.Credentials
import OceanServer.Library.LexicalPath
import OceanServer.Http.Paths
import OceanServer.Http.WriteBuffer
import OceanServer.Http.Framing
import OceanServer.Http.ReadOnce
import OceanServer.Http.Headers
import OceanServer.Http.Statement
import OceanServer.Server.Responses
import OceanServer.Http.LineEndings
import OceanServer.Library.ArcCount
import OceanServer.Im.Ownership
import OceanServer.Log.Observers
import OceanServer.Log.Format
import OceanServer.Log.Rotation
import OceanServer.Log.TimedPop
import OceanServer.Pool.Constructor
import OceanServer.Server.Descriptors
import OceanServer.Net.Pattern
import OceanServer.Net.Rendering
import OceanServer.Im.GroupMsg
import OceanServer.Library.Scanf
import OceanServer.Im.LastSendRecord
import OceanServer.Http.LineRuns
import OceanServer.Server.Signals
import OceanServer.Server.Idle
import OceanServer.Http.Exchange
import OceanServer.Http.SignIn
import OceanServer.Server.OneAnswer
import OceanServer.Server.Serving
import OceanServer.Server.Startup
import OceanServer.Pool.Shutdown
import OceanServer.Im.Messages
import OceanServer.Library.FileStream
import OceanServer.Log.SyncLog
import OceanServer.Net.Logging
