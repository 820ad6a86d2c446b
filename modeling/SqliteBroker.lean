import SqliteBroker.ReplyFrames
import SqliteBroker.Replies
import SqliteBroker.WorkConserving
import SqliteBroker.AutocommitMirror
import SqliteBroker.CounterMirror
import SqliteBroker.BoundValues
import SqliteBroker.Base64Forms
import SqliteBroker.Handles
import SqliteBroker.SharedHandle
import SqliteBroker.Pairing
import SqliteBroker.CachedState
import SqliteBroker.Scripts
import SqliteBroker.StatementTails
import SqliteBroker.ScriptColumns
import SqliteBroker.Refusals
import SqliteBroker.StormAudit
import SqliteBroker.FrameStream
import SqliteBroker.ColumnBuffers
import SqliteBroker.ParamNames
import SqliteBroker.Destructors
import SqliteBroker.IntegerColumns
import SqliteBroker.Keyword
import SqliteBroker.Stub
import SqliteBroker.AuditedWrites
import SqliteBroker.ExactlyOnce
import SqliteBroker.SerialClients
import SqliteBroker.Progress
import SqliteBroker.Publication
