import Pipebomb.Lib.Bytes
import Pipebomb.Lib.Dict
import Pipebomb.Lib.Framing
import Pipebomb.Lib.Inlet
import Pipebomb.Lib.Run
import Pipebomb.Lib.Line
import Pipebomb.Lib.TwoWay
import Pipebomb.Lib.Linear
import Pipebomb.Lib.Symbolic
import Pipebomb.Py
import Pipebomb.Packet
import Pipebomb.Stub
import Pipebomb.Channel
import Pipebomb.State
import Pipebomb.Checkpoint
import Pipebomb.CheckpointRoundTrip
import Pipebomb.Admin
import Pipebomb.CheckpointEffect
import Pipebomb.Handler
import Pipebomb.Accept
import Pipebomb.System
import Pipebomb.RawClient
import Pipebomb.Fields
import Pipebomb.Moves
import Pipebomb.Network
import Pipebomb.Link
import Pipebomb.Frame
import Pipebomb.Trace
import Pipebomb.Sound
import Pipebomb.Office
import Pipebomb.Answers
import Pipebomb.Sessions
import Pipebomb.Store
import Pipebomb.ByValue
import Pipebomb.Storage
import Pipebomb.Names
import Pipebomb.CheckpointRun
import Pipebomb.Mailbox
import Pipebomb.Persistence
import Pipebomb.ServerLink
import Pipebomb.ClientLink
import Pipebomb.Ownership
import Pipebomb.Replay
import Pipebomb.Nonces
import Pipebomb.Secrecy
import Pipebomb.Handshake
import Pipebomb.Keys
import Pipebomb.Login
import Pipebomb.Agreement
import Pipebomb.Wire
import Pipebomb.ServerFeed
import Pipebomb.ClientFeed
import Pipebomb.Halves
import Pipebomb.Lockstep
import Pipebomb.Correlation
import Pipebomb.Conversation
import Pipebomb.Teardown
import Pipebomb.Pass
import Pipebomb.Lib.Mutex
import Pipebomb.DbLock
import Pipebomb.Uuids
import Pipebomb.SetGet
import Pipebomb.OutboxLock
import Pipebomb.Waiting
import Pipebomb.InLine
import Pipebomb.GetReturns
import Pipebomb.MailPath
import Pipebomb.Delivery
import Pipebomb.ErrorReplies
import Pipebomb.Grammar
import Pipebomb.Service
import Pipebomb.Gate
import Pipebomb.Headers
import Pipebomb.Segments
import Pipebomb.AllOrNothing
import Pipebomb.Output
import Pipebomb.Truncation
import Pipebomb.GoTasks
import Pipebomb.CancelTask
import Pipebomb.GoMaps
import Pipebomb.GoPath
import Pipebomb.PasswordFirst
import Pipebomb.Leftovers
import Pipebomb.Atomic
import Pipebomb.Lifecycle
import Pipebomb.Json
import Pipebomb.Operations
import Pipebomb.Restart
import Pipebomb.GoModule
import Pipebomb.Stages
import Pipebomb.Joining
import Pipebomb.Canonical
import Pipebomb.CheckpointEnd
import Pipebomb.Asking
import Pipebomb.OperationEnds
