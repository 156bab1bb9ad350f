import Testimony.Block
import Testimony.Capture
import Testimony.Client.Block
import Testimony.Client.Caller
import Testimony.Client.Calls
import Testimony.Client.Connect
import Testimony.Client.Init
import Testimony.Client.Iter
import Testimony.Client.Lifetime
import Testimony.Client.Recv
import Testimony.Client.Threads
import Testimony.Daemon.AFPacket
import Testimony.Daemon.Config
import Testimony.Daemon.Filter
import Testimony.Daemon.Front
import Testimony.Daemon.Handle
import Testimony.Daemon.Log
import Testimony.Daemon.Reads
import Testimony.Daemon.Serve
import Testimony.Daemon.Single
import Testimony.Daemon.State
import Testimony.Daemon.Step
import Testimony.GoClient.Conn
import Testimony.GoClient.Init
import Testimony.GoClient.Iter
import Testimony.GoClient.Lifetime
import Testimony.GoClient.Program
import Testimony.GoSession
import Testimony.Handoff
import Testimony.Handshake
import Testimony.Lib.BigEndian
import Testimony.Lib.CInt
import Testimony.Lib.Channel
import Testimony.Lib.Cuts
import Testimony.Lib.Decimal
import Testimony.Lib.Except
import Testimony.Lib.FreeNumbers
import Testimony.Lib.GoInt
import Testimony.Lib.History
import Testimony.Lib.Progress
import Testimony.Lib.Reader
import Testimony.Lib.Socket
import Testimony.Lib.Transition
import Testimony.Lib.Update
import Testimony.Lib.Words
import Testimony.Proofs.Capture
import Testimony.Proofs.Client.Block
import Testimony.Proofs.Client.Caller
import Testimony.Proofs.Client.Calls
import Testimony.Proofs.Client.Connect
import Testimony.Proofs.Client.Lifetime
import Testimony.Proofs.Client.Recv
import Testimony.Proofs.Client.Threads
import Testimony.Proofs.Conserved
import Testimony.Proofs.Daemon.AFPacket
import Testimony.Proofs.Daemon.Accept
import Testimony.Proofs.Daemon.Attach
import Testimony.Proofs.Daemon.Contents
import Testimony.Proofs.Daemon.Delivery
import Testimony.Proofs.Daemon.Exclusive
import Testimony.Proofs.Daemon.Fanout
import Testimony.Proofs.Daemon.Filter
import Testimony.Proofs.Daemon.Front
import Testimony.Proofs.Daemon.Holders
import Testimony.Proofs.Daemon.Ids
import Testimony.Proofs.Daemon.Layout
import Testimony.Proofs.Daemon.Lifecycle
import Testimony.Proofs.Daemon.Moves
import Testimony.Proofs.Daemon.NewSocket
import Testimony.Proofs.Daemon.Projection
import Testimony.Proofs.Daemon.Race
import Testimony.Proofs.Daemon.Rest
import Testimony.Proofs.Daemon.Returns
import Testimony.Proofs.Daemon.Routing
import Testimony.Proofs.Daemon.Segmentation
import Testimony.Proofs.Daemon.Single
import Testimony.Proofs.Daemon.Teardown
import Testimony.Proofs.Daemon.Trace
import Testimony.Proofs.Daemon.Up
import Testimony.Proofs.Daemon.Work
import Testimony.Proofs.Drain
import Testimony.Proofs.EndToEnd
import Testimony.Proofs.GoClient.Block
import Testimony.Proofs.GoClient.Connect
import Testimony.Proofs.GoClient.Iter
import Testimony.Proofs.GoClient.Lifetime
import Testimony.Proofs.GoClient.Program
import Testimony.Proofs.GoClient.Read
import Testimony.Proofs.GoSession
import Testimony.Proofs.Handoff
import Testimony.Proofs.Handshake
import Testimony.Proofs.Packets
import Testimony.Proofs.Ring
import Testimony.Proofs.Session
import Testimony.Proofs.Stream
import Testimony.Proofs.TestClients
import Testimony.Session
import Testimony.TestClients
import Testimony.Tpacket
import Testimony.Wire
