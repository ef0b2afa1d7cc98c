import P2Purr.Wire
import P2Purr.Building
import P2Purr.Attachments
import P2Purr.Cursors
import P2Purr.Decoding
import P2Purr.Verdict
import P2Purr.SocketHelper
import P2Purr.PeerConnHandler
import P2Purr.Reception
import P2Purr.Connection
import P2Purr.Robustness
import P2Purr.Reassembly
import P2Purr.Delivery
import P2Purr.Sending
import P2Purr.FileTransfer
import P2Purr.Lengths
import P2Purr.Grammar
import P2Purr.IntCodecs
import P2Purr.FloatSerializer
import P2Purr.RoundTrip
import P2Purr.Conservation
import P2Purr.BufferBounds
import P2Purr.P2PurrServer
import P2Purr.ServerRuns
import P2Purr.PollList
import P2Purr.PeerTable
import P2Purr.Limits
import P2Purr.HangUp
import P2Purr.Shutdown
import P2Purr.Outgoing
import P2Purr.Routing
import P2Purr.PollLoop
import P2Purr.Pipe
import P2Purr.Link
import P2Purr.Isolation
import P2Purr.Network
import P2Purr.PollThread
import P2Purr.Descriptors
import P2Purr.Hostile
import P2Purr.Relay
import P2Purr.Exchange
import P2Purr.Untrusted
import P2Purr.Footprint
