import Minnow.Library.Run
import Minnow.Library.SortedMap
import Minnow.Library.Chunks
import Minnow.Library.Tiling
import Minnow.Library.BigEndian
import Minnow.Library.OnesComplement
import Minnow.Library.EntryLoop
import Minnow.Library.Simulation
import Minnow.Library.ByteReader
import Minnow.Library.Attains
import Minnow.WrappingIntegers
import Minnow.ByteStream
import Minnow.Messages
import Minnow.Reassembler
import Minnow.ReassemblerStore
import Minnow.ReassemblerInsert
import Minnow.ReassemblerStream
import Minnow.ReassemblerByteSet
import Minnow.ReassemblerInvariant
import Minnow.TCPReceiver
import Minnow.ReceiverRefinement
import Minnow.ReceiverEnd
import Minnow.ReceiverStream
import Minnow.ReceiverWindow
import Minnow.TCPSender
import Minnow.SenderSteps
import Minnow.SenderInvariant
import Minnow.SenderTimer
import Minnow.SenderFlowControl
import Minnow.SenderStream
import Minnow.SenderWire
import Minnow.Connection
import Minnow.ConnectionInvariant
import Minnow.ConnectionSafety
import Minnow.ConnectionProgress
import Minnow.Parser
import Minnow.ParserReads
import Minnow.Checksum
import Minnow.IPv4
import Minnow.IPv4Wire
import Minnow.Ethernet
import Minnow.NetworkInterface
import Minnow.InterfaceSlots
import Minnow.InterfaceRequests
import Minnow.InterfaceCache
import Minnow.InterfaceLedger
import Minnow.Router
import Minnow.RouterHop
import Minnow.TCPOverIP
import Minnow.TCPOverIPWire
import Minnow.TCPPeer
import Minnow.PeerShutdown
import Minnow.Exchange
import Minnow.ExchangeDirection
import Minnow.ExchangeInvariant
import Minnow.ExchangeQuiet
import Minnow.Ignored
import Minnow.SenderPush
import Minnow.ChecksumValue
import Minnow.PeerReset
import Minnow.InterfaceTables
import Minnow.RouterForwarding
import Minnow.ParserPosition
import Minnow.IPv4Length
import Minnow.ParserRefinement
import Minnow.Library.Network
import Minnow.InterfaceFrames
import Minnow.NetworkSegment
import Minnow.SegmentResolution
import Minnow.Conversation
import Minnow.ConversationSafety
import Minnow.FileDescriptor
import Minnow.EventLoop
import Minnow.EventLoopRules
import Minnow.StreamCopy
import Minnow.StreamCopyInvariant
import Minnow.StreamCopyCompletion
import Minnow.Library.NetworkRefinement
import Minnow.ConversationEnd
import Minnow.SenderPace
import Minnow.ConversationProgress
import Minnow.ConversationRecovery
import Minnow.PlainMessages
import Minnow.ParserPadding
import Minnow.DatagramAdapter
import Minnow.AdapterWire
import Minnow.MinnowSocket
import Minnow.SocketRules
import Minnow.SocketPair
import Minnow.SocketEnd
import Minnow.Internet
import Minnow.ConversationProgress
import Minnow.ConversationRecovery
