import Everscale.Base.Error
import Everscale.Base.ConnectedSocket
import Everscale.Base.Buffer
import Everscale.HttpCommon.Octet
import Everscale.HttpCommon.Message
import Everscale.Theory.Resumable
import Everscale.Base.Reader
import Everscale.Base.Writer
import Everscale.HttpCommon.Util
import Everscale.HttpCommon.Format
import Everscale.Theory.Elements
import Everscale.Theory.Lines
import Everscale.Base.Formatter
import Everscale.Http1.MessageParser
import Everscale.Http1.RequestParser
import Everscale.Http1.ResponseParser
import Everscale.Http1.ElementStream
import Everscale.Http1.HeaderStream
import Everscale.Http1.RequestStream
import Everscale.Http1.ResponseStream
import Everscale.Http1.Receive
import Everscale.Http1.ChunkHeader
import Everscale.Http1.ChunkedCoding
import Everscale.Http1.BodyStream
import Everscale.Http1.ReceiveBody
import Everscale.Http1.MessageFormatter
import Everscale.Http1.RequestFormatter
import Everscale.Http1.ResponseFormatter
import Everscale.Http1.HeadElements
import Everscale.Http1.AcceptedHead
import Everscale.Http1.Framing
import Everscale.Http1.ContentLength
import Everscale.Http1.Send
import Everscale.Http1.SendBody
import Everscale.Http1.GatheredText
import Everscale.Http1.AcceptedText
import Everscale.Http1.FormattedHead
import Everscale.Http1.FormattedFraming
import Everscale.Http1.Scheme
import Everscale.Http1.Sockets
import Everscale.Http1.ServerSocket
import Everscale.Http1.ClientSocket
import Everscale.Theory.Kept
import Everscale.Http1.ServerMachine
import Everscale.Http1.ClientMachine
import Everscale.Http1.Streams
import Everscale.Http1.Multiplexer
import Everscale.Http1.Application
import Everscale.Http1.SystemMachine
import Everscale.Proxy.RoutingProxyHandler
import Everscale.Http1.SocketInvariant
import Everscale.Http1.UnsentOctets
import Everscale.Http1.FinalFlush
import Everscale.Http1.Retry
import Everscale.Theory.Dyadic
import Everscale.Theory.DoublyLinked
import Everscale.Theory.Memory
import Everscale.Base.BuddyAllocator
import Everscale.Base.BuddyLists
import Everscale.Base.BuddyInvariant
import Everscale.Base.BuddyRun
import Everscale.Base.BuddyCacheAllocator
import Everscale.Base.BuddyCacheRun
import Everscale.Theory.Layout
import Everscale.Base.DiscardAllocator
import Everscale.Base.DiscardRun
import Everscale.Http1.LineEnd
import Everscale.Http1.Assertions
import Everscale.Http1.MalformedInput
import Everscale.Theory.Interleaving
import Everscale.Base.SharedEmbeddedQueue
import Everscale.Base.SharedQueue
import Everscale.Theory.Agenda
import Everscale.Base.FlatTimingWheel
import Everscale.Base.EpollMultiplexer
import Everscale.Base.EpollSound
import Everscale.Base.EpollRun
import Everscale.Theory.Packed
import Everscale.Theory.Serving
import Everscale.Theory.Glob
import Everscale.Theory.Referenced
import Everscale.Base.String
import Everscale.Base.SizedBuffer
import Everscale.Base.CompactStringMap
import Everscale.Base.EmbeddedMapBase
import Everscale.Base.ReferencedMap
import Everscale.Base.WildcardIndexNode
import Everscale.Base.WildcardIndex
import Everscale.Base.WildcardMatch
import Everscale.Base.SharedEmbeddedMap
import Everscale.Base.ElementCount
import Everscale.Base.TLSContextIndex
import Everscale.Base.ASTElement
import Everscale.Base.ASTTree
import Everscale.Theory.Document
import Everscale.Base.TreeOwnership
import Everscale.Base.TreeReplay
import Everscale.Http1.UriOrder
import Everscale.HttpCommon.PeerAddress
import Everscale.Base.SocketAddress
import Everscale.Base.ConnectionPool
import Everscale.Base.ASTMap
import Everscale.Base.WildcardScore
import Everscale.Base.List
import Everscale.Base.BuddyRequests
import Everscale.Base.TimeSeries
import Everscale.Base.UniqueId
import Everscale.Base.BufferRun
import Everscale.Base.EmbeddedList
import Everscale.HttpCommon.LinearWhiteSpace
import Everscale.Base.Map
import Everscale.Base.MapTree
import Everscale.Base.MapInsert
import Everscale.Base.MapRemove
import Everscale.Base.MapRun
import Everscale.Base.MapWalk
import Everscale.Base.MapTraversal
import Everscale.Base.MapFinite
import Everscale.Base.EpollTurns
import Everscale.Http1.RequestTarget
import Everscale.Http1.CleanHead
import Everscale.Http1.StoredSize
import Everscale.Http1.ReadBack
import Everscale.Http1.TargetShape
import Everscale.Http1.TargetReading
import Everscale.Http1.TargetReadBack
import Everscale.Http1.RequestReadBack
