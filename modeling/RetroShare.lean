import RetroShare.Foundation.Transition
import RetroShare.Foundation.Word
import RetroShare.Foundation.OrderedMap
import RetroShare.Foundation.Extent
import RetroShare.Foundation.Multimap
import RetroShare.Ft.ChunkMap
import RetroShare.Ft.ChunkMapRun
import RetroShare.Ft.Proof.ChunkSizes
import RetroShare.Ft.Proof.ChunkMapSlices
import RetroShare.Ft.Proof.ChunkMapSteps
import RetroShare.Ft.Proof.SliceAccounting
import RetroShare.Ft.Proof.Completion
import RetroShare.Ft.FileCreator
import RetroShare.Ft.FileCreatorRun
import RetroShare.Ft.Proof.PieceTable
import RetroShare.Ft.Proof.PendingSlices
import RetroShare.Ft.Proof.CreatorFrame
import RetroShare.Ft.Proof.PendingTable
import RetroShare.Ft.Proof.VerifiedData
import RetroShare.Ft.Proof.Serving
import RetroShare.Foundation.Bytes
import RetroShare.Serialiser.BaseSerial
import RetroShare.Serialiser.TypeSerializer
import RetroShare.Serialiser.GenericSerializer
import RetroShare.Serialiser.Proof.Encoding
import RetroShare.Serialiser.Proof.RoundTrip
import RetroShare.Serialiser.Proof.Bounds
import RetroShare.Serialiser.Proof.Truncation
import RetroShare.Util.RegularExpression
import RetroShare.Util.Proof.Linearize
import RetroShare.Foundation.Limbs
import RetroShare.Crypto.Uint256
import RetroShare.Crypto.Proof.Uint256
import RetroShare.Crypto.Rfc7539
import RetroShare.Crypto.Proof.Poly1305
import RetroShare.Crypto.ChaCha20
import RetroShare.Crypto.Proof.Aead
import RetroShare.FileSharing.DirHierarchy
import RetroShare.FileSharing.HierarchyUpdates
import RetroShare.FileSharing.Proof.Table
import RetroShare.FileSharing.Proof.Totals
import RetroShare.FileSharing.Proof.Removal
import RetroShare.FileSharing.Proof.Orphans
import RetroShare.FileSharing.Proof.Loading
import RetroShare.FileSharing.Proof.Statistics
import RetroShare.Foundation.Forest
import RetroShare.FileSharing.Proof.Links
import RetroShare.FileSharing.Proof.Tree
import RetroShare.FileSharing.Proof.PeerUpdate
import RetroShare.FileSharing.Proof.TreeRuns
import RetroShare.FileSharing.Proof.DirHashes
import RetroShare.FileSharing.Proof.DirLookup
import RetroShare.Serialiser.Tlv
import RetroShare.Serialiser.Proof.Tlv
import RetroShare.FileSharing.SyncResponses
import RetroShare.FileSharing.Proof.SyncResponses
import RetroShare.Dht.Peer
import RetroShare.Dht.Space
import RetroShare.Dht.Query
import RetroShare.Dht.Proof.Space
import RetroShare.Dht.Proof.PeerOrder
import RetroShare.Dht.Proof.Query
import RetroShare.Dht.Proof.QueryEnd
import RetroShare.Dht.Proof.Proxies
import RetroShare.GxsTunnel.Service
import RetroShare.GxsTunnel.Proof.Frames
import RetroShare.GxsTunnel.Proof.KeyAuthentication
import RetroShare.Foundation.KeyExchange
import RetroShare.GxsTunnel.Link
import RetroShare.GxsTunnel.Proof.Renegotiation
import RetroShare.GxsTunnel.Network
import RetroShare.GxsTunnel.Proof.ExactlyOnce
import RetroShare.GRouter.Router
import RetroShare.GRouter.Proof.Entries
import RetroShare.GRouter.Proof.Receipts
import RetroShare.GRouter.Proof.Delivery
import RetroShare.GxsTrans.Cleanup
import RetroShare.GxsTrans.Proof.Cleanup
import RetroShare.Util.SockAddr
import RetroShare.BanList.Service
import RetroShare.BanList.Ranges
import RetroShare.BanList.Proof.Ranges
import RetroShare.BanList.Proof.Decisions
import RetroShare.Foundation.Noninterference
import RetroShare.BanList.Proof.Isolation
import RetroShare.BanList.Proof.Friends
import RetroShare.Chat.DistributedChat
import RetroShare.Chat.Proof.OnlyOnce
import RetroShare.Foundation.Search
import RetroShare.Util.RsUrl
import RetroShare.Util.Proof.UrlCoding
import RetroShare.Util.Proof.UrlQuery
import RetroShare.Util.Proof.UrlParts
import RetroShare.Util.Proof.UrlStages
import RetroShare.Util.Proof.RsUrl
import RetroShare.Util.SockAddrText
import RetroShare.Util.Proof.SockAddrText
import RetroShare.Util.Radix64
import RetroShare.Util.Proof.Radix64
import RetroShare.Pgp.PgpKeyUtil
import RetroShare.Pgp.RsCertificate
import RetroShare.Pgp.Proof.Sections
import RetroShare.Pgp.Proof.AnyText
import RetroShare.Pgp.Proof.RoundTrip
import RetroShare.Foundation.StreamMatch
import RetroShare.Serialiser.Proof.BombFilter
import RetroShare.Serialiser.Proof.Containers
import RetroShare.Foundation.Outcome
import RetroShare.Ft.DownloadQueue
import RetroShare.Ft.Proof.DownloadQueue
import RetroShare.Ft.Proof.DownloadRuns
import RetroShare.Util.Proof.IgnoreCase
import RetroShare.Util.Proof.SizeSearch
import RetroShare.Util.UntrustedExpression
import RetroShare.Util.Proof.UntrustedExpression
import RetroShare.Pqi.PqiStreamer
import RetroShare.Pqi.Proof.PacketLengths
import RetroShare.Pqi.Proof.Resynchronisation
import RetroShare.Foundation.Segments
import RetroShare.Tcp.TcpStream
import RetroShare.Tcp.Proof.Buffers
import RetroShare.Tcp.Proof.SoundRuns
import RetroShare.Tcp.Proof.SendWindow
import RetroShare.Tcp.Proof.Delivery
import RetroShare.Turtle.Search
import RetroShare.Turtle.Proof.HitBudget
import RetroShare.Turtle.Tunnels
import RetroShare.Turtle.Proof.TunnelRoutes
import RetroShare.Turtle.Proof.TunnelTables
import RetroShare.Turtle.Proof.TunnelItems
import RetroShare.Turtle.Proof.TunnelRuns
import RetroShare.Foundation.Tally
import RetroShare.Ft.Proof.PeerCounts
import RetroShare.Ft.Proof.SliceAvailability
import RetroShare.FileSharing.RecursTimes
import RetroShare.FileSharing.Proof.RecursTimes
import RetroShare.FileSharing.Proof.HashingShows
import RetroShare.FileSharing.FriendIndex
import RetroShare.FileSharing.Proof.FriendIndex
import RetroShare.FileSharing.BannedFiles
import RetroShare.FileSharing.Proof.BannedFiles
import RetroShare.Foundation.Traced
import RetroShare.Foundation.Loop
import RetroShare.Foundation.Rounding
import RetroShare.Chat.Participants
import RetroShare.Chat.Proof.Participants
import RetroShare.Gxs.Transactions
import RetroShare.Gxs.Proof.Transactions
import RetroShare.GRouter.DataPipes
import RetroShare.GRouter.Proof.DataPipes
import RetroShare.GRouter.Matrix
import RetroShare.GRouter.Friends
import RetroShare.GRouter.Proof.Friends
import RetroShare.GRouter.Proof.Matrix
import RetroShare.Gxs.Vetting
import RetroShare.Gxs.Proof.Vetting
import RetroShare.Ft.ChunkCrc
import RetroShare.Ft.Proof.ChunkCrc
import RetroShare.FileSharing.HashSearch
import RetroShare.FileSharing.Proof.HashSearch
import RetroShare.Crypto.Quotient
import RetroShare.Crypto.Proof.Quotient
import RetroShare.Ft.Progress
import RetroShare.Ft.Proof.Progress
import RetroShare.Util.MemCache
import RetroShare.Util.Proof.MemCache
import RetroShare.Gxs.PublishKeys
import RetroShare.Gxs.Proof.PublishKeys
import RetroShare.Foundation.Latest
import RetroShare.Gxs.MessageQueries
import RetroShare.Gxs.Proof.MessageQueries
import RetroShare.Gxs.IntegrityCheck
import RetroShare.Gxs.Proof.IntegrityCheck
import RetroShare.Util.RsMemory
import RetroShare.Gxs.Envelopes
import RetroShare.Gxs.Proof.Envelopes
import RetroShare.Foundation.FreeList
import RetroShare.Util.SmallObject
import RetroShare.Util.Proof.SmallBlocks
import RetroShare.Util.Proof.SmallLayout
import RetroShare.Util.Proof.SmallObject
import RetroShare.Foundation.Dividers
import RetroShare.Pqi.PqiQoS
import RetroShare.Pqi.Proof.QosQueue
import RetroShare.Pqi.Proof.QosFairness
import RetroShare.Pqi.Proof.QosDelivery
