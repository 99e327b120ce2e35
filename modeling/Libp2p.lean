import Libp2p.Protocol.Gossip.Decomposition
import Libp2p.ProtocolMuxer.Agreement
import Libp2p.Protocol.Gossip.Frames
import Libp2p.Protocol.Gossip.EventChains
import Libp2p.Protocol.Gossip.Roster
import Libp2p.Protocol.Gossip.Membership
import Libp2p.Protocol.Gossip.Records
import Libp2p.Protocol.Gossip.Delivery
import Libp2p.Protocol.Gossip.Authenticity
import Libp2p.Protocol.Gossip.Lifetime
import Libp2p.Protocol.Gossip.Announcements
import Libp2p.Protocol.Gossip.Relay
import Libp2p.Network.ListenerManager
import Libp2p.Network.AcceptLoop
import Libp2p.Protocol.Gossip.Standing
import Libp2p.Protocol.Gossip.CacheRuns
import Libp2p.Protocol.Gossip.Backoff
import Libp2p.Protocol.Gossip.BackoffNodes
import Libp2p.Protocol.Gossip.Outbox
import Libp2p.Protocol.Gossip.Pacing
import Libp2p.Protocol.Gossip.Handling
import Libp2p.Protocol.Gossip.Regrafting
import Libp2p.Protocol.Gossip.Lane
import Libp2p.Protocol.Gossip.Writing
import Libp2p.Protocol.Gossip.RoundTrip
import Libp2p.Protocol.Gossip.Turns
import Libp2p.Protocol.Gossip.Spreading
import Libp2p.Protocol.Gossip.Compatibility
import Libp2p.Protocol.Gossip.Advertising
import Libp2p.Protocol.Gossip.Arrival
import Libp2p.Protocol.Gossip.Fanout
import Libp2p.Protocol.Gossip.Requests
import Libp2p.Protocol.Gossip.Amplification
import Libp2p.Protocol.Gossip.Promises
import Libp2p.Network.ConnectionManager
import Libp2p.Multi.Base58
import Libp2p.Multi.Protocols
import Libp2p.Network.Dialer
import Libp2p.Multi.Converters
import Libp2p.Multi.Values
import Libp2p.Library.Words
import Libp2p.Multi.Components
import Libp2p.Library.Search
import Libp2p.Multi.Multiaddress
import Libp2p.Multi.Canonical
import Libp2p.Multi.Capsules
import Libp2p.Multi.Accessors
import Libp2p.Library.Totals
import Libp2p.Protocol.Gossip.ScoreRuns
import Libp2p.Library.Extended
import Libp2p.Protocol.Gossip.TimeInMesh
import Libp2p.Protocol.Gossip.Credit
import Libp2p.Protocol.Gossip.Marks
import Libp2p.Protocol.Gossip.Leaving
import Libp2p.Library.Groups
import Libp2p.Multi.Base32
import Libp2p.Multi.Base64
import Libp2p.Multi.MultibaseCodec
import Libp2p.Basic.PrefixReader
import Libp2p.Multi.VarintCodecs
import Libp2p.Multi.ContentIdentifier
import Libp2p.Library.Wire
import Libp2p.Basic.Framing
import Libp2p.Library.Thinning
import Libp2p.Protocol.Gossip.Batches
import Libp2p.Library.Ranking
import Libp2p.Protocol.Gossip.Balancing
import Libp2p.Protocol.Gossip.Retention
import Libp2p.Protocol.Gossip.Admission
import Libp2p.Protocol.Gossip.Median
import Libp2p.Protocol.Gossip.Recipients
import Libp2p.Protocol.Gossip.Promisers
import Libp2p.Protocol.Gossip.Republishing
import Libp2p.Protocol.Gossip.Renewal
import Libp2p.Protocol.Gossip.MessageIds
import Libp2p.Multi.TextViews
import Libp2p.Multi.Splitting
import Libp2p.Multi.WireForms
import Libp2p.Peer.Factories
import Libp2p.Peer.PeerAddress
import Libp2p.Security.TlsDetails
import Libp2p.Network.CloseListener
import Libp2p.Peer.ExpirationTime
import Libp2p.Peer.AddressRepository
import Libp2p.Library.Refinement
import Libp2p.Basic.ReadBuffer
import Libp2p.Basic.FixedBufferCollector
import Libp2p.Protocol.Gossip.ScoreBounds
import Libp2p.Library.Interleaving
import Libp2p.Protocol.Gossip.Creation
import Libp2p.Protocol.Gossip.Network
import Libp2p.Protocol.Gossip.Integrity
import Libp2p.Protocol.Gossip.Wires
import Libp2p.Protocol.Ping
import Libp2p.Protocol.Echo
import Libp2p.Network.Routing
import Libp2p.Network.DispatchRuns
import Libp2p.Library.Tokens
import Libp2p.Transport.Quic.Streams
import Libp2p.Transport.Quic.StreamSafety
import Libp2p.Transport.Quic.StreamRuns
import Libp2p.Transport.Quic.Connections
import Libp2p.Transport.Quic.ConnectionSafety
import Libp2p.Transport.Quic.ConnectionRuns
import Libp2p.Library.Ordered
import Libp2p.Library.Since
import Libp2p.Library.Resettable
import Libp2p.Peer.ProtocolRepository
import Libp2p.Peer.UserAgentRepository
import Libp2p.Protocol.Identify
import Libp2p.Security.Identity
import Libp2p.Transport.Endpoints
