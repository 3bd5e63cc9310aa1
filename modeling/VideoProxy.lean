import VideoProxy.CachedPrefix
import VideoProxy.DataSource.Unfolding
import VideoProxy.FetchedInterval
import VideoProxy.Handlers.Forwarding
import VideoProxy.Handlers.SingleFlight
import VideoProxy.Hls.Attributes
import VideoProxy.Hls.Session
import VideoProxy.P2p.Invalidation
import VideoProxy.P2p.VerifiedPieces
import VideoProxy.P2pNetwork.BencodeSpelling
import VideoProxy.P2pNetwork.Dht
import VideoProxy.P2pNetwork.DownloadFromPeers
import VideoProxy.P2pNetwork.InfoHash
import VideoProxy.P2pNetwork.InfoMetadata
import VideoProxy.P2pNetwork.Metadata
import VideoProxy.P2pNetwork.RarestFirst
import VideoProxy.P2pNetwork.RoutingTable
import VideoProxy.PlaylistRequest
import VideoProxy.Server
import VideoProxy.SourceRefresh
import VideoProxy.Storage.Eviction
import VideoProxy.Storage.HoleRace
import VideoProxy.Storage.Legacy
import VideoProxy.Storage.MetadataRace
import VideoProxy.Storage.Recovery
import VideoProxy.Storage.Soundness
import VideoProxy.Storage.Victims
import VideoProxy.Storage.WarmUp
import VideoProxy.Utils.EmbeddedIpv4
import VideoProxy.Utils.RangeGrammar
