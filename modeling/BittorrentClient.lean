import BittorrentClient.Torrent.Parse
import BittorrentClient.Bencode.RoundTrip
import BittorrentClient.Dht.Exhaustion
import BittorrentClient.Dht.LookupDiscipline
import BittorrentClient.Dht.KrpcRoundTrip
import BittorrentClient.Dht.RoutingTable
import BittorrentClient.Dht.TokenSecretRotator
import BittorrentClient.Disk.Refinement
import BittorrentClient.Peer.Claims
import BittorrentClient.Peer.FailedWrite
import BittorrentClient.Pieces.OnDisk
import BittorrentClient.Torrent.LogDirectory
import BittorrentClient.Torrent.PieceGeometry
import BittorrentClient.Dht.AnnounceTokens
import BittorrentClient.Dht.GoodEntries
import BittorrentClient.Dht.StoreRoundTrip
import BittorrentClient.Dht.LivePeers
import BittorrentClient.Dht.AddEntry
import BittorrentClient.Peer.Framing
import BittorrentClient.Peer.Assembled
import BittorrentClient.Peer.Shutdown
import BittorrentClient.Dht.BucketGeometry
import BittorrentClient.Bencode.IntegerTokens
import BittorrentClient.Peer.Deserialize
import BittorrentClient.Peer.Bitfield
import BittorrentClient.Utils.LruRefinement
import BittorrentClient.Disk.Locking
import BittorrentClient.Dht.DamagedStore
import BittorrentClient.Trackers.HttpAnnounce
import BittorrentClient.Trackers.CompactPeers
import BittorrentClient.Trackers.UdpExchange
import BittorrentClient.Disk.WholePieces
import BittorrentClient.Peer.Delivery
import BittorrentClient.Peer.Conversation
import BittorrentClient.Dht.PeerOrigins
import BittorrentClient.Trackers.HttpResponse
import BittorrentClient.Dht.BucketRefresh
import BittorrentClient.Torrent.TrackerPeers
import BittorrentClient.Trackers.HttpScrape
import BittorrentClient.Peer.Overlap
