import BittorrentClient.Dht.NodeId
import BittorrentClient.Library.UnorderedMap

namespace BittorrentClient.Dht
open Cpp

/-- One `announce_peer` that the client should send. -/
structure AnnounceRequest where
  pa : PeerAddress
  infoHash : InfoHash
  listenPort : UInt16
  token : Bytes

structure RegisteredTorrent where
  listenPort : UInt16
  lastRefresh : Nat
  initialLookupPending : Bool

/-- The torrents we seed and the tokens received from other nodes. -/
structure AnnounceCoordinator where
  registered : UnorderedMap InfoHash RegisteredTorrent
  receivedTokens : UnorderedMap PeerAddress Bytes

namespace AnnounceCoordinator

/-- `kAnnounceRefreshInterval`, 12 minutes. -/
def announceRefreshInterval : Nat := 12 * 60 * 10 ^ 9

def make : AnnounceCoordinator := ⟨∅, ∅⟩

/-- `register_torrent`, at the time `now`. -/
def registerTorrent (now : Nat) (infoHash : InfoHash) (port : UInt16) (c : AnnounceCoordinator) : AnnounceCoordinator :=
  { c with registered := c.registered.insert infoHash ⟨port, now, true⟩ }

def unregisterTorrent (infoHash : InfoHash) (c : AnnounceCoordinator) : AnnounceCoordinator :=
  { c with registered := c.registered.erase infoHash }

/-- `on_get_peers_response`, with the request that it appends. -/
def onGetPeersResponse (infoHash : InfoHash) (pa : PeerAddress) (token : Bytes) (c : AnnounceCoordinator) :
    List AnnounceRequest × AnnounceCoordinator :=
  if token.isEmpty then ([], c)
  else
    let c := { c with receivedTokens := c.receivedTokens.insert pa token }
    match c.registered.lookup infoHash with
    | none => ([], c)
    | some torrent => ([⟨pa, infoHash, torrent.listenPort, token⟩], c)

def collectAnnounceAll (infoHash : InfoHash) (port : UInt16) (c : AnnounceCoordinator) : List AnnounceRequest :=
  c.receivedTokens.entries.map fun entry => ⟨entry.1, infoHash, port, entry.2⟩

def torrentsNeedingRefresh (now : Nat) (c : AnnounceCoordinator) : List InfoHash :=
  c.registered.entries.filterMap fun entry =>
    if (now : Int) - entry.2.lastRefresh ≥ announceRefreshInterval then some entry.1 else none

def markRefreshed (infoHash : InfoHash) (now : Nat) (c : AnnounceCoordinator) : AnnounceCoordinator :=
  match c.registered.lookup infoHash with
  | none => c
  | some torrent => { c with registered := c.registered.insert infoHash { torrent with lastRefresh := now } }

def torrentsNeedingInitialLookup (c : AnnounceCoordinator) : List InfoHash :=
  c.registered.entries.filterMap fun entry => if entry.2.initialLookupPending then some entry.1 else none

def markInitialLookupStarted (infoHash : InfoHash) (c : AnnounceCoordinator) : AnnounceCoordinator :=
  match c.registered.lookup infoHash with
  | none => c
  | some torrent =>
    { c with registered := c.registered.insert infoHash { torrent with initialLookupPending := false } }

end AnnounceCoordinator

end BittorrentClient.Dht
