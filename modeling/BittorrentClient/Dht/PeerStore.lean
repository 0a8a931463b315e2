import BittorrentClient.Dht.NodeId
import BittorrentClient.Utils.LruCache

namespace BittorrentClient.Dht
open Cpp

/-- The peers of one hash, with the time each was last seen. -/
abbrev HashBucket := LruCache PeerAddress Nat

/-- `DhtPeerStore`. -/
structure PeerStore where
  buckets : LruCache InfoHash HashBucket

namespace PeerStore

/-- `PEER_ENTRY_TTL`, 30 minutes. -/
def peerEntryTtl : Nat := 30 * 60 * 10 ^ 9

def maxPeersPerHash : Nat := 50

def maxInfoHashes : Nat := 10000

def make : PeerStore := ⟨.make maxInfoHashes⟩

/-- Whether even the most recently seen peer is past its time. -/
def bucketIsDead (now : Nat) (peers : HashBucket) : Bool :=
  match peers.items with
  | [] => true
  | front :: _ => (now : Int) - front.value ≥ peerEntryTtl

/-- `expire_stale`, at the time `now`. -/
def expireStale (now : Nat) (store : PeerStore) : PeerStore :=
  ⟨store.buckets.items.foldl
    (fun buckets node => if bucketIsDead now node.value then buckets.eraseAt node else buckets) store.buckets⟩

def ensureBucket (infoHash : InfoHash) (store : PeerStore) : PeerStore :=
  match store.buckets.get infoHash with
  | (some _, buckets) => ⟨buckets⟩
  | (none, buckets) => ⟨(buckets.put infoHash (.make maxPeersPerHash)).2⟩

/-- `upsert`, at the time `now`. -/
def upsert (now : Nat) (infoHash : InfoHash) (pa : PeerAddress) (store : PeerStore) : PeerStore :=
  let (bucket, buckets) :=
    match store.buckets.get infoHash with
    | (some bucket, buckets) => (bucket, buckets)
    | (none, buckets) => buckets.put infoHash (.make maxPeersPerHash)
  ⟨buckets.modifyAt bucket fun peers => (peers.put pa now).2⟩

/-- `live_peers`, at the time `now`. -/
def livePeers (now : Nat) (infoHash : InfoHash) (store : PeerStore) : List PeerAddress × PeerStore :=
  match store.buckets.get infoHash with
  | (none, buckets) => ([], ⟨buckets⟩)
  | (some bucket, buckets) =>
    let peers := (buckets.valueAt bucket).elim [] LruCache.items
    (peers.filterMap fun node => if (now : Int) - node.value < peerEntryTtl then some node.key else none, ⟨buckets⟩)

end PeerStore

end BittorrentClient.Dht
