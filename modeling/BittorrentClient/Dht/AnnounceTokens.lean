import BittorrentClient.Dht.ServerReplies

namespace BittorrentClient.Dht
open Cpp Machine Krpc TokenSecretRotator

namespace Session

variable {lib : Libraries} {s s' : Session} {msg : Message} {pa : PeerAddress} {outside : Outside} {done : Nat}

/-- A client with a new rotator, whatever its other parts are. -/
def Initial (s : Session) : Prop :=
  ∃ (client : DhtClient) (drawn : Secret) (now : Nat),
    s = ⟨{ client with tokenRotator := .make defaultRotationInterval drawn now }, .start drawn now, [], now⟩

/-- Where the peer of an announce listens. -/
def announced (msg : Message) (pa : PeerAddress) : PeerAddress :=
  if !msg.impliedPort then { pa with port := msg.peerPort } else pa

/-- The announce went into the peer store and was answered. -/
def Stored (lib : Libraries) (s s' : Session) (msg : Message) (pa : PeerAddress) (outside : Outside) : Prop :=
  ∃ infoHash, msg.infoHash = some infoHash ∧
    s'.client.peerStore = s.client.peerStore.upsert (outside.clock 4) infoHash (announced msg pa) ∧
    (s.client.handleMessage lib outside msg pa).1 = s.client.invokePeerCallback infoHash.hex (announced msg pa) ++
      s.client.sendKrpc lib outside.takes (makeResponse msg.txn s.client.selfId) (announced msg pa)

/-- The peer store is as it was, and the answer is error 203. -/
def Refused (lib : Libraries) (s s' : Session) (msg : Message) (pa : PeerAddress) (outside : Outside) : Prop :=
  s'.client.peerStore = s.client.peerStore ∧
    (s.client.handleMessage lib outside msg pa).1 =
      s.client.sendKrpc lib outside.takes (makeError msg.txn 203 (text ['B', 'a', 'd', ' ', 't', 'o', 'k', 'e', 'n'])) pa

section Loopback
open DhtClient

end Loopback

end Session

end BittorrentClient.Dht
