import BittorrentClient.Dht.AnnounceCoordinator
import BittorrentClient.Dht.Closest
import BittorrentClient.Dht.LookupManager
import BittorrentClient.Dht.PeerStore
import BittorrentClient.Dht.TokenSecretRotator

namespace BittorrentClient
open Cpp

/-- `compact_to_peer`. -/
def compactToPeer (inet : Inet) (data : Bytes) (offset : Nat) : Option PeerAddress :=
  if data.length < offset + 6 then none
  else some ⟨inet.ntoa (Dht.RoutingEntry.addressAt data offset), readBe16 data (offset + 4)⟩

namespace Dht

/-- The libraries that the client is built on. -/
structure Libraries extends TokenLibrary where
  inet : Inet
  sort : StdSort RoutingEntry NodeId

/-- What a call of the client gets from outside: the readings of the steady
clock, in order, the secret that a rotation draws, the bytes of transaction
ids, and whether the kernel takes a datagram for an address. -/
structure Outside where
  clock : Nat → Nat
  secret : Secret
  lookupTxn : Nat → UInt8 × UInt8
  announceTxn : Nat → UInt8 × UInt8
  takes : PeerAddress → Bool

/-- What a call of the client does to the outside. -/
inductive Effect
  | sendto (msg : Bytes) (pa : PeerAddress)
  | peerCallback (infoHashHex : Bytes) (pa : PeerAddress)

/-- The socket is usable, a callback is set, and the parts that messages are
handled with. `announced` counts the ids drawn for announces. -/
structure DhtClient where
  socketOpen : Bool
  hasPeerCallback : Bool
  routingTable : RoutingTable
  tableInvariant : routingTable.Invariant
  lookupManager : GetPeersLookupManager
  peerStore : PeerStore
  tokenRotator : TokenSecretRotator
  announceCoordinator : AnnounceCoordinator
  announced : Nat

namespace DhtClient
open RoutingTable

def selfId (c : DhtClient) : NodeId := c.routingTable.selfId

/-- `routing_table_.add`, at the time `now`. -/
def addEntry (c : DhtClient) (now : Nat) (entry : RoutingEntry) (countAsReceived : Bool) : DhtClient :=
  { c with
    routingTable := c.routingTable.add now entry countAsReceived
    tableInvariant := c.tableInvariant.add now entry countAsReceived }

/-- `load_persisted_routing_table`, with the nodes of the file. None of them is
good until we hear from it again: they were last seen at the epoch. -/
def loadPersistedRoutingTable (c : DhtClient) (clock : Nat → Nat) (nodes : List Node) : DhtClient :=
  nodes.zipIdx.foldl (fun c node => c.addEntry (clock node.2) ⟨node.1, 0⟩ false) c

/-- The entries that `count_good_routing_entries` counts. -/
def goodRoutingEntries (c : DhtClient) (now : Nat) : List RoutingEntry :=
  c.routingTable.all.filter (RoutingEntry.isGood now)

def countGoodRoutingEntries (c : DhtClient) (now : Nat) : Nat := (c.goodRoutingEntries now).length

variable (lib : Libraries)

/-- `send_krpc`. The address is converted once more, and a `sendto` that fails
is logged and nothing else. -/
def sendKrpc (c : DhtClient) (takes : PeerAddress → Bool) (msg : Bytes) (pa : PeerAddress) : List Effect :=
  if !c.socketOpen then []
  else if (lib.pton4 pa.ip).isNone then []
  else if takes pa then [.sendto msg pa] else []

def invokePeerCallback (c : DhtClient) (infoHashHex : Bytes) (pa : PeerAddress) : List Effect :=
  if c.hasPeerCallback then [.peerCallback infoHashHex pa] else []

def onPing (c : DhtClient) (outside : Outside) (msg : Krpc.Message) (pa : PeerAddress) : List Effect × DhtClient :=
  (c.sendKrpc lib outside.takes (makeResponse msg.txn c.selfId) pa, c)

def onFindNode (c : DhtClient) (outside : Outside) (msg : Krpc.Message) (pa : PeerAddress) : List Effect × DhtClient :=
  let closest := c.routingTable.closest lib.sort msg.target 8
  (c.sendKrpc lib outside.takes (makeNodesResponse lib.inet msg.txn c.selfId closest) pa, c)

/-- `on_get_peers`, which reads the clock three times. -/
def onGetPeers (c : DhtClient) (outside : Outside) (msg : Krpc.Message) (pa : PeerAddress) :
    List Effect × DhtClient :=
  match msg.infoHash with
  | none => ([], c)
  | some infoHash =>
    let c := { c with tokenRotator := c.tokenRotator.rotateIfNeeded (outside.clock 2) outside.secret }
    let token := c.tokenRotator.issueToken lib.toTokenLibrary pa.ip
    let (knownPeers, peerStore) := (c.peerStore.expireStale (outside.clock 3)).livePeers (outside.clock 4) infoHash
    let c := { c with peerStore := peerStore }
    if !knownPeers.isEmpty then
      (c.sendKrpc lib outside.takes (makePeersResponse lib.inet msg.txn c.selfId token knownPeers) pa, c)
    else
      let closest := c.routingTable.closest lib.sort (.fromInfoHash infoHash) 8
      (c.sendKrpc lib outside.takes (makeNodesResponseGp lib.inet msg.txn c.selfId token closest) pa, c)

/-- `on_announce_peer`, which reads the clock three times. -/
def onAnnouncePeer (c : DhtClient) (outside : Outside) (msg : Krpc.Message) (pa : PeerAddress) :
    List Effect × DhtClient :=
  match msg.infoHash with
  | none => ([], c)
  | some infoHash =>
    let c := { c with tokenRotator := c.tokenRotator.rotateIfNeeded (outside.clock 2) outside.secret }
    if !c.tokenRotator.verifyToken lib.toTokenLibrary (outside.clock 3) msg.token pa.ip then
      let bad := text ['B', 'a', 'd', ' ', 't', 'o', 'k', 'e', 'n']
      (c.sendKrpc lib outside.takes (makeError msg.txn 203 bad) pa, c)
    else
      let pa := if !msg.impliedPort then { pa with port := msg.peerPort } else pa
      let c := { c with peerStore := c.peerStore.upsert (outside.clock 4) infoHash pa }
      (c.invokePeerCallback infoHash.hex pa ++ c.sendKrpc lib outside.takes (makeResponse msg.txn c.selfId) pa, c)

/-- `routing_table_.add` for each node that a response lists. -/
def addReported (c : DhtClient) (outside : Outside) (nodes : List RoutingEntry) : DhtClient :=
  nodes.zipIdx.foldl (fun c node => c.addEntry (outside.clock (2 + node.2)) node.1 true) c

/-- What the lookup manager sees of the client, when its first reading of the
clock is the one with the given number. -/
def lookupEnv (c : DhtClient) (outside : Outside) (reading : Nat) : Env where
  selfId := c.selfId
  sort := lib.sort
  random := outside.lookupTxn
  clock := fun n => outside.clock (reading + (n - c.lookupManager.timed))
  table := fun _ => c.routingTable.contents c.tableInvariant

/-- `log_get_peers_lookup_completed`: counting the live peers touches their
bucket. -/
def countLivePeers (c : DhtClient) (now : Nat) (infoHash : InfoHash) : DhtClient :=
  { c with peerStore := (c.peerStore.livePeers now infoHash).2 }

/-- `get_peers`, from the given reading of the clock on. -/
def getPeers (c : DhtClient) (outside : Outside) (reading : Nat) (infoHash : InfoHash) : List Effect × DhtClient :=
  let c := { c with peerStore := c.peerStore.ensureBucket infoHash }
  let (result, manager) := c.lookupManager.startOrAdvance (c.lookupEnv lib outside reading) infoHash
  let reading := reading + (manager.timed - c.lookupManager.timed)
  let c := { c with lookupManager := manager }
  if result.noCandidates then ([], c)
  else
    let c := { c with announceCoordinator := c.announceCoordinator.markInitialLookupStarted infoHash }
    let sent := result.outbound.flatMap fun o => c.sendKrpc lib outside.takes o.msg o.pa
    (sent, if result.lookupCompleted then c.countLivePeers (outside.clock reading) infoHash else c)

/-- The loop of `try_pending_initial_lookups`. -/
def lookUpPending (outside : Outside) : List InfoHash → Nat → DhtClient → List Effect × DhtClient
  | [], _, c => ([], c)
  | hash :: rest, reading, c =>
    if c.lookupManager.hasPendingLookup hash then lookUpPending outside rest reading c
    else
      let (sent, after) := c.getPeers lib outside reading hash
      let next := reading + (after.lookupManager.timed - c.lookupManager.timed) + 1
      let (later, after) := lookUpPending outside rest next after
      (sent ++ later, after)

def tryPendingInitialLookups (c : DhtClient) (outside : Outside) (reading : Nat) : List Effect × DhtClient :=
  if c.routingTable.size = 0 then ([], c)
  else c.lookUpPending lib outside c.announceCoordinator.torrentsNeedingInitialLookup reading

/-- `send_announce_requests`. -/
def sendAnnounceRequests (outside : Outside) : List AnnounceRequest → DhtClient → List Effect × DhtClient
  | [], c => ([], c)
  | req :: rest, c =>
    if req.token.isEmpty then sendAnnounceRequests outside rest c
    else
      let txn := [(outside.announceTxn c.announced).1, (outside.announceTxn c.announced).2]
      let sent := c.sendKrpc lib outside.takes (makeAnnouncePeer txn c.selfId req.infoHash req.listenPort req.token true) req.pa
      let (later, c) := sendAnnounceRequests outside rest { c with announced := c.announced + 1 }
      (sent ++ later, c)

/-- The loop of `on_response` over the peers that a response lists. -/
def storeValues (outside : Outside) (c : DhtClient) (infoHash : InfoHash) : List Bytes → Nat → List Effect × DhtClient
  | [], _ => ([], c)
  | compact :: rest, reading =>
    match compactToPeer lib.inet compact 0 with
    | none => storeValues outside c infoHash rest reading
    | some pa =>
      let c := { c with peerStore := c.peerStore.upsert (outside.clock reading) infoHash pa }
      let (later, after) := storeValues outside c infoHash rest (reading + 1)
      (c.invokePeerCallback infoHash.hex pa ++ later, after)

/-- The second half of `on_response`, with what the lookup manager made of the
response and from the given reading of the clock on. -/
def followUp (c : DhtClient) (outside : Outside) (msg : Krpc.Message) (requests : List AnnounceRequest)
    (result : ResponseResult) (reading : Nat) : List Effect × DhtClient :=
  if !result.txnKnown then c.sendAnnounceRequests lib outside requests
  else
    let (stored, c) := result.infoHash.elim ([], c) (c.storeValues lib outside · msg.values reading)
    let queries := result.outbound.flatMap fun o => c.sendKrpc lib outside.takes o.msg o.pa
    let reading := reading + msg.values.length
    let c := if result.lookupCompleted then result.infoHash.elim c (c.countLivePeers (outside.clock reading)) else c
    let (announces, c) := c.sendAnnounceRequests lib outside requests
    let (lookups, c) := c.tryPendingInitialLookups lib outside (reading + 1)
    (stored ++ queries ++ announces ++ lookups, c)

def onResponse (c : DhtClient) (outside : Outside) (msg : Krpc.Message) (pa : PeerAddress) :
    List Effect × DhtClient :=
  let c := c.addReported outside msg.nodes
  let (requests, coordinator) :=
    if msg.token.isEmpty then ([], c.announceCoordinator)
    else
      match c.lookupManager.infoHashForTxn msg.txn with
      | none => ([], c.announceCoordinator)
      | some infoHash => c.announceCoordinator.onGetPeersResponse infoHash pa msg.token
  let reading := 2 + msg.nodes.length
  let (result, manager) :=
    c.lookupManager.onResponse (c.lookupEnv lib outside reading) ⟨msg.txn, msg.nodes, msg.values⟩
  let reading := reading + (manager.timed - c.lookupManager.timed)
  let c := { c with announceCoordinator := coordinator, lookupManager := manager }
  c.followUp lib outside msg requests result reading

/-- The routing table learns of any node we hear from. -/
def hearFrom (c : DhtClient) (outside : Outside) (msg : Krpc.Message) (pa : PeerAddress) : DhtClient :=
  if !msg.senderId.isZero then c.addEntry (outside.clock 1) ⟨⟨msg.senderId, pa⟩, outside.clock 0⟩ true else c

/-- `handle_message`. -/
def handleMessage (c : DhtClient) (outside : Outside) (msg : Krpc.Message) (pa : PeerAddress) :
    List Effect × DhtClient :=
  let c := c.hearFrom outside msg pa
  match msg.type with
  | .query =>
    match msg.queryType with
    | none => ([], c)
    | some .ping => c.onPing lib outside msg pa
    | some .findNode => c.onFindNode lib outside msg pa
    | some .getPeers => c.onGetPeers lib outside msg pa
    | some .announcePeer => c.onAnnouncePeer lib outside msg pa
  | .response => c.onResponse lib outside msg pa
  | .error => ([], c)

end DhtClient

end Dht

end BittorrentClient
