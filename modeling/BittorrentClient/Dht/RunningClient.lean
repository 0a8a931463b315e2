import BittorrentClient.Dht.BucketGeometry
import BittorrentClient.Dht.ServerReplies
import BittorrentClient.Library.Threads

namespace BittorrentClient.Dht
open Cpp Machine

namespace RoutingTable

/-- `buckets_needing_refresh`. An empty bucket has no fresh entry. -/
def bucketsNeedingRefresh (t : RoutingTable) (now maxAge : Nat) : List Nat :=
  (List.range numBuckets).filter fun b => (t.buckets b).toList.all fun entry => (now : Int) - entry.lastSeen ≥ maxAge

end RoutingTable

/-- What the outside has for a step: readings of the clock, a secret, bytes for
transaction ids, bits for random ids, what `closest` reads of the routing table
in between, the order of a map, the addresses that a name resolves to, and
whether the kernel takes a datagram for an address. -/
structure Moment where
  clock : Nat → Nat
  secret : Secret
  txn : Nat → UInt8 × UInt8
  bits : Nat → Bool
  table : (selfId : NodeId) → Nat → RoutingTable.Contents selfId
  hashes : List InfoHash
  resolved : List PeerAddress
  takes : PeerAddress → Bool

/-- A client whose threads run, with what it sent and reported so far. For the
record it also keeps what it was asked to announce, what it received, which
datagrams came from outside the network, and the routing tables that its
refreshes found the closest nodes in, each with the target. -/
structure Running where
  client : DhtClient
  bootstrapOnStart : Bool
  lastBootstrapAttempt : Nat
  lastLookupTick : Nat
  refreshBucketCursor : Nat
  outbox : List (Bytes × PeerAddress)
  reports : List (Bytes × PeerAddress)
  offers : List (InfoHash × UInt16)
  heard : List (Krpc.Message × PeerAddress)
  strangers : List (Krpc.Message × PeerAddress)
  consulted : List (NodeId × RoutingTable)

/-- What a thread of the client does. -/
abbrev Does := Script Running Moment

/-- The callbacks among the effects. -/
def callbacks (effects : List Effect) : List (Bytes × PeerAddress) :=
  effects.filterMap fun
    | .sendto _ _ => none
    | .peerCallback infoHashHex pa => some (infoHashHex, pa)

namespace Running

/-- Two minutes. -/
def bootstrapRetryInterval : Nat := 2 * 60 * 10 ^ 9

def lookupTickInterval : Nat := 5 * 10 ^ 9

def maxBucketsRefreshPerTick : Nat := 3

/-- 15 minutes. -/
def bucketMaxAge : Nat := 15 * 60 * 10 ^ 9

/-- A call of one of the parts of the client, which it handles under its lock. -/
def locked {α : Type} (f : Moment → DhtClient → α × DhtClient) : Does α :=
  .atomically fun now s => ((f now s.client).1, { s with client := (f now s.client).2 })

def update (f : Moment → DhtClient → DhtClient) : Does Unit := locked fun now c => ((), f now c)

def read {α : Type} (f : DhtClient → α) : Does α := locked fun _ c => (f c, c)

/-- `steady_clock::now()`. -/
def readClock : Does Nat := .atomically fun now s => (now.clock 0, s)

variable (lib : Libraries)

/-- `send_krpc` of a message that is made for the own id. -/
def sendKrpc (make : NodeId → Bytes) (pa : PeerAddress) : Does Unit :=
  .atomically fun now s =>
    ((), { s with outbox := s.outbox ++ datagrams (s.client.sendKrpc lib now.takes (make s.client.selfId) pa) })

def invokePeerCallback (infoHashHex : Bytes) (pa : PeerAddress) : Does Unit :=
  .atomically fun _ s =>
    ((), { s with reports := s.reports ++ callbacks (s.client.invokePeerCallback infoHashHex pa) })

/-- `send_krpc` of a query under a `random_txn`. -/
def sendQuery (make : Txn → NodeId → Bytes) (pa : PeerAddress) : Does Unit := do
  let txn ← .atomically fun now s => ([(now.txn s.client.announced).1, (now.txn s.client.announced).2],
    { s with client := { s.client with announced := s.client.announced + 1 } })
  sendKrpc lib (make txn) pa

/-- `routing_table_.add`. -/
def addEntry (entry : Moment → RoutingEntry) : Does Unit := update fun now c => c.addEntry (now.clock 0) (entry now) true

def rotateIfNeeded : Does Unit :=
  update fun now c => { c with tokenRotator := c.tokenRotator.rotateIfNeeded (now.clock 0) now.secret }

def expireStale : Does Unit := update fun now c => { c with peerStore := c.peerStore.expireStale (now.clock 0) }

def livePeers (infoHash : InfoHash) : Does (List PeerAddress) :=
  locked fun now c =>
    ((c.peerStore.livePeers (now.clock 0) infoHash).1,
      { c with peerStore := (c.peerStore.livePeers (now.clock 0) infoHash).2 })

def upsert (infoHash : InfoHash) (pa : PeerAddress) : Does Unit :=
  update fun now c => { c with peerStore := c.peerStore.upsert (now.clock 0) infoHash pa }

/-- What a call of the lookup manager sees. -/
def lookupEnv (now : Moment) (c : DhtClient) : Env where
  selfId := c.selfId
  sort := lib.sort
  random := now.txn
  clock := fun n => now.clock (n - c.lookupManager.timed)
  table := now.table c.selfId

/-- A call of the lookup manager. -/
def lookups {α : Type} (f : Moment → Env → GetPeersLookupManager → α × GetPeersLookupManager) : Does α :=
  locked fun now c =>
    ((f now (lookupEnv lib now c) c.lookupManager).1,
      { c with lookupManager := (f now (lookupEnv lib now c) c.lookupManager).2 })

def sendOutbound (outbound : List OutboundKrpc) : Does Unit :=
  outbound.forM fun o => sendKrpc lib (fun _ => o.msg) o.pa

def onPing (msg : Krpc.Message) (pa : PeerAddress) : Does Unit := sendKrpc lib (makeResponse msg.txn) pa

def onFindNode (msg : Krpc.Message) (pa : PeerAddress) : Does Unit := do
  let closest ← read fun c => c.routingTable.closest lib.sort msg.target 8
  sendKrpc lib (makeNodesResponse lib.inet msg.txn · closest) pa

def onGetPeers (msg : Krpc.Message) (pa : PeerAddress) : Does Unit :=
  match msg.infoHash with
  | none => pure ()
  | some infoHash => do
    rotateIfNeeded
    let token ← read fun c => c.tokenRotator.issueToken lib.toTokenLibrary pa.ip
    expireStale
    let knownPeers ← livePeers infoHash
    if !knownPeers.isEmpty then sendKrpc lib (makePeersResponse lib.inet msg.txn · token knownPeers) pa
    else do
      let closest ← read fun c => c.routingTable.closest lib.sort (.fromInfoHash infoHash) 8
      sendKrpc lib (makeNodesResponseGp lib.inet msg.txn · token closest) pa

def onAnnouncePeer (msg : Krpc.Message) (pa : PeerAddress) : Does Unit :=
  match msg.infoHash with
  | none => pure ()
  | some infoHash => do
    rotateIfNeeded
    let valid ← locked fun now c => (c.tokenRotator.verifyToken lib.toTokenLibrary (now.clock 0) msg.token pa.ip, c)
    if !valid then
      sendKrpc lib (fun _ => makeError msg.txn 203 (text ['B', 'a', 'd', ' ', 't', 'o', 'k', 'e', 'n'])) pa
    else do
      let pa := if !msg.impliedPort then { pa with port := msg.peerPort } else pa
      upsert infoHash pa
      invokePeerCallback infoHash.hex pa
      sendKrpc lib (makeResponse msg.txn) pa

def countLivePeers (infoHash : InfoHash) : Does Unit := update fun now c => c.countLivePeers (now.clock 0) infoHash

/-- A lookup that is over is logged with the number of its live peers. -/
def logCompleted (completed : Bool) (infoHash : Option InfoHash) : Does Unit :=
  if completed then infoHash.elim (pure ()) countLivePeers else pure ()

def getPeers (infoHash : InfoHash) : Does Unit := do
  update fun _ c => { c with peerStore := c.peerStore.ensureBucket infoHash }
  let result ← lookups lib fun _ env m => m.startOrAdvance env infoHash
  if result.noCandidates then pure ()
  else do
    update fun _ c => { c with announceCoordinator := c.announceCoordinator.markInitialLookupStarted infoHash }
    sendOutbound lib result.outbound
    logCompleted result.lookupCompleted (some infoHash)

/-- One round of the loop of `try_pending_initial_lookups`. -/
def lookUpPending (infoHash : InfoHash) : Does Unit := do
  let pending ← read fun c => c.lookupManager.hasPendingLookup infoHash
  if pending then pure () else getPeers lib infoHash

def tryPendingInitialLookups : Does Unit := do
  let size ← read fun c => c.routingTable.size
  if size = 0 then pure ()
  else do
    let hashes ← read fun c => c.announceCoordinator.torrentsNeedingInitialLookup
    hashes.forM (lookUpPending lib)

def sendAnnounceRequests (requests : List AnnounceRequest) : Does Unit :=
  requests.forM fun req =>
    if req.token.isEmpty then pure ()
    else sendQuery lib (makeAnnouncePeer · · req.infoHash req.listenPort req.token true) req.pa

/-- The requests that `on_response` collects for the token of a response. -/
def collectRequests (msg : Krpc.Message) (pa : PeerAddress) : Does (List AnnounceRequest) :=
  if msg.token.isEmpty then pure []
  else do
    let infoHash ← read fun c => c.lookupManager.infoHashForTxn msg.txn
    match infoHash with
    | none => pure []
    | some infoHash =>
      locked fun _ c =>
        ((c.announceCoordinator.onGetPeersResponse infoHash pa msg.token).1,
          { c with announceCoordinator := (c.announceCoordinator.onGetPeersResponse infoHash pa msg.token).2 })

/-- One round of the loop of `on_response` over the peers that are listed. -/
def storeValue (infoHash : InfoHash) (compact : Bytes) : Does Unit :=
  match compactToPeer lib.inet compact 0 with
  | none => pure ()
  | some pa => do
    upsert infoHash pa
    invokePeerCallback infoHash.hex pa

def followUp (msg : Krpc.Message) (requests : List AnnounceRequest) (result : ResponseResult) : Does Unit :=
  if !result.txnKnown then sendAnnounceRequests lib requests
  else do
    result.infoHash.elim (pure ()) fun infoHash => msg.values.forM (storeValue lib infoHash)
    sendOutbound lib result.outbound
    logCompleted result.lookupCompleted result.infoHash
    sendAnnounceRequests lib requests
    tryPendingInitialLookups lib

def onResponse (msg : Krpc.Message) (pa : PeerAddress) : Does Unit := do
  msg.nodes.forM fun node => addEntry fun _ => node
  let requests ← collectRequests msg pa
  let result ← lookups lib fun _ env m => m.onResponse env ⟨msg.txn, msg.nodes, msg.values⟩
  followUp lib msg requests result

/-- The routing table learns of any node we hear from. -/
def hearFrom (msg : Krpc.Message) (pa : PeerAddress) : Does Unit :=
  if !msg.senderId.isZero then
    update fun now c => c.addEntry (now.clock 1) ⟨⟨msg.senderId, pa⟩, now.clock 0⟩ true
  else pure ()

def dispatch (msg : Krpc.Message) (pa : PeerAddress) : Does Unit :=
  match msg.type with
  | .query =>
    match msg.queryType with
    | none => pure ()
    | some .ping => onPing lib msg pa
    | some .findNode => onFindNode lib msg pa
    | some .getPeers => onGetPeers lib msg pa
    | some .announcePeer => onAnnouncePeer lib msg pa
  | .response => onResponse lib msg pa
  | .error => pure ()

def handleMessage (msg : Krpc.Message) (pa : PeerAddress) : Does Unit := do
  hearFrom msg pa
  dispatch lib msg pa

/-- The parsing in `recv_loop`, which goes on record where it succeeds. -/
def parseDatagram (stranger : Bool) (data : Bencode.Metadata) (pa : PeerAddress) (now : Moment) (s : Running) :
    Option Krpc.Message × Running :=
  match parseKrpc lib.inet (now.clock 0) data with
  | none => (none, s)
  | some msg =>
    (some msg, { s with
      heard := s.heard ++ [(msg, pa)]
      strangers := if stranger then s.strangers ++ [(msg, pa)] else s.strangers })

/-- `recv_loop` has a datagram. -/
def receive (stranger : Bool) (data : Bencode.Metadata) (pa : PeerAddress) : Does Unit := do
  let parsed ← .atomically (parseDatagram lib stranger data pa)
  parsed.elim (pure ()) fun msg => handleMessage lib msg pa

/-- `lookup_manager_.tick()` and the sending of what it returns. -/
def tickLookups : Does Unit := do
  let outbound ← lookups lib fun now env m => (m.tick env now.hashes).getD ([], m)
  sendOutbound lib outbound

/-- The end of each round of `recv_loop`. -/
def lookupTick : Does Unit := do
  let due ← .atomically fun now s =>
    if (now.clock 0 : Int) - s.lastLookupTick ≥ lookupTickInterval then (true, { s with lastLookupTick := now.clock 0 })
    else (false, s)
  if due then tickLookups lib else pure ()

/-- `refresh_buckets` of one bucket. -/
def refreshBucket (bucket : Nat) : Does Unit := do
  let target ← locked fun now c => (RoutingTable.randomIdInBucket c.selfId bucket now.bits, c)
  let closest ← .atomically fun _ s =>
    (s.client.routingTable.closest lib.sort target RoutingTable.K,
      { s with consulted := s.consulted ++ [(target, s.client.routingTable)] })
  (closest.take 3).forM fun node => sendQuery lib (makeFindNode · · target) node.pa

def refreshBuckets : Does Unit := do
  let (buckets, cursor) ← .atomically fun now s =>
    ((s.client.routingTable.bucketsNeedingRefresh (now.clock 0) bucketMaxAge, s.refreshBucketCursor), s)
  if buckets.isEmpty then pure ()
  else do
    let start := cursor % buckets.length
    let toRefresh := min maxBucketsRefreshPerTick buckets.length
    (List.range toRefresh).forM fun i => refreshBucket lib (buckets.getD ((start + i) % buckets.length) 0)
    .atomically fun _ s => ((), { s with refreshBucketCursor := (start + toRefresh) % buckets.length })

/-- One round of the loop of `maintain_registered_torrents`. -/
def refreshTorrent (now : Nat) (infoHash : InfoHash) : Does Unit := do
  let pending ← read fun c => c.lookupManager.hasPendingLookup infoHash
  if pending then pure ()
  else do
    getPeers lib infoHash
    update fun _ c => { c with announceCoordinator := c.announceCoordinator.markRefreshed infoHash now }

def maintainRegisteredTorrents : Does Unit := do
  tryPendingInitialLookups lib
  let now ← readClock
  let toRefresh ← read fun c => c.announceCoordinator.torrentsNeedingRefresh now
  toRefresh.forM (refreshTorrent lib now)

/-- `bootstrap`: the names that resolve get a ping and a query for the own id. -/
def bootstrap : Does Unit := do
  let resolved ← .atomically fun now s => (now.resolved, { s with lastBootstrapAttempt := now.clock 0 })
  resolved.forM fun pa => do
    sendQuery lib makePing pa
    sendQuery lib (fun txn selfId => makeFindNode txn selfId selfId) pa

def retryBootstrap : Does Unit := do
  let due ← .atomically fun now s =>
    (s.bootstrapOnStart && s.client.countGoodRoutingEntries (now.clock 0) == 0 &&
      (now.clock 1 : Int) - s.lastBootstrapAttempt ≥ bootstrapRetryInterval, s)
  if due then bootstrap lib else pure ()

/-- One round of `maintenance_loop`. -/
def maintain : Does Unit := do
  rotateIfNeeded
  lookups lib fun _ env m => ((), m.expireActiveLookupsLocked env)
  tickLookups lib
  expireStale
  refreshBuckets lib
  maintainRegisteredTorrents lib
  retryBootstrap lib

def registerTorrent (infoHash : InfoHash) (port : UInt16) : Does Unit := do
  .atomically fun now s => ((), { s with
    client := { s.client with
      announceCoordinator := s.client.announceCoordinator.registerTorrent (now.clock 0) infoHash port }
    offers := s.offers ++ [(infoHash, port)] })
  getPeers lib infoHash

def unregisterTorrent (infoHash : InfoHash) : Does Unit :=
  update fun _ c => { c with announceCoordinator := c.announceCoordinator.unregisterTorrent infoHash }

def announce (infoHash : InfoHash) (port : UInt16) : Does Unit := do
  let requests ← .atomically fun _ s =>
    (s.client.announceCoordinator.collectAnnounceAll infoHash port, { s with offers := s.offers ++ [(infoHash, port)] })
  sendAnnounceRequests lib requests

def ping (pa : PeerAddress) : Does Unit := sendQuery lib makePing pa

section Alone
open Script

/-- What a call of the client leaves, when no other thread takes part. -/
def after (s : Running) (done : List Effect × DhtClient) : Running :=
  { s with
    client := done.2
    outbox := s.outbox ++ datagrams done.1
    reports := s.reports ++ callbacks done.1 }

/-- What a call of `DhtClient` gets from outside, from the given reading of the
clock on, as one step gets it. -/
def moment (outside : Outside) (reading : Nat) (txn : Nat → UInt8 × UInt8) (c : DhtClient) : Moment where
  clock n := outside.clock (reading + n)
  secret := outside.secret
  txn := txn
  bits _ := false
  table selfId _ := if own : c.selfId = selfId then own ▸ c.routingTable.contents c.tableInvariant else ⟨[], nofun⟩
  hashes := []
  resolved := []
  takes := outside.takes

/-- Run by itself, the script does what the function of the client does. -/
def Like (script : Does Unit) (s : Running) (done : List Effect × DhtClient) : Prop :=
  Alone script s () (s.after done)

variable {lib : Libraries} {s : Running} {msg : Krpc.Message} {pa : PeerAddress} {infoHash : InfoHash}
  {done done' : List Effect × DhtClient} (outside : Outside)

theorem after_after (first later : List Effect × DhtClient) :
    (s.after first).after later = s.after (first.1 ++ later.1, later.2) := by
  simp only [after, datagrams, callbacks, List.filterMap_append, List.append_assoc]

theorem after_quiet (c : DhtClient) : s.after ([], c) = { s with client := c } := by
  simp only [after, datagrams, callbacks, List.filterMap_nil, List.append_nil]

theorem lookupEnv_moment (c : DhtClient) (reading : Nat) :
    lookupEnv lib (moment outside reading outside.lookupTxn c) c = c.lookupEnv lib outside reading := by
  have table : (moment outside reading outside.lookupTxn c).table c.selfId =
      fun _ => c.routingTable.contents c.tableInvariant := funext fun _ => dif_pos rfl
  rw [lookupEnv, table]
  rfl

theorem like_pure : Like (pure ()) s ([], s.client) := by
  rw [Like, after_quiet]
  exact .done

theorem Like.bind {first later : Does Unit} (here : Like first s done) (there : Like later (s.after done) done') :
    Like (first >>= fun _ => later) s (done.1 ++ done'.1, done'.2) := by
  have both : Alone (first >>= fun _ => later) s () ((s.after done).after done') := Alone.bind here there
  rwa [after_after] at both

theorem Like.bind_quiet {first later : Does Unit} {c : DhtClient} (here : Like first s done)
    (there : Like later (s.after done) ([], c)) : Like (first >>= fun _ => later) s (done.1, c) := by
  have both := here.bind there
  rwa [List.append_nil] at both

theorem Like.congr {script : Does Unit} (like : Like script s done)
    (same : done = done') : Like script s done' := same ▸ like

/-- A call of a part comes first. -/
theorem Like.locked {α : Type} {f : Moment → DhtClient → α × DhtClient} {rest : α → Does Unit} (now : Moment)
    (there : Like (rest (f now s.client).1) { s with client := (f now s.client).2 } done) :
    Like (locked f >>= rest) s done :=
  Alone.bind (Alone.atomically _ now s) there

theorem Like.update {f : Moment → DhtClient → DhtClient} {rest : Unit → Does Unit} (now : Moment)
    (there : Like (rest ()) { s with client := f now s.client } done) : Like (update f >>= rest) s done :=
  .locked (f := fun now c => ((), f now c)) now there

theorem like_update (f : Moment → DhtClient → DhtClient) (now : Moment) : Like (update f) s ([], f now s.client) := by
  rw [Like, after_quiet]
  exact Alone.atomically _ now s

/-- The lookup manager sees what it sees in a call of the client. -/
theorem Like.lookups {α : Type} {f : Env → GetPeersLookupManager → α × GetPeersLookupManager} {rest : α → Does Unit}
    (reading : Nat)
    (there : Like (rest (f (s.client.lookupEnv lib outside reading) s.client.lookupManager).1)
      { s with client := { s.client with
        lookupManager := (f (s.client.lookupEnv lib outside reading) s.client.lookupManager).2 } } done) :
    Like (lookups lib (fun _ env m => f env m) >>= rest) s done := by
  refine Like.locked (moment outside reading outside.lookupTxn s.client) ?_
  rw [lookupEnv_moment]
  exact there

include outside in
theorem Like.read {α : Type} {f : DhtClient → α} {rest : α → Does Unit} (there : Like (rest (f s.client)) s done) :
    Like (read f >>= rest) s done :=
  .locked (moment outside 0 outside.lookupTxn s.client) there

theorem like_sendKrpc (make : NodeId → Bytes) :
    Like (sendKrpc lib make pa) s (s.client.sendKrpc lib outside.takes (make s.client.selfId) pa, s.client) := by
  have quiet : callbacks (s.client.sendKrpc lib outside.takes (make s.client.selfId) pa) = [] := by
    unfold DhtClient.sendKrpc
    split
    · rfl
    split
    · rfl
    split
    · rfl
    · rfl
  rw [Like, after, quiet, List.append_nil]
  exact Alone.atomically _ (moment outside 0 outside.lookupTxn s.client) s

include outside in
theorem like_invokePeerCallback (hex : Bytes) :
    Like (invokePeerCallback hex pa) s (s.client.invokePeerCallback hex pa, s.client) := by
  have quiet : datagrams (s.client.invokePeerCallback hex pa) = [] := by
    unfold DhtClient.invokePeerCallback
    split
    · rfl
    · rfl
  rw [Like, after, quiet, List.append_nil]
  exact Alone.atomically _ (moment outside 0 outside.lookupTxn s.client) s

theorem like_onGetPeers : Like (onGetPeers lib msg pa) s (s.client.onGetPeers lib outside msg pa) := by
  unfold onGetPeers DhtClient.onGetPeers
  cases msg.infoHash with
  | none => exact like_pure
  | some infoHash =>
    dsimp only
    refine Like.update (moment outside 2 outside.lookupTxn s.client) ?_
    refine Like.read outside ?_
    refine Like.update (moment outside 3 outside.lookupTxn s.client) ?_
    refine Like.locked (moment outside 4 outside.lookupTxn s.client) ?_
    dsimp only [moment]
    split
    case isTrue known => exact like_sendKrpc outside _
    case isFalse unknown => exact Like.read outside (like_sendKrpc outside _)

theorem like_onAnnouncePeer : Like (onAnnouncePeer lib msg pa) s (s.client.onAnnouncePeer lib outside msg pa) := by
  unfold onAnnouncePeer DhtClient.onAnnouncePeer
  cases msg.infoHash with
  | none => exact like_pure
  | some infoHash =>
    dsimp only
    refine Like.update (moment outside 2 outside.lookupTxn s.client) ?_
    refine Like.locked (moment outside 3 outside.lookupTxn s.client) ?_
    dsimp only [moment]
    split
    case isTrue bad => exact like_sendKrpc outside _
    case isFalse good =>
      refine Like.update (moment outside 4 outside.lookupTxn s.client) ?_
      exact Like.bind (like_invokePeerCallback outside _) (like_sendKrpc outside _)

theorem like_sendOutbound (outbound : List OutboundKrpc) :
    Like (sendOutbound lib outbound) s (outbound.flatMap fun o => s.client.sendKrpc lib outside.takes o.msg o.pa, s.client) := by
  induction outbound generalizing s with
  | nil => exact like_pure
  | cons o rest ih => exact Like.bind (like_sendKrpc outside _) ih

theorem like_logCompleted (reading : Nat) (completed : Bool) (infoHash : Option InfoHash) :
    Like (logCompleted completed infoHash) s
      ([], if completed then infoHash.elim s.client (s.client.countLivePeers (outside.clock reading)) else s.client) := by
  cases completed with
  | false => exact like_pure
  | true =>
    cases infoHash with
    | none => exact like_pure
    | some infoHash =>
      exact like_update (fun now c => c.countLivePeers (now.clock 0) infoHash) (moment outside reading outside.lookupTxn s.client)

theorem like_getPeers (reading : Nat) : Like (getPeers lib infoHash) s (s.client.getPeers lib outside reading infoHash) := by
  unfold getPeers DhtClient.getPeers
  refine Like.update (moment outside 0 outside.lookupTxn s.client) ?_
  refine Like.lookups outside reading ?_
  dsimp only
  split
  case isTrue => exact like_pure
  case isFalse =>
    refine Like.update (moment outside 0 outside.lookupTxn s.client) ?_
    exact (like_sendOutbound outside _).bind_quiet (like_logCompleted outside _ _ (some infoHash))

theorem like_lookUpPending (infoHash : InfoHash) (reading : Nat) :
    Like (lookUpPending lib infoHash) s (if s.client.lookupManager.hasPendingLookup infoHash then ([], s.client)
      else s.client.getPeers lib outside reading infoHash) := by
  refine Like.read outside ?_
  split
  case isTrue pending => exact like_pure
  case isFalse free => exact like_getPeers outside reading

theorem like_lookUpAll (hashes : List InfoHash) (reading : Nat) :
    Like (hashes.forM (lookUpPending lib)) s (s.client.lookUpPending lib outside hashes reading) := by
  induction hashes generalizing s reading with
  | nil => exact like_pure
  | cons hash rest ih =>
    unfold DhtClient.lookUpPending
    have first := @like_lookUpPending lib s outside hash reading
    split
    case isTrue pending =>
      rw [if_pos pending] at first
      exact first.bind (ih _)
    case isFalse free =>
      rw [if_neg free] at first
      exact first.bind (ih _)

theorem like_tryPendingInitialLookups (reading : Nat) :
    Like (tryPendingInitialLookups lib) s (s.client.tryPendingInitialLookups lib outside reading) := by
  unfold tryPendingInitialLookups DhtClient.tryPendingInitialLookups
  refine Like.read outside ?_
  split
  case isTrue => exact like_pure
  case isFalse => exact Like.read outside (like_lookUpAll outside _ reading)

theorem like_sendAnnounceRequests (requests : List AnnounceRequest) :
    Like (sendAnnounceRequests lib requests) s (s.client.sendAnnounceRequests lib outside requests) := by
  induction requests generalizing s with
  | nil => exact like_pure
  | cons req rest ih =>
    unfold DhtClient.sendAnnounceRequests
    split
    case isTrue empty =>
      have skip : Like (if req.token.isEmpty then pure ()
          else sendQuery lib (makeAnnouncePeer · · req.infoHash req.listenPort req.token true) req.pa) s ([], s.client) := by
        rw [if_pos empty]
        exact like_pure
      exact skip.bind ih
    case isFalse there =>
      have send : Like (if req.token.isEmpty then pure ()
          else sendQuery lib (makeAnnouncePeer · · req.infoHash req.listenPort req.token true) req.pa) s
          (s.client.sendKrpc lib outside.takes (makeAnnouncePeer [(outside.announceTxn s.client.announced).1,
            (outside.announceTxn s.client.announced).2] s.client.selfId req.infoHash req.listenPort req.token true) req.pa,
            { s.client with announced := s.client.announced + 1 }) := by
        rw [if_neg there]
        refine Alone.bind (Alone.atomically _ (moment outside 0 outside.announceTxn s.client) s) ?_
        exact like_sendKrpc outside _
      exact send.bind ih

theorem like_storeValues (values : List Bytes) (reading : Nat) :
    Like (values.forM (storeValue lib infoHash)) s (s.client.storeValues lib outside infoHash values reading) := by
  induction values generalizing s reading with
  | nil => exact like_pure
  | cons compact rest ih =>
    unfold DhtClient.storeValues
    cases read : compactToPeer lib.inet compact 0 with
    | none =>
      have skip : Like (storeValue lib infoHash compact) s ([], s.client) := by
        rw [storeValue, read]
        exact like_pure
      exact skip.bind (ih reading)
    | some pa =>
      have store : Like (storeValue lib infoHash compact) s
          (s.client.invokePeerCallback infoHash.hex pa,
            { s.client with peerStore := s.client.peerStore.upsert (outside.clock reading) infoHash pa }) := by
        rw [storeValue, read]
        refine Like.update (moment outside reading outside.lookupTxn s.client) ?_
        exact like_invokePeerCallback outside _
      exact store.bind (ih (reading + 1))

theorem like_followUp (requests : List AnnounceRequest) (result : ResponseResult) (reading : Nat) :
    Like (followUp lib msg requests result) s (s.client.followUp lib outside msg requests result reading) := by
  unfold followUp DhtClient.followUp
  split
  case isTrue => exact like_sendAnnounceRequests outside requests
  case isFalse =>
    have storing : Like (result.infoHash.elim (pure ()) fun infoHash => msg.values.forM (storeValue lib infoHash)) s
        (result.infoHash.elim ([], s.client) (s.client.storeValues lib outside · msg.values reading)) := by
      cases result.infoHash with
      | none => exact like_pure
      | some infoHash => exact like_storeValues outside msg.values reading
    generalize result.infoHash.elim ([], s.client) (s.client.storeValues lib outside · msg.values reading) = stored
      at storing ⊢
    dsimp only
    refine Like.congr (storing.bind ((like_sendOutbound outside _).bind
      ((like_logCompleted outside (reading + msg.values.length) _ _).bind ((like_sendAnnounceRequests outside _).bind
        (like_tryPendingInitialLookups outside (reading + msg.values.length + 1)))))) ?_
    simp only [List.append_assoc, List.nil_append]
    rfl

theorem like_addReported (nodes : List RoutingEntry) :
    Like (nodes.forM fun node => addEntry fun _ => node) s ([], s.client.addReported outside nodes) := by
  have from_ : ∀ (nodes : List RoutingEntry) (i : Nat) (s : Running), Like (nodes.forM fun node => addEntry fun _ => node) s
      ([], (nodes.zipIdx i).foldl (fun c node => c.addEntry (outside.clock (2 + node.2)) node.1 true) s.client) := by
    intro nodes
    induction nodes with
    | nil => exact fun _ _ => like_pure
    | cons node rest ih =>
      intro i s
      rw [List.zipIdx_cons, List.foldl_cons]
      exact Like.update (moment outside (2 + i) outside.lookupTxn s.client) (ih (i + 1) _)
  exact from_ nodes 0 s

/-- What `on_response` has collected when it calls the lookup manager. -/
def collected (c : DhtClient) (msg : Krpc.Message) (pa : PeerAddress) : List AnnounceRequest × AnnounceCoordinator :=
  if msg.token.isEmpty then ([], c.announceCoordinator)
  else
    match c.lookupManager.infoHashForTxn msg.txn with
    | none => ([], c.announceCoordinator)
    | some infoHash => c.announceCoordinator.onGetPeersResponse infoHash pa msg.token

include outside in
theorem alone_collectRequests : Alone (collectRequests msg pa) s (collected s.client msg pa).1
    { s with client := { s.client with announceCoordinator := (collected s.client msg pa).2 } } := by
  unfold collectRequests collected
  split
  case isTrue => exact .done
  case isFalse =>
    refine Alone.bind (Alone.atomically _ (moment outside 0 outside.lookupTxn s.client) s) ?_
    dsimp only
    cases s.client.lookupManager.infoHashForTxn msg.txn with
    | none => exact .done
    | some infoHash => exact Alone.atomically _ (moment outside 0 outside.lookupTxn s.client) s

theorem like_onResponse : Like (onResponse lib msg pa) s (s.client.onResponse lib outside msg pa) := by
  have rest : Like (collectRequests msg pa >>= fun requests =>
      (lookups lib fun _ env m => m.onResponse env ⟨msg.txn, msg.nodes, msg.values⟩) >>= followUp lib msg requests)
      (s.after ([], s.client.addReported outside msg.nodes)) (s.client.onResponse lib outside msg pa) := by
    refine Alone.bind (alone_collectRequests outside) (Like.lookups outside (2 + msg.nodes.length) ?_)
    unfold DhtClient.onResponse
    exact like_followUp outside _ _ _
  exact (like_addReported outside msg.nodes).bind rest

theorem like_hearFrom : Like (hearFrom msg pa) s ([], s.client.hearFrom outside msg pa) := by
  unfold hearFrom DhtClient.hearFrom
  split
  case isTrue =>
    exact like_update (fun now c => c.addEntry (now.clock 1) ⟨⟨msg.senderId, pa⟩, now.clock 0⟩ true)
      (moment outside 0 outside.lookupTxn s.client)
  case isFalse => exact like_pure

theorem like_handleMessage : Like (handleMessage lib msg pa) s (s.client.handleMessage lib outside msg pa) := by
  have dispatching : ∀ s : Running, Like (dispatch lib msg pa) s
      (match msg.type with
        | .query =>
          match msg.queryType with
          | none => ([], s.client)
          | some .ping => s.client.onPing lib outside msg pa
          | some .findNode => s.client.onFindNode lib outside msg pa
          | some .getPeers => s.client.onGetPeers lib outside msg pa
          | some .announcePeer => s.client.onAnnouncePeer lib outside msg pa
        | .response => s.client.onResponse lib outside msg pa
        | .error => ([], s.client)) := by
    intro s
    unfold dispatch
    cases msg.type with
    | query =>
      cases msg.queryType with
      | none => exact like_pure
      | some kind =>
        cases kind with
        | ping => exact like_sendKrpc outside _
        | findNode => exact Like.read outside (like_sendKrpc outside _)
        | getPeers => exact like_onGetPeers outside
        | announcePeer => exact like_onAnnouncePeer outside
    | response => exact like_onResponse outside
    | error => exact like_pure
  exact (like_hearFrom outside).bind (dispatching _)

end Alone

end Running

end BittorrentClient.Dht
