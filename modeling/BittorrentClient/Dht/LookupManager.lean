import BittorrentClient.Dht.Krpc

namespace BittorrentClient.Dht
open Cpp RoutingTable

/-- What a reply brings to the manager. -/
structure KrpcMessage where
  txn : Txn
  nodes : List RoutingEntry
  values : List Bytes

/-- What the manager cannot foresee: the bytes `random_txn` draws, the steady
clock in nanoseconds and the routing table, each by the number of the call. -/
structure Env where
  selfId : NodeId
  sort : StdSort RoutingEntry NodeId
  random : Nat → UInt8 × UInt8
  clock : Nat → Nat
  table : Nat → Contents selfId

/-- A value of `pending_lookups_`. -/
structure Binding where
  infoHash : InfoHash
  time : Nat
  deriving DecidableEq

/-- What happened to queries and lookups. A draw notes the hash its id was
bound to before. -/
inductive Event
  | drawn (txn : Txn) (infoHash : InfoHash) (before : Option InfoHash)
  | answered (txn : Txn)
  | expired (txn : Txn)
  | abandoned (infoHash : InfoHash) (lookup : KademliaLookup)
  | finished (infoHash : InfoHash) (lookup : KademliaLookup)
  deriving DecidableEq

/-- The two maps, the numbers of the next calls to the environment, the key of
the iterator that `on_response` holds, and what happened so far. -/
structure GetPeersLookupManager where
  pendingLookups : UnorderedMap Txn Binding
  kademliaLookups : UnorderedMap InfoHash KademliaLookup
  drawn : Nat
  timed : Nat
  asked : Nat
  pit : Option Txn
  history : List Event

structure OutboundKrpc where
  msg : Bytes
  pa : PeerAddress
  deriving DecidableEq

structure StartResult where
  outbound : List OutboundKrpc
  startedNew : Bool
  skippedPending : Bool
  clearedExhausted : Bool
  noCandidates : Bool
  lookupCompleted : Bool
  deriving DecidableEq

structure ResponseResult where
  txnKnown : Bool
  infoHash : Option InfoHash
  outbound : List OutboundKrpc
  lookupCompleted : Bool
  deriving DecidableEq

structure AdvanceResult where
  outbound : List OutboundKrpc
  lookupCompleted : Bool
  deriving DecidableEq

namespace GetPeersLookupManager

/-- 30 seconds. -/
def getPeersTxnTtl : Nat := 30 * 10 ^ 9

/-- 5 minutes. -/
def getPeersLookupTtl : Nat := 5 * 60 * 10 ^ 9

def lookupAlpha : Nat := 6

def init : GetPeersLookupManager := ⟨∅, ∅, 0, 0, 0, none, []⟩

variable (env : Env)

def infoHashForTxn (m : GetPeersLookupManager) (txn : Txn) : Option InfoHash :=
  (m.pendingLookups.lookup txn).map Binding.infoHash

/-- A write through the reference to an active lookup. -/
def store (infoHash : InfoHash) (lookup : KademliaLookup) (m : GetPeersLookupManager) : GetPeersLookupManager :=
  { m with kademliaLookups := m.kademliaLookups.insert infoHash lookup }

def modify (infoHash : InfoHash) (f : KademliaLookup → KademliaLookup) (m : GetPeersLookupManager) :
    GetPeersLookupManager :=
  match m.kademliaLookups.lookup infoHash with
  | none => m
  | some lookup => m.store infoHash (f lookup)

/-- `steady_clock::now()`. -/
def now (m : GetPeersLookupManager) : Nat × GetPeersLookupManager :=
  (env.clock m.timed, { m with timed := m.timed + 1 })

/-- `routing_table_.closest` for the hash. -/
def closest (infoHash : InfoHash) (m : GetPeersLookupManager) : List RoutingEntry × GetPeersLookupManager :=
  ((env.table m.asked).closest env.sort (.fromInfoHash infoHash) K, { m with asked := m.asked + 1 })

/-- `random_txn`. -/
def randomTxn (m : GetPeersLookupManager) : Txn × GetPeersLookupManager :=
  ([(env.random m.drawn).1, (env.random m.drawn).2], { m with drawn := m.drawn + 1 })

/-- Drop an active lookup with the bindings of its queries. -/
def close (infoHash : InfoHash) (event : InfoHash → KademliaLookup → Event) (m : GetPeersLookupManager) :
    GetPeersLookupManager :=
  match m.kademliaLookups.lookup infoHash with
  | none => m
  | some lookup =>
    { m with
      pendingLookups := UnorderedMap.eraseAll lookup.pendingTxns m.pendingLookups
      kademliaLookups := m.kademliaLookups.erase infoHash
      history := event infoHash lookup :: m.history }

def finishLookup (infoHash : InfoHash) (m : GetPeersLookupManager) : GetPeersLookupManager :=
  m.close infoHash .finished

/-- The lookup is passed by reference: it comes back as it is left, in the map
too. -/
def lookupShouldFinish (lookup : KademliaLookup) (infoHash : InfoHash) (m : GetPeersLookupManager) :
    Bool × KademliaLookup × GetPeersLookupManager :=
  if lookup.hasPending || !lookup.allCandidatesQueried then (false, lookup, m)
  else
    let (closest, m) := m.closest env infoHash
    if closest.isEmpty then (true, lookup, m)
    else
      let merged := lookup.mergeNodes env.sort closest env.selfId
      (merged.allCandidatesQueried, merged, m.store infoHash merged)

/-- One round of the sending loop of `advance_lookup`. -/
def send (infoHash : InfoHash) (node : RoutingEntry) (m : GetPeersLookupManager) :
    OutboundKrpc × GetPeersLookupManager :=
  let (txn, m) := m.randomTxn env
  let before := m.infoHashForTxn txn
  let m := m.modify infoHash fun lookup => (lookup.addPendingTxn txn).recordSent node.pa
  let (time, m) := m.now env
  (⟨makeGetPeers txn env.selfId infoHash, node.pa⟩,
    { m with
      pendingLookups := m.pendingLookups.insert txn ⟨infoHash, time⟩
      history := .drawn txn infoHash before :: m.history })

def sendAll (infoHash : InfoHash) : List RoutingEntry → GetPeersLookupManager →
    List OutboundKrpc × GetPeersLookupManager
  | [], m => ([], m)
  | node :: rest, m =>
    let (first, m) := m.send env infoHash node
    let (later, m) := sendAll infoHash rest m
    (first :: later, m)

def advanceLookup (infoHash : InfoHash) (m : GetPeersLookupManager) : AdvanceResult × GetPeersLookupManager :=
  match m.kademliaLookups.lookup infoHash with
  | none => (⟨[], false⟩, m)
  | some lookup =>
    match m.lookupShouldFinish env lookup infoHash with
    | (true, _, m) => (⟨[], true⟩, m.finishLookup infoHash)
    | (false, lookup, m) =>
      if lookup.pendingCount ≥ lookupAlpha then (⟨[], false⟩, m)
      else
        let (next, lookup) := lookup.selectNextCandidates (lookupAlpha - lookup.pendingCount)
        let (outbound, m) := (m.store infoHash lookup).sendAll env infoHash next
        if outbound.isEmpty then
          match m.lookupShouldFinish env lookup infoHash with
          | (true, _, m) => (⟨[], true⟩, m.finishLookup infoHash)
          | (false, _, m) => (⟨[], false⟩, m)
        else (⟨outbound, false⟩, m)

/-- A query times out. -/
def expire (txn : Txn) (infoHash : InfoHash) (m : GetPeersLookupManager) : GetPeersLookupManager :=
  let m := m.modify infoHash (KademliaLookup.removePendingTxn txn)
  { m with pendingLookups := m.pendingLookups.erase txn, history := .expired txn :: m.history }

/-- One binding visited by `expire_pending_lookups_locked`. -/
def expirePending (now : Nat) (m : GetPeersLookupManager) (entry : Sigma fun _ : Txn => Binding) :
    GetPeersLookupManager :=
  if now - entry.2.time ≥ getPeersTxnTtl then m.expire entry.1 entry.2.infoHash else m

def expirePendingLookupsLocked (m : GetPeersLookupManager) : GetPeersLookupManager :=
  let (now, m) := m.now env
  m.pendingLookups.entries.foldl (expirePending now) m

/-- One lookup visited by `expire_active_lookups_locked`. -/
def expireActive (now : Nat) (m : GetPeersLookupManager) (entry : Sigma fun _ : InfoHash => KademliaLookup) :
    GetPeersLookupManager :=
  if now - entry.2.started ≥ getPeersLookupTtl then m.close entry.1 .abandoned else m

def expireActiveLookupsLocked (m : GetPeersLookupManager) : GetPeersLookupManager :=
  let (now, m) := m.now env
  m.kademliaLookups.entries.foldl (expireActive now) m

/-- `kademlia_lookups_.emplace` of a lookup made from the seeds. -/
def emplace (infoHash : InfoHash) (seeds : List RoutingEntry) (m : GetPeersLookupManager) : GetPeersLookupManager :=
  let (now, m) := m.now env
  m.store infoHash (.make infoHash seeds now)

/-- The branch of `start_or_advance` for a hash with an active lookup. -/
def resume (infoHash : InfoHash) (m : GetPeersLookupManager) : StartResult × GetPeersLookupManager :=
  match m.kademliaLookups.lookup infoHash with
  | none => (⟨[], false, false, false, false, false⟩, m)
  | some lookup =>
    if lookup.hasPending then (⟨[], false, true, false, false, false⟩, m)
    else
      match m.lookupShouldFinish env lookup infoHash with
      | (true, _, m) => (⟨[], false, false, true, false, true⟩, m.finishLookup infoHash)
      | (false, _, m) =>
        let (adv, m) := m.advanceLookup env infoHash
        (⟨adv.outbound, false, false, false, false, adv.lookupCompleted⟩, m)

def startOrAdvance (infoHash : InfoHash) (m : GetPeersLookupManager) : StartResult × GetPeersLookupManager :=
  let (seeds, m) := m.closest env infoHash
  if seeds.isEmpty then (⟨[], false, false, false, true, false⟩, m)
  else
    let (result, m) := ((m.expirePendingLookupsLocked env).expireActiveLookupsLocked env).resume env infoHash
    if result.outbound.isEmpty && (m.kademliaLookups.lookup infoHash).isNone then
      let (adv, m) := (m.emplace env infoHash seeds).advanceLookup env infoHash
      ({ result with startedNew := true, outbound := adv.outbound, lookupCompleted := adv.lookupCompleted }, m)
    else (result, m)

def onLookupResponse (msg : KrpcMessage) (infoHash : InfoHash) (m : GetPeersLookupManager) :
    GetPeersLookupManager :=
  match m.kademliaLookups.lookup infoHash with
  | none => m
  | some lookup =>
    let lookup := (lookup.removePendingTxn msg.txn).mergeNodes env.sort msg.nodes env.selfId
    match (m.store infoHash lookup).lookupShouldFinish env lookup infoHash with
    | (true, _, m) => m.finishLookup infoHash
    | (false, _, m) => m

/-- The calls of `on_response` for a known id, while the iterator is held. -/
def respond (msg : KrpcMessage) (infoHash : InfoHash) (m : GetPeersLookupManager) :
    AdvanceResult × GetPeersLookupManager :=
  if (m.kademliaLookups.lookup infoHash).isNone then (⟨[], false⟩, m)
  else
    let m := m.onLookupResponse env msg infoHash
    if (m.kademliaLookups.lookup infoHash).isNone then (⟨[], true⟩, m)
    else m.advanceLookup env infoHash

/-- `on_response` finds the binding of a known id and keeps hold of it. -/
def hold (txn : Txn) (m : GetPeersLookupManager) : GetPeersLookupManager :=
  { m with pit := some txn, history := .answered txn :: m.history }

/-- `pending_lookups_.erase(pit)`: the element goes, whatever it is bound to by
then. -/
def settle (txn : Txn) (m : GetPeersLookupManager) : GetPeersLookupManager :=
  { m with pendingLookups := m.pendingLookups.erase txn, pit := none }

def onResponse (msg : KrpcMessage) (m : GetPeersLookupManager) : ResponseResult × GetPeersLookupManager :=
  match m.infoHashForTxn msg.txn with
  | none => (⟨false, none, [], false⟩, m)
  | some infoHash =>
    let (adv, m) := (m.hold msg.txn).respond env msg infoHash
    (⟨true, some infoHash, adv.outbound, adv.lookupCompleted⟩, m.settle msg.txn)

/-- `has_pending_lookup`. -/
def hasPendingLookup (m : GetPeersLookupManager) (infoHash : InfoHash) : Bool :=
  (m.kademliaLookups.lookup infoHash).any KademliaLookup.hasPending ||
    m.pendingLookups.entries.any fun entry => entry.2.infoHash = infoHash

def advanceAll : List InfoHash → GetPeersLookupManager → List OutboundKrpc × GetPeersLookupManager
  | [], m => ([], m)
  | hash :: rest, m =>
    let (adv, m) := m.advanceLookup env hash
    let (later, m) := advanceAll rest m
    (adv.outbound ++ later, m)

/-- `tick`, with the hashes in the order the map gives them. -/
def tick (hashes : List InfoHash) (m : GetPeersLookupManager) : Option (List OutboundKrpc × GetPeersLookupManager) :=
  let m := m.expirePendingLookupsLocked env
  if hashes.Perm m.kademliaLookups.keys then some (m.advanceAll env hashes) else none

/-- The calls that change the manager. -/
inductive Call
  | startOrAdvance (infoHash : InfoHash)
  | onResponse (msg : KrpcMessage)
  | tick (hashes : List InfoHash)
  | expirePendingLookups
  | expireActiveLookups

def step (m : GetPeersLookupManager) : Call → Option GetPeersLookupManager
  | .startOrAdvance infoHash => some (m.startOrAdvance env infoHash).2
  | .onResponse msg => some (m.onResponse env msg).2
  | .tick hashes => (m.tick env hashes).map Prod.snd
  | .expirePendingLookups => some (m.expirePendingLookupsLocked env)
  | .expireActiveLookups => some (m.expireActiveLookupsLocked env)

end GetPeersLookupManager

end BittorrentClient.Dht
