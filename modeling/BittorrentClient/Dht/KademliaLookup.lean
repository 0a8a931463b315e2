import BittorrentClient.Dht.NodeId

namespace BittorrentClient.Dht
open Cpp RoutingTable

/-- A transaction id: any string in a message, two bytes in our queries. -/
abbrev Txn := Bytes

/-- A call of `merge_nodes`: the addresses queried by then and the whole
candidate list as sorted, before the cut. -/
structure Merge where
  queried : List PeerAddress
  sorted : List RoutingEntry
  deriving DecidableEq

/-- The two sets are lists without repetition. The last three fields are
history: who was seeded or merged, who was sent a query, and each merge. -/
structure KademliaLookup where
  infoHash : InfoHash
  target : NodeId
  candidates : List RoutingEntry
  queried : List PeerAddress
  pendingTxns : List Txn
  started : Nat
  seen : List Node
  sent : List PeerAddress
  merges : List Merge
  deriving DecidableEq

namespace KademliaLookup

def make (infoHash : InfoHash) (seedCandidates : List RoutingEntry) (now : Nat) : KademliaLookup where
  infoHash := infoHash
  target := .fromInfoHash infoHash
  candidates := seedCandidates
  queried := []
  pendingTxns := []
  started := now
  seen := seedCandidates.map RoutingEntry.toNode
  sent := []
  merges := []

def allCandidatesQueried (lookup : KademliaLookup) : Bool :=
  lookup.candidates.all fun node => lookup.queried.contains node.pa

def hasPending (lookup : KademliaLookup) : Bool := !lookup.pendingTxns.isEmpty

def pendingCount (lookup : KademliaLookup) : Nat := lookup.pendingTxns.length

def addPendingTxn (txn : Txn) (lookup : KademliaLookup) : KademliaLookup :=
  { lookup with pendingTxns := lookup.pendingTxns.insert txn }

def removePendingTxn (txn : Txn) (lookup : KademliaLookup) : KademliaLookup :=
  { lookup with pendingTxns := lookup.pendingTxns.filter (· ≠ txn) }

/-- A query leaves for `pa`. -/
def recordSent (pa : PeerAddress) (lookup : KademliaLookup) : KademliaLookup :=
  { lookup with sent := pa :: lookup.sent }

def distance (lookup : KademliaLookup) (node : Node) : NodeId := lookup.target ^^^ node.id

def mergeNodes (sort : StdSort RoutingEntry NodeId) (nodes : List RoutingEntry) (selfId : NodeId)
    (lookup : KademliaLookup) : KademliaLookup :=
  let others := nodes.filter fun n => n.id ≠ selfId
  let sorted := sort.run (fun entry => lookup.distance entry.toNode) (lookup.candidates ++ others)
  { lookup with
    candidates := sorted.take K
    seen := lookup.seen ++ others.map RoutingEntry.toNode
    merges := ⟨lookup.queried, sorted⟩ :: lookup.merges }

/-- The loop of `select_next_candidates` over the candidates not yet visited. -/
def selectFrom (count : Nat) : List RoutingEntry → List PeerAddress → List RoutingEntry →
    List RoutingEntry × List PeerAddress
  | [], queried, selected => (selected, queried)
  | node :: rest, queried, selected =>
    if selected.length ≥ count then (selected, queried)
    else if queried.contains node.pa then selectFrom count rest queried selected
    else selectFrom count rest (node.pa :: queried) (selected ++ [node])

def selectNextCandidates (count : Nat) (lookup : KademliaLookup) : List RoutingEntry × KademliaLookup :=
  let (selected, queried) := selectFrom count lookup.candidates lookup.queried []
  (selected, { lookup with queried := queried })

end KademliaLookup

end BittorrentClient.Dht
