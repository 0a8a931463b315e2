import BittorrentClient.Dht.EveryLookup
import BittorrentClient.Dht.TxnRouting

namespace BittorrentClient.Dht
open Cpp Machine RoutingTable

/-- The cut of a merge keeps distinct nodes, or drops only queried ones. -/
def Merge.Harmless (merge : Merge) : Prop :=
  ((merge.sorted.take K).map RoutingEntry.toNode).Nodup ∨ ∀ entry ∈ merge.sorted.drop K, entry.pa ∈ merge.queried

instance (merge : Merge) : Decidable merge.Harmless := inferInstanceAs (Decidable (_ ∨ _))

/-- The lookup for a hash ended, at most eight nodes seen, without a query to
one of them. -/
def Event.EndedWithout (infoHash : InfoHash) (node : Node) : Event → Prop
  | .finished hash lookup =>
    hash = infoHash ∧ node ∈ lookup.seen ∧ lookup.seen.toFinset.card ≤ K ∧ node.pa ∉ lookup.sent
  | _ => False

instance (infoHash : InfoHash) (node : Node) : DecidablePred (Event.EndedWithout infoHash node)
  | .finished _ _ => inferInstanceAs (Decidable (_ ∧ _))
  | .drawn _ _ _ | .answered _ | .expired _ | .abandoned _ _ => .isFalse id

/-- The lookup for a hash ended without a query to a node that was seen, and all
its merges were harmless. -/
def Event.EndedHarmlessly (infoHash : InfoHash) (node : Node) : Event → Prop
  | .finished hash lookup =>
    hash = infoHash ∧ (∀ merge ∈ lookup.merges, merge.Harmless) ∧ node ∈ lookup.seen ∧ node.pa ∉ lookup.sent
  | _ => False

instance (infoHash : InfoHash) (node : Node) : DecidablePred (Event.EndedHarmlessly infoHash node)
  | .finished _ _ => inferInstanceAs (Decidable (_ ∧ _))
  | .drawn _ _ _ | .answered _ | .expired _ | .abandoned _ _ => .isFalse id

namespace KademliaLookup

/-- The nodes of `seen` nearest to the hash, eight of them if there are as
many, have been sent a query. Among equally near ones any choice will do. -/
def ClosestQueried (infoHash : InfoHash) (lookup : KademliaLookup) : Prop :=
  ∃ nearest : Finset Node,
    Finset.Nearest (fun node => NodeId.fromInfoHash infoHash ^^^ node.id) lookup.seen.toFinset nearest ∧
    nearest.card = min K lookup.seen.toFinset.card ∧ ∀ node ∈ nearest, node.pa ∈ lookup.sent

/-- A node that is a candidate or has been queried. -/
def Held (lookup : KademliaLookup) (node : Node) : Prop :=
  node ∈ lookup.candidates.map RoutingEntry.toNode ∨ node.pa ∈ lookup.queried

/-- A node was dropped only for eight held ones that are no farther. -/
def Covered (lookup : KademliaLookup) (node : Node) : Prop :=
  lookup.Held node ∨ ∃ better : Finset Node, better.card = K ∧
    ∀ other ∈ better, other ∈ lookup.seen ∧ lookup.Held other ∧ lookup.distance other ≤ lookup.distance node

structure Tracked (selfId : NodeId) (infoHash : InfoHash) (lookup : KademliaLookup) : Prop where
  target : lookup.target = .fromInfoHash infoHash
  noSelf : ∀ node ∈ lookup.seen, node.id ≠ selfId
  candidates_seen : ∀ entry ∈ lookup.candidates, entry.toNode ∈ lookup.seen
  queried_sent : ∀ pa ∈ lookup.queried, pa ∈ lookup.sent
  covered : (∀ merge ∈ lookup.merges, merge.Harmless) → ∀ node ∈ lookup.seen, lookup.Covered node

variable {selfId : NodeId} {infoHash : InfoHash} {lookup : KademliaLookup} {sort : StdSort RoutingEntry NodeId}
  {nodes : List RoutingEntry} {node : Node}

theorem make_tracked {seeds : List RoutingEntry} (noSelf : ∀ seed ∈ seeds, seed.id ≠ selfId) (now : Nat) :
    (make infoHash seeds now).Tracked selfId infoHash where
  target := rfl
  noSelf := List.forall_mem_map.mpr noSelf
  candidates_seen _ member := List.mem_map_of_mem member
  queried_sent _ member := nomatch member
  covered _ _ member := Or.inl (Or.inl member)

/-- What is sorted are the old candidates and the new nodes. -/
theorem mem_sorted (sort : StdSort RoutingEntry NodeId) {entry : RoutingEntry} :
    entry ∈ sort.run (fun entry => lookup.distance entry.toNode)
      (lookup.candidates ++ nodes.filter fun n => n.id ≠ selfId) ↔
      entry ∈ lookup.candidates ∨ entry ∈ nodes.filter fun n => n.id ≠ selfId := by
  rw [(sort.perm _ _).mem_iff, List.mem_append]

theorem mergeNodes_candidates_seen (tracked : lookup.Tracked selfId infoHash) :
    ∀ entry ∈ (lookup.mergeNodes sort nodes selfId).candidates,
      entry.toNode ∈ (lookup.mergeNodes sort nodes selfId).seen := by
  intro entry member
  rcases (mem_sorted sort).mp (List.mem_of_mem_take member) with old | new
  · exact List.mem_append_left _ (tracked.candidates_seen entry old)
  · exact List.mem_append_right _ (List.mem_map_of_mem new)

/-- A harmless merge covers whatever it sorts. -/
theorem mergeNodes_covered_sorted (tracked : lookup.Tracked selfId infoHash)
    (harmless : ∀ merge ∈ (lookup.mergeNodes sort nodes selfId).merges, merge.Harmless) {entry : RoutingEntry}
    (member : entry ∈ lookup.candidates ∨ entry ∈ nodes.filter fun n => n.id ≠ selfId) :
    (lookup.mergeNodes sort nodes selfId).Covered entry.toNode := by
  have sorted := (mem_sorted sort).mpr member
  rw [← List.take_append_drop K (sort.run _ _), List.mem_append] at sorted
  rcases sorted with kept | dropped
  · exact Or.inl (Or.inl (List.mem_map_of_mem kept))
  by_cases asked : entry.pa ∈ lookup.queried
  · exact Or.inl (Or.inr asked)
  rcases harmless _ List.mem_cons_self with distinct | onlyQueried
  · refine Or.inr ⟨((lookup.mergeNodes sort nodes selfId).candidates.map RoutingEntry.toNode).toFinset, ?_, ?_⟩
    · have full := List.length_pos_of_mem dropped
      rw [List.length_drop] at full
      refine (List.toFinset_card_of_nodup distinct).trans ?_
      rw [List.length_map]
      exact List.length_take_of_le (Nat.le_of_lt (Nat.lt_of_sub_pos full))
    · intro other chosen
      rw [List.mem_toFinset] at chosen
      obtain ⟨rival, isKept, rfl⟩ := List.mem_map.mp chosen
      exact ⟨mergeNodes_candidates_seen tracked rival isKept, Or.inl chosen,
        sort.take_le_drop _ _ K isKept dropped⟩
  · exact absurd (onlyQueried entry dropped) asked

theorem Tracked.mergeNodes (tracked : lookup.Tracked selfId infoHash) (sort : StdSort RoutingEntry NodeId)
    (nodes : List RoutingEntry) : (lookup.mergeNodes sort nodes selfId).Tracked selfId infoHash where
  target := tracked.target
  noSelf := by
    intro node member
    rcases List.mem_append.mp member with old | new
    · exact tracked.noSelf node old
    · obtain ⟨entry, isNew, rfl⟩ := List.mem_map.mp new
      exact of_decide_eq_true (List.mem_filter.mp isNew).2
  candidates_seen := mergeNodes_candidates_seen tracked
  queried_sent := tracked.queried_sent
  covered := by
    intro harmless node member
    rcases List.mem_append.mp member with old | new
    case inr =>
      obtain ⟨entry, isNew, rfl⟩ := List.mem_map.mp new
      exact mergeNodes_covered_sorted tracked harmless (Or.inr isNew)
    have held : ∀ node, lookup.Held node → (lookup.mergeNodes sort nodes selfId).Covered node := by
      rintro node (candidate | asked)
      · obtain ⟨entry, isCandidate, rfl⟩ := List.mem_map.mp candidate
        exact mergeNodes_covered_sorted tracked harmless (Or.inl isCandidate)
      · exact Or.inl (Or.inr asked)
    rcases tracked.covered (fun merge earlier => harmless merge (List.mem_cons_of_mem _ earlier)) node old with
      isHeld | ⟨better, size, near⟩
    · exact held node isHeld
    by_cases still : ∀ other ∈ better, (lookup.mergeNodes sort nodes selfId).Held other
    · refine Or.inr ⟨better, size, fun other member => ?_⟩
      exact ⟨List.mem_append_left _ (near other member).1, still other member, (near other member).2.2⟩
    · push Not at still
      obtain ⟨other, member, lost⟩ := still
      obtain ⟨_, wasHeld, closer⟩ := near other member
      obtain ⟨others, size, nearer⟩ := (held other wasHeld).resolve_left lost
      refine Or.inr ⟨others, size, fun third member => ?_⟩
      exact ⟨(nearer third member).1, (nearer third member).2.1, (nearer third member).2.2.trans closer⟩

theorem mem_selectNextCandidates (count : Nat) (pa : PeerAddress) :
    pa ∈ (lookup.selectNextCandidates count).2.queried ↔
      pa ∈ lookup.queried ∨ pa ∈ (lookup.selectNextCandidates count).1.map fun entry => entry.pa := by
  rw [queried_selectNextCandidates, List.mem_append, List.mem_reverse, or_comm]

/-- More queried addresses hold more nodes. -/
theorem Covered.mono {after : KademliaLookup} (covered : lookup.Covered node) (target : after.target = lookup.target)
    (candidates : after.candidates = lookup.candidates) (seen : after.seen = lookup.seen)
    (queried : lookup.queried ⊆ after.queried) : after.Covered node := by
  have held : ∀ node, lookup.Held node → after.Held node := by
    rintro node (candidate | asked)
    · exact Or.inl (candidates ▸ candidate)
    · exact Or.inr (queried asked)
  rcases covered with isHeld | ⟨better, size, near⟩
  · exact Or.inl (held node isHeld)
  · refine Or.inr ⟨better, size, fun other member => ?_⟩
    obtain ⟨known, isHeld, closer⟩ := near other member
    refine ⟨seen ▸ known, held other isHeld, ?_⟩
    rw [distance, distance, target]
    exact closer

/-- The queries to the selected candidates are sent before anything else
happens to the lookup. -/
theorem Tracked.dispatch (tracked : lookup.Tracked selfId infoHash) (count : Nat) (pending : List Txn) :
    (lookup.dispatched count pending).Tracked selfId infoHash where
  target := tracked.target
  noSelf := tracked.noSelf
  candidates_seen := tracked.candidates_seen
  queried_sent := by
    intro pa member
    rcases (mem_selectNextCandidates count pa).mp member with old | new
    · exact List.mem_append_right _ (tracked.queried_sent pa old)
    · exact List.mem_append_left _ (List.mem_reverse.mpr new)
  covered harmless node member := by
    refine (tracked.covered harmless node member).mono rfl rfl rfl fun pa asked => ?_
    exact (mem_selectNextCandidates count pa).mpr (Or.inl asked)

/-- Of eight nodes or fewer, all belong to the nearest. -/
theorem not_closestQueried (few : lookup.seen.toFinset.card ≤ K) (member : node ∈ lookup.seen)
    (unsent : node.pa ∉ lookup.sent) : ¬lookup.ClosestQueried infoHash := by
  rintro ⟨nearest, ⟨inside, _⟩, size, sent⟩
  rw [Nat.min_eq_right few] at size
  have all := Finset.eq_of_subset_of_card_le inside size.ge
  exact unsent (sent node (all ▸ List.mem_toFinset.mpr member))

/-- What is left at the end of a lookup. -/
theorem Tracked.closestQueried (tracked : lookup.Tracked selfId infoHash)
    (exhausted : lookup.allCandidatesQueried = true) (harmless : ∀ merge ∈ lookup.merges, merge.Harmless) :
    lookup.ClosestQueried infoHash := by
  have asked : ∀ node, lookup.Held node → node.pa ∈ lookup.queried := by
    rintro node (candidate | asked)
    · obtain ⟨entry, isCandidate, rfl⟩ := List.mem_map.mp candidate
      have contained := List.all_eq_true.mp exhausted entry isCandidate
      rwa [List.contains_iff_mem] at contained
    · exact asked
  let reached := lookup.seen.toFinset.filter fun node => node.pa ∈ lookup.queried
  have covered : ∀ node ∈ lookup.seen.toFinset, node ∈ reached ∨
      ∃ better ⊆ reached, better.card = K ∧ ∀ other ∈ better, lookup.distance other ≤ lookup.distance node := by
    intro node member
    rcases tracked.covered harmless node (List.mem_toFinset.mp member) with isHeld | ⟨better, size, near⟩
    · exact Or.inl (Finset.mem_filter.mpr ⟨member, asked node isHeld⟩)
    · refine Or.inr ⟨better, fun other chosen => ?_, size, fun other chosen => (near other chosen).2.2⟩
      exact Finset.mem_filter.mpr ⟨List.mem_toFinset.mpr (near other chosen).1, asked other (near other chosen).2.1⟩
  obtain ⟨nearest, fromReached, near, size⟩ := Finset.exists_nearest_of_covered (Finset.filter_subset _ _) covered
  have distance : lookup.distance = fun node => NodeId.fromInfoHash infoHash ^^^ node.id := by
    funext node
    rw [KademliaLookup.distance, tracked.target]
  refine ⟨nearest, distance ▸ near, size, fun node member => ?_⟩
  exact tracked.queried_sent _ (Finset.mem_filter.mp (fromReached member)).2

end KademliaLookup

namespace GetPeersLookupManager

variable {env : Env} {m m' : GetPeersLookupManager} {infoHash other : InfoHash} {lookup : KademliaLookup} {txn : Txn}

/-- Every lookup is tracked, while it is active and when it has ended. -/
structure AllTracked (env : Env) (m : GetPeersLookupManager) : Prop where
  active : ∀ infoHash lookup, m.kademliaLookups.lookup infoHash = some lookup → lookup.Tracked env.selfId infoHash
  finished : ∀ infoHash lookup, .finished infoHash lookup ∈ m.history →
    lookup.Tracked env.selfId infoHash ∧ lookup.allCandidatesQueried = true

theorem tracked_stable (env : Env) : KademliaLookup.Stable env (KademliaLookup.Tracked env.selfId) where
  make _ _ now noSelf := KademliaLookup.make_tracked noSelf now
  mergeNodes _ _ nodes tracked := tracked.mergeNodes env.sort nodes
  removePendingTxn _ _ _ tracked :=
    ⟨tracked.target, tracked.noSelf, tracked.candidates_seen, tracked.queried_sent, tracked.covered⟩
  dispatched _ _ count pending tracked _ _ := tracked.dispatch count pending

theorem allTracked_of_reach (reach : Reach (· = init) (step env) unguarded m) : m.AllTracked env := by
  have every := every_of_reach (tracked_stable env) reach
  exact ⟨every.active, every.finished⟩

/-- A lookup that ends by exhaustion has queried the nodes nearest to its hash
among all it ever saw, none of them ourselves, provided that no merge cut off
a node not yet queried while it kept some other node twice. -/
theorem exhausted_lookup_queried_closest (reach : Reach (· = init) (step env) unguarded m)
    (finished : .finished infoHash lookup ∈ m.history) (harmless : ∀ merge ∈ lookup.merges, merge.Harmless) :
    (∀ node ∈ lookup.seen, node.id ≠ env.selfId) ∧ lookup.ClosestQueried infoHash := by
  obtain ⟨tracked, exhausted⟩ := (allTracked_of_reach reach).finished infoHash lookup finished
  exact ⟨tracked.noSelf, tracked.closestQueried exhausted harmless⟩

/-- A lookup is started for hash 0 and the given replies arrive. -/
def answered (env : Env) (replies : List KrpcMessage) : GetPeersLookupManager :=
  replies.foldl (fun m msg => (m.onResponse env msg).2) (init.startOrAdvance env (hashOf 0)).2

theorem answered_reach (env : Env) (replies : List KrpcMessage) :
    Reach (· = init) (step env) unguarded (answered env replies) := by
  have started : init.step env (.startOrAdvance (hashOf 0)) = some (init.startOrAdvance env (hashOf 0)).2 := rfl
  have replied : ∀ m, Reach (· = init) (step env) unguarded m →
      Reach (· = init) (step env) unguarded (replies.foldl (fun m msg => (m.onResponse env msg).2) m) := by
    induction replies with
    | nil => exact fun m reach => reach
    | cons msg rest ih =>
      intro m reach
      have handled : m.step env (.onResponse msg) = some (m.onResponse env msg).2 := rfl
      exact ih _ (.next reach trivial handled)
  exact replied _ (.next (.start rfl) trivial started)

/-- Seven nodes at the distances 2 to 8, and no id drawn twice. -/
def sevenNodes : Env := stillEnv ⟨[2, 3, 4, 5, 6, 7, 8].map entryOf, by decide⟩ fun n => (0, n.toUInt8)

/-- The nearest of the seven lists a nearer node and a farther one, the others nobody. -/
def eightReplies : List KrpcMessage :=
  ⟨[0, 0], [1, 9].map entryOf, []⟩ :: [1, 2, 3, 4, 5, 6, 7].map fun id => ⟨[0, id], [], []⟩

/-- The ninth node is cut off, and the eight nearest are asked. -/
theorem exhausted_lookup_queried_closest_eight : ∃ lookup,
    .finished (hashOf 0) lookup ∈ (answered sevenNodes eightReplies).history ∧ (entryOf 9).toNode ∈ lookup.seen ∧
      (entryOf 9).pa ∉ lookup.sent ∧ lookup.ClosestQueried (hashOf 0) := by
  have ended : ∃ event ∈ (answered sevenNodes eightReplies).history,
      event.EndedHarmlessly (hashOf 0) (entryOf 9).toNode := by decide +kernel
  obtain ⟨event, member, ended⟩ := ended
  cases event with
  | finished infoHash lookup =>
    obtain ⟨rfl, harmless, seen, unsent⟩ := ended
    exact ⟨lookup, member, seen, unsent, (exhausted_lookup_queried_closest (answered_reach _ _) member harmless).2⟩
  | drawn | answered | expired | abandoned => cases ended

/-- Eight nodes at the distances 1 to 8, and no id drawn twice. -/
def eightNodes : Env := stillEnv ⟨[1, 2, 3, 4, 5, 6, 7, 8].map entryOf, by decide⟩ fun n => (0, n.toUInt8)

/-- The first of six queried nodes lists all six, the others nobody. -/
def sixReplies : List KrpcMessage :=
  ⟨[0, 0], [1, 2, 3, 4, 5, 6].map entryOf, []⟩ :: [1, 2, 3, 4, 5].map fun id => ⟨[0, id], [], []⟩

/-- The repeated nodes push the seventh and the eighth off the list: the lookup
ends without a query to them. -/
theorem exhausted_lookup_missed_closest :
    Reach (· = init) (step eightNodes) unguarded (answered eightNodes sixReplies) ∧
    ∃ lookup, .finished (hashOf 0) lookup ∈ (answered eightNodes sixReplies).history ∧
      (entryOf 7).toNode ∈ lookup.seen ∧ (entryOf 7).pa ∉ lookup.sent ∧ ¬lookup.ClosestQueried (hashOf 0) := by
  refine ⟨answered_reach _ _, ?_⟩
  have missed : ∃ event ∈ (answered eightNodes sixReplies).history,
      event.EndedWithout (hashOf 0) (entryOf 7).toNode := by decide +kernel
  obtain ⟨event, member, ended⟩ := missed
  cases event with
  | finished infoHash lookup =>
    obtain ⟨rfl, seen, few, unsent⟩ := ended
    exact ⟨lookup, member, seen, unsent, KademliaLookup.not_closestQueried few seen unsent⟩
  | drawn | answered | expired | abandoned => cases ended

end GetPeersLookupManager

end BittorrentClient.Dht
