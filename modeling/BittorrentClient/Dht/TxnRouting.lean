import BittorrentClient.Dht.LookupActions

namespace BittorrentClient.Dht
open Cpp Machine RoutingTable

/-- A drawn id was not in use. -/
def Event.Fresh : Event → Prop
  | .drawn _ _ before => before = none
  | _ => True

instance : DecidablePred Event.Fresh
  | .drawn _ _ before => inferInstanceAs (Decidable (before = none))
  | .answered _ | .expired _ | .abandoned _ _ | .finished _ _ => .isTrue trivial

/-- The queries sent and neither answered nor expired. A reply answers one
query; a timeout of an id, or of a whole lookup, ends all that it covers. -/
def outstanding : List Event → List (Txn × InfoHash)
  | [] => []
  | .drawn txn infoHash _ :: earlier => (txn, infoHash) :: outstanding earlier
  | .answered txn :: earlier => (outstanding earlier).eraseP fun query => query.1 = txn
  | .expired txn :: earlier => (outstanding earlier).filter fun query => query.1 ≠ txn
  | .abandoned infoHash _ :: earlier => (outstanding earlier).filter fun query => query.2 ≠ infoHash
  | .finished infoHash _ :: earlier => (outstanding earlier).filter fun query => query.2 ≠ infoHash

namespace GetPeersLookupManager

/-- The `pending_txns_` of the lookup for a hash. -/
def pendingOf (m : GetPeersLookupManager) (infoHash : InfoHash) : List Txn :=
  ((m.kademliaLookups.lookup infoHash).map KademliaLookup.pendingTxns).getD []

/-- The two maps agree, apart from the id whose reply is being handled, and
what is pending are the queries that are still open. -/
structure Routed (m : GetPeersLookupManager) : Prop where
  agree : ∀ txn infoHash, txn ∈ m.pendingOf infoHash ↔ m.infoHashForTxn txn = some infoHash ∧ m.pit ≠ some txn
  held : ∀ txn, m.pit = some txn → m.infoHashForTxn txn ≠ none
  ledger : ∀ txn infoHash, (txn, infoHash) ∈ outstanding m.history ↔ txn ∈ m.pendingOf infoHash
  distinct : ((outstanding m.history).map Prod.fst).Nodup

section
variable {env : Env} {m m' : GetPeersLookupManager} {infoHash other : InfoHash} {lookup : KademliaLookup} {txn : Txn}

theorem pendingOf_found (found : m.kademliaLookups.lookup infoHash = some lookup) :
    m.pendingOf infoHash = lookup.pendingTxns := by
  rw [pendingOf, found, Option.map_some, Option.getD_some]

theorem pendingOf_store :
    (m.store infoHash lookup).pendingOf other = if other = infoHash then lookup.pendingTxns else m.pendingOf other := by
  rw [pendingOf, store, UnorderedMap.lookup_insert_eq]
  split
  · rfl
  · rfl

/-- Writing a lookup back with the same open queries changes no routing. -/
theorem pendingOf_store_same (found : m.kademliaLookups.lookup infoHash = some lookup) {after : KademliaLookup}
    (same : after.pendingTxns = lookup.pendingTxns) : (m.store infoHash after).pendingOf = m.pendingOf := by
  funext other
  rw [pendingOf_store]
  split
  case isTrue isIt => rw [same, isIt, pendingOf_found found]
  case isFalse => rfl

theorem pendingOf_remove :
    (m.modify infoHash (KademliaLookup.removePendingTxn txn)).pendingOf other =
      if other = infoHash then (m.pendingOf other).filter (· ≠ txn) else m.pendingOf other := by
  cases found : m.kademliaLookups.lookup infoHash with
  | none =>
    rw [modify_missing _ found]
    split
    case isTrue same =>
      rw [same, pendingOf, found]
      rfl
    case isFalse => rfl
  | some lookup =>
    rw [modify_found _ found, pendingOf_store]
    split
    case isTrue same =>
      rw [same, pendingOf_found found]
      rfl
    case isFalse => rfl

/-- What routing looks at is unchanged. -/
theorem Routed.frame (routed : m.Routed) (pending : m'.pendingOf = m.pendingOf)
    (bindings : m'.pendingLookups = m.pendingLookups) (pit : m'.pit = m.pit) (history : m'.history = m.history) :
    m'.Routed := by
  have bound : m'.infoHashForTxn = m.infoHashForTxn := by
    funext txn
    rw [infoHashForTxn, infoHashForTxn, bindings]
  refine ⟨?_, ?_, ?_, ?_⟩
  · rw [pending, bound, pit]
    exact routed.agree
  · rw [bound, pit]
    exact routed.held
  · rw [history, pending]
    exact routed.ledger
  · rw [history]
    exact routed.distinct

theorem send_infoHashForTxn (node : RoutingEntry) :
    (m.send env infoHash node).2.infoHashForTxn txn =
      if txn = (m.randomTxn env).1 then some infoHash else m.infoHashForTxn txn := by
  dsimp only [infoHashForTxn, send, now]
  rw [UnorderedMap.lookup_insert_eq, (modify_frame _).1]
  split
  · rfl
  · rfl

theorem send_pendingOf (node : RoutingEntry) (found : m.kademliaLookups.lookup infoHash = some lookup) :
    (m.send env infoHash node).2.pendingOf other =
      if other = infoHash then (m.pendingOf other).insert (m.randomTxn env).1 else m.pendingOf other := by
  have written : (m.send env infoHash node).2.pendingOf other = (m.store infoHash
      ((lookup.addPendingTxn (m.randomTxn env).1).recordSent node.pa)).pendingOf other := by
    dsimp only [send, now, pendingOf]
    rw [modify_found (m := (m.randomTxn env).2) _ found]
    rfl
  rw [written, pendingOf_store]
  split
  case isTrue same =>
    rw [same, pendingOf_found found]
    rfl
  case isFalse => rfl

/-- A query under an id that is not in use. -/
theorem Routed.send (routed : m.Routed) (found : m.kademliaLookups.lookup infoHash = some lookup)
    (node : RoutingEntry) (unused : m.infoHashForTxn (m.randomTxn env).1 = none) :
    (m.send env infoHash node).2.Routed := by
  have notHeld : m.pit ≠ some (m.randomTxn env).1 := fun holds => routed.held _ holds unused
  have notOpen : ∀ infoHash, ((m.randomTxn env).1, infoHash) ∉ outstanding m.history := by
    intro hash member
    rw [routed.ledger, routed.agree, unused] at member
    cases member.1
  refine ⟨?_, ?_, ?_, ?_⟩
  · intro txn other
    rw [send_pendingOf node found, send_infoHashForTxn, send_pit]
    have before := routed.agree txn other
    by_cases new : txn = (m.randomTxn env).1
    · rw [new] at before ⊢
      rw [unused] at before
      by_cases same : other = infoHash
      · simp [same, notHeld]
      · rw [if_neg same, if_pos rfl, before]
        simp [Ne.symm same]
    · rw [if_neg new, ← before]
      by_cases same : other = infoHash
      · rw [if_pos same, List.mem_insert_iff]
        simp [new]
      · rw [if_neg same]
  · intro txn holds
    rw [send_pit] at holds
    rw [send_infoHashForTxn]
    split
    · rintro ⟨⟩
    · exact routed.held txn holds
  · intro txn other
    rw [send_history, send_pendingOf node found]
    simp only [outstanding, List.mem_cons, Prod.mk.injEq, routed.ledger]
    by_cases same : other = infoHash
    · rw [if_pos same, List.mem_insert_iff]
      simp [same]
    · rw [if_neg same]
      simp [same]
  · rw [send_history]
    simp only [outstanding, List.map_cons, List.nodup_cons]
    refine ⟨?_, routed.distinct⟩
    intro member
    obtain ⟨query, isOpen, same⟩ := List.mem_map.mp member
    exact notOpen query.2 (same ▸ isOpen)

theorem close_infoHashForTxn (event : InfoHash → KademliaLookup → Event) :
    (m.close infoHash event).infoHashForTxn txn =
      if txn ∈ m.pendingOf infoHash then none else m.infoHashForTxn txn := by
  cases found : m.kademliaLookups.lookup infoHash with
  | none =>
    rw [close_missing event found, pendingOf, found]
    rfl
  | some lookup =>
    rw [pendingOf_found found]
    simp only [close, found, infoHashForTxn, UnorderedMap.lookup_eraseAll]
    split
    · rfl
    · rfl

theorem close_pendingOf (event : InfoHash → KademliaLookup → Event) :
    (m.close infoHash event).pendingOf other = if other = infoHash then [] else m.pendingOf other := by
  rw [pendingOf, close_lookup]
  split
  · rfl
  · rfl

/-- An end of a lookup, whatever the reason. -/
theorem Routed.close (routed : m.Routed) (event : InfoHash → KademliaLookup → Event)
    (ends : ∀ lookup, outstanding (event infoHash lookup :: m.history) =
      (outstanding m.history).filter fun query => query.2 ≠ infoHash) :
    (m.close infoHash event).Routed := by
  cases found : m.kademliaLookups.lookup infoHash with
  | none =>
    rw [close_missing event found]
    exact routed
  | some lookup =>
    have pit : (m.close infoHash event).pit = m.pit := by rw [GetPeersLookupManager.close, found]
    have history : (m.close infoHash event).history = event infoHash lookup :: m.history := by
      rw [GetPeersLookupManager.close, found]
    refine ⟨?_, ?_, ?_, ?_⟩
    · intro txn other
      rw [close_pendingOf, close_infoHashForTxn, pit]
      have here := routed.agree txn infoHash
      have there := routed.agree txn other
      by_cases same : other = infoHash
      · rw [if_pos same, same]
        by_cases pending : txn ∈ m.pendingOf infoHash
        · simp [pending]
        · rw [if_neg pending, ← here]
          simp [pending]
      · rw [if_neg same, there]
        by_cases pending : txn ∈ m.pendingOf infoHash
        · rw [if_pos pending, (here.mp pending).1]
          simp [Ne.symm same]
        · rw [if_neg pending]
    · intro txn holds
      rw [pit] at holds
      rw [close_infoHashForTxn, if_neg]
      · exact routed.held txn holds
      · exact fun pending => ((routed.agree txn infoHash).mp pending).2 holds
    · intro txn other
      rw [history, ends, List.mem_filter, routed.ledger, close_pendingOf]
      by_cases same : other = infoHash
      · simp [same]
      · simp [same]
    · rw [history, ends]
      exact routed.distinct.sublist (List.Sublist.map _ List.filter_sublist)

theorem expire_infoHashForTxn (other : Txn) :
    (m.expire txn infoHash).infoHashForTxn other = if other = txn then none else m.infoHashForTxn other := by
  dsimp only [expire, infoHashForTxn]
  rw [UnorderedMap.lookup_erase_eq, (modify_frame _).1]
  split
  · rfl
  · rfl

/-- Taking an id off the lookup that it is bound to leaves it pending nowhere. -/
theorem Routed.pending_removed (routed : m.Routed) (bound : m.infoHashForTxn txn = some infoHash) (query : Txn) :
    query ∈ (m.modify infoHash (KademliaLookup.removePendingTxn txn)).pendingOf other ↔
      query ∈ m.pendingOf other ∧ query ≠ txn := by
  rw [pendingOf_remove]
  by_cases same : other = infoHash
  · rw [if_pos same, List.mem_filter, decide_eq_true_eq]
  · rw [if_neg same]
    refine ⟨fun member => ⟨member, ?_⟩, And.left⟩
    rintro rfl
    have elsewhere := ((routed.agree query other).mp member).1
    exact same (Option.some.inj (elsewhere.symm.trans bound))

theorem Routed.expire (routed : m.Routed) (free : m.pit = none) (bound : m.infoHashForTxn txn = some infoHash) :
    (m.expire txn infoHash).Routed := by
  have pit : (m.expire txn infoHash).pit = none := (modify_frame _).2.1.trans free
  have history : (m.expire txn infoHash).history = .expired txn :: m.history := congrArg (_ :: ·) (modify_frame _).2.2
  have pending : ∀ query other, query ∈ (m.expire txn infoHash).pendingOf other ↔
      query ∈ m.pendingOf other ∧ query ≠ txn :=
    fun query other => routed.pending_removed bound query
  refine ⟨?_, ?_, ?_, ?_⟩
  · intro query other
    rw [pending, routed.agree, expire_infoHashForTxn, pit, free]
    by_cases same : query = txn
    · simp [same]
    · simp [same]
  · rw [pit]
    rintro query ⟨⟩
  · intro query other
    rw [history, pending, ← routed.ledger]
    simp only [outstanding, List.mem_filter, decide_eq_true_eq]
  · rw [history]
    exact routed.distinct.sublist (List.Sublist.map _ List.filter_sublist)

/-- A reply takes its id off the open queries; the binding is still there. -/
theorem Routed.answer (routed : m.Routed) (free : m.pit = none) (bound : m.infoHashForTxn txn = some infoHash) :
    (m.answer txn infoHash).Routed := by
  have pit : (m.answer txn infoHash).pit = some txn := (modify_frame _).2.1
  have history : (m.answer txn infoHash).history = .answered txn :: m.history := (modify_frame _).2.2
  have bindings : (m.answer txn infoHash).infoHashForTxn = m.infoHashForTxn := by
    funext query
    rw [infoHashForTxn, GetPeersLookupManager.answer, (modify_frame _).1]
    rfl
  have pending : ∀ query other, query ∈ (m.answer txn infoHash).pendingOf other ↔
      query ∈ m.pendingOf other ∧ query ≠ txn := by
    intro query other
    rw [← routed.pending_removed bound query, GetPeersLookupManager.answer, pendingOf_remove, pendingOf_remove]
    rfl
  refine ⟨?_, ?_, ?_, ?_⟩
  · intro query other
    rw [pending, routed.agree, bindings, pit, free]
    simp [eq_comm]
  · intro query holds
    cases pit.symm.trans holds
    rw [bindings, bound]
    rintro ⟨⟩
  · intro query other
    rw [history, pending, ← routed.ledger]
    exact UnorderedMap.mem_eraseP_of_nodup routed.distinct (query, other)
  · rw [history]
    exact routed.distinct.sublist (List.Sublist.map _ List.eraseP_sublist)

theorem Routed.settle (routed : m.Routed) (holds : m.pit = some txn) : (m.settle txn).Routed := by
  have bindings : ∀ query, (m.settle txn).infoHashForTxn query =
      if query = txn then none else m.infoHashForTxn query := by
    intro query
    dsimp only [GetPeersLookupManager.settle, infoHashForTxn]
    rw [UnorderedMap.lookup_erase_eq]
    split
    · rfl
    · rfl
  refine ⟨?_, fun query held => (nomatch held), routed.ledger, routed.distinct⟩
  intro query other
  refine (routed.agree query other).trans ?_
  rw [bindings, holds]
  by_cases same : query = txn
  · simp [same]
  · simp [same, Ne.symm same, GetPeersLookupManager.settle]

theorem Routed.sendAll {nodes : List RoutingEntry} (routed : m.Routed)
    (found : m.kademliaLookups.lookup infoHash = some lookup)
    (fresh : ∀ event ∈ (m.sendAll env infoHash nodes).2.history, event.Fresh) :
    (m.sendAll env infoHash nodes).2.Routed := by
  induction nodes generalizing m lookup with
  | nil => exact routed
  | cons node rest ih =>
    have drawn : Event.drawn (m.randomTxn env).1 infoHash (m.infoHashForTxn (m.randomTxn env).1) ∈
        (m.send env infoHash node).2.history := by
      rw [send_history]
      exact List.mem_cons_self
    exact ih (routed.send found node (fresh _ (sendAll_history rest drawn))) (send_lookup node found) fresh

/-- Each change keeps the maps in agreement if the ids it draws were not in
use. -/
theorem Act.routed (act : Act env m m') (routed : m.Routed) (fresh : ∀ event ∈ m'.history, event.Fresh) :
    m'.Routed := by
  cases act with
  | read => exact routed.frame rfl rfl rfl rfl
  | merge nodes found => exact routed.frame (pendingOf_store_same found rfl) rfl rfl rfl
  | @dispatch infoHash lookup count found room =>
    have selected : (m.store infoHash (lookup.selectNextCandidates count).2).Routed :=
      routed.frame (pendingOf_store_same found rfl) rfl rfl rfl
    exact selected.sendAll store_lookup fresh
  | finish found => exact routed.close .finished fun _ => rfl
  | @emplace infoHash seeds now missing =>
    refine routed.frame ?_ rfl rfl rfl
    funext other
    rw [pendingOf_store]
    split
    case isTrue same =>
      rw [same, pendingOf, missing]
      rfl
    case isFalse => rfl
  | expire free bound => exact routed.expire free bound
  | abandon infoHash => exact routed.close .abandoned fun _ => rfl

theorem Acts.routed (acts : Acts env m m') (routed : m.Routed) (fresh : ∀ event ∈ m'.history, event.Fresh) :
    m'.Routed := by
  refine acts.invariant (P := fun after => (∀ event ∈ after.history, event.Fresh) → after.Routed) ?_
    (fun _ => routed) fresh
  intro before after ih act fresh
  exact act.routed (ih fun event member => fresh event (act.history_subset member)) fresh

theorem step_routed {call : Call} (free : m.pit = none) (run : m.step env call = some m') :
    m.history ⊆ m'.history ∧ (m.Routed → (∀ event ∈ m'.history, event.Fresh) → m'.Routed) := by
  rcases step_cases free run with acts | ⟨txn, infoHash, middle, bound, acts, rfl⟩
  · exact ⟨acts.history_subset, acts.routed⟩
  · have history : m.history ⊆ (m.answer txn infoHash).history := by
      rw [answer, (modify_frame _).2.2]
      exact List.subset_cons_self _ _
    have holds : middle.pit = some txn := acts.pit_eq.trans (modify_frame _).2.1
    refine ⟨List.Subset.trans history acts.history_subset, ?_⟩
    intro routed fresh
    exact (acts.routed (routed.answer free bound) fresh).settle holds

theorem init_routed : init.Routed := by
  refine ⟨?_, nofun, ?_, List.nodup_nil⟩
  · intro txn infoHash
    simp [pendingOf, infoHashForTxn, init]
  · intro txn infoHash
    simp [pendingOf, outstanding, init]

theorem routed_of_reach (reach : Reach (· = init) (step env) unguarded m) :
    m.pit = none ∧ ((∀ event ∈ m.history, event.Fresh) → m.Routed) := by
  refine reach_invariant (P := fun m => (∀ event ∈ m.history, event.Fresh) → m.Routed) reach
    (fun _ => init_routed) ?_
  intro before after call free ih run fresh
  obtain ⟨history, keep⟩ := step_routed free run
  exact keep (ih fun event member => fresh event (history member)) fresh

end

/-- The pending queries of the lookups and the bindings are the same, and a
reply to an open query is attributed to the hash that the query was sent for. -/
structure RepliesRouted (env : Env) (m : GetPeersLookupManager) : Prop where
  pending_bound : ∀ infoHash lookup, m.kademliaLookups.lookup infoHash = some lookup →
    ∀ txn ∈ lookup.pendingTxns, m.infoHashForTxn txn = some infoHash
  bound_pending : ∀ txn infoHash, m.infoHashForTxn txn = some infoHash →
    ∃ lookup, m.kademliaLookups.lookup infoHash = some lookup ∧ txn ∈ lookup.pendingTxns
  pending_once : ∀ infoHash lookup other rival, m.kademliaLookups.lookup infoHash = some lookup →
    m.kademliaLookups.lookup other = some rival → ∀ txn ∈ lookup.pendingTxns, txn ∈ rival.pendingTxns → other = infoHash
  attributed : ∀ msg infoHash, (msg.txn, infoHash) ∈ outstanding m.history →
    (m.onResponse env msg).1.txnKnown = true ∧ (m.onResponse env msg).1.infoHash = some infoHash

/-- Replies are routed in every run in which no id is drawn that is bound at
that moment. The id of the reply being handled counts as bound: its binding is
erased last. -/
theorem replies_reach_their_lookup {env : Env} {m : GetPeersLookupManager}
    (reach : Reach (· = init) (step env) unguarded m) (fresh : ∀ event ∈ m.history, event.Fresh) :
    m.RepliesRouted env := by
  obtain ⟨free, routed⟩ := routed_of_reach reach
  have routed := routed fresh
  have bound : ∀ infoHash lookup, m.kademliaLookups.lookup infoHash = some lookup →
      ∀ txn ∈ lookup.pendingTxns, m.infoHashForTxn txn = some infoHash := by
    intro infoHash lookup found txn member
    rw [← pendingOf_found found] at member
    exact ((routed.agree txn infoHash).mp member).1
  refine ⟨bound, ?_, ?_, ?_⟩
  · intro txn infoHash known
    have member := (routed.agree txn infoHash).mpr ⟨known, by rw [free]; rintro ⟨⟩⟩
    cases found : m.kademliaLookups.lookup infoHash with
    | none =>
      rw [pendingOf, found] at member
      cases member
    | some lookup => exact ⟨lookup, rfl, pendingOf_found found ▸ member⟩
  · intro infoHash lookup other rival found foundOther txn member memberOther
    have here := bound infoHash lookup found txn member
    have there := bound other rival foundOther txn memberOther
    exact Option.some.inj (there.symm.trans here)
  · intro msg infoHash isOpen
    have known := ((routed.agree _ _).mp ((routed.ledger _ _).mp isOpen)).1
    simp only [onResponse, known, and_self]

end GetPeersLookupManager

/-- A hash, or a node id, with one byte that is not zero. -/
def hashOf (first : UInt8) : InfoHash := ⟨first :: List.replicate 19 0, rfl⟩

def entryOf (first : UInt8) : RoutingEntry :=
  ⟨⟨.fromInfoHash (hashOf first), ⟨text ['1', '.', '1', '.', '1', '.', '1'], first.toUInt16⟩⟩, 0⟩

/-- A table that does not change, a clock that stands still, and the ids as
given. -/
def stillEnv (table : Contents (.fromInfoHash (hashOf 255))) (random : Nat → UInt8 × UInt8) : Env where
  selfId := .fromInfoHash (hashOf 255)
  sort := .insertion
  random := random
  clock := fun _ => 0
  table := fun _ => table

def oneNode (random : Nat → UInt8 × UInt8) : Env := stillEnv ⟨[entryOf 1], by decide⟩ random

namespace GetPeersLookupManager

/-- Two hashes are looked up, one after the other. -/
def twoLookups (env : Env) : GetPeersLookupManager :=
  ((init.startOrAdvance env (hashOf 2)).2.startOrAdvance env (hashOf 3)).2

theorem twoLookups_reach (env : Env) : Reach (· = init) (step env) unguarded (twoLookups env) := by
  have first : init.step env (.startOrAdvance (hashOf 2)) = some (init.startOrAdvance env (hashOf 2)).2 := rfl
  have second : (init.startOrAdvance env (hashOf 2)).2.step env (.startOrAdvance (hashOf 3)) =
    some (twoLookups env) := rfl
  exact .next (.next (.start rfl) trivial first) trivial second

/-- The second lookup draws another id than the first. -/
theorem replies_reach_their_lookup_two_hashes :
    (twoLookups (oneNode fun n => (0, n.toUInt8))).RepliesRouted (oneNode fun n => (0, n.toUInt8)) ∧
      ([0, 0], hashOf 2) ∈ outstanding (twoLookups (oneNode fun n => (0, n.toUInt8))).history ∧
      ([0, 1], hashOf 3) ∈ outstanding (twoLookups (oneNode fun n => (0, n.toUInt8))).history :=
  ⟨replies_reach_their_lookup (twoLookups_reach _) (by decide +kernel), by decide +kernel, by decide +kernel⟩

/-- Both lookups draw the same id: the reply to the query of the first is
attributed to the second. -/
theorem reply_attributed_to_other_hash :
    Reach (· = init) (step (oneNode fun _ => (0, 0))) unguarded (twoLookups (oneNode fun _ => (0, 0))) ∧
      ([0, 0], hashOf 2) ∈ outstanding (twoLookups (oneNode fun _ => (0, 0))).history ∧
      ((twoLookups (oneNode fun _ => (0, 0))).onResponse (oneNode fun _ => (0, 0)) ⟨[0, 0], [], []⟩).1.infoHash =
        some (hashOf 3) ∧
      ¬(twoLookups (oneNode fun _ => (0, 0))).RepliesRouted (oneNode fun _ => (0, 0)) := by
  have isOpen : ([0, 0], hashOf 2) ∈ outstanding (twoLookups (oneNode fun _ => (0, 0))).history := by decide +kernel
  refine ⟨twoLookups_reach _, isOpen, by decide +kernel, ?_⟩
  intro routed
  exact absurd (routed.attributed ⟨[0, 0], [], []⟩ (hashOf 2) isOpen).2 (by decide +kernel)

end GetPeersLookupManager

end BittorrentClient.Dht
