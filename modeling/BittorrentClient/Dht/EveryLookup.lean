import BittorrentClient.Dht.LookupActions

namespace BittorrentClient.Dht
open Cpp Machine RoutingTable

namespace KademliaLookup

variable {lookup : KademliaLookup}

/-- The loop marks whom it selects and nobody else. -/
theorem selectFrom_added (count : Nat) (candidates : List RoutingEntry) (queried : List PeerAddress)
    (selected : List RoutingEntry) : ∃ added, selectFrom count candidates queried selected =
      (selected ++ added, (added.map fun entry => entry.pa).reverse ++ queried) := by
  induction candidates generalizing queried selected with
  | nil => exact ⟨[], by rw [List.append_nil]; rfl⟩
  | cons entry rest ih =>
    unfold selectFrom
    split
    case isTrue => exact ⟨[], by rw [List.append_nil]; rfl⟩
    case isFalse =>
      split
      case isTrue => exact ih queried selected
      case isFalse =>
        obtain ⟨added, result⟩ := ih (entry.pa :: queried) (selected ++ [entry])
        refine ⟨entry :: added, result.trans ?_⟩
        rw [List.append_assoc, List.singleton_append, List.map_cons, List.reverse_cons, List.append_assoc,
          List.singleton_append]

theorem queried_selectNextCandidates (count : Nat) :
    (lookup.selectNextCandidates count).2.queried =
      ((lookup.selectNextCandidates count).1.map fun entry => entry.pa).reverse ++ lookup.queried := by
  obtain ⟨added, result⟩ := selectFrom_added count lookup.candidates lookup.queried []
  rw [selectNextCandidates, result]
  rfl

theorem addPendingTxn_count (txn : Txn) (lookup : KademliaLookup) :
    (lookup.addPendingTxn txn).pendingCount ≤ lookup.pendingCount + 1 := by
  rw [pendingCount, addPendingTxn, pendingCount, List.length_insert]
  split
  · exact Nat.le_succ _
  · exact Nat.le_refl _

/-- The lookup after a round of queries to the selected candidates, under some
ids. -/
def dispatched (count : Nat) (pending : List Txn) (lookup : KademliaLookup) : KademliaLookup :=
  { (lookup.selectNextCandidates count).2 with
    pendingTxns := pending
    sent := ((lookup.selectNextCandidates count).1.map fun entry => entry.pa).reverse ++ lookup.sent }

/-- A property that a lookup has from the start and keeps as it is changed. -/
structure Stable (env : Env) (P : InfoHash → KademliaLookup → Prop) : Prop where
  make : ∀ infoHash seeds now, (∀ seed ∈ seeds, seed.id ≠ env.selfId) → P infoHash (.make infoHash seeds now)
  mergeNodes : ∀ infoHash lookup nodes, P infoHash lookup →
    P infoHash (lookup.mergeNodes env.sort nodes env.selfId)
  removePendingTxn : ∀ infoHash lookup txn, P infoHash lookup → P infoHash (lookup.removePendingTxn txn)
  dispatched : ∀ infoHash lookup count pending, P infoHash lookup →
    count + lookup.pendingCount ≤ GetPeersLookupManager.lookupAlpha →
    pending.length ≤ (lookup.selectNextCandidates count).1.length + lookup.pendingCount →
    P infoHash (lookup.dispatched count pending)

end KademliaLookup

namespace GetPeersLookupManager
open KademliaLookup

variable {env : Env} {m m' : GetPeersLookupManager} {infoHash other : InfoHash} {lookup : KademliaLookup} {txn : Txn}
  {P : InfoHash → KademliaLookup → Prop}

/-- Every lookup has the property, while it is active and when it has ended. -/
structure Every (P : InfoHash → KademliaLookup → Prop) (m : GetPeersLookupManager) : Prop where
  active : ∀ infoHash lookup, m.kademliaLookups.lookup infoHash = some lookup → P infoHash lookup
  finished : ∀ infoHash lookup, .finished infoHash lookup ∈ m.history →
    P infoHash lookup ∧ lookup.allCandidatesQueried = true
  abandoned : ∀ infoHash lookup, .abandoned infoHash lookup ∈ m.history → P infoHash lookup

/-- An event that does not end a lookup is of no concern. -/
theorem Every.frame (every : m.Every P)
    (lookups : ∀ infoHash lookup, m'.kademliaLookups.lookup infoHash = some lookup →
      m.kademliaLookups.lookup infoHash = some lookup)
    (history : ∀ event ∈ m'.history, event ∈ m.history ∨
      ∀ infoHash lookup, event ≠ .finished infoHash lookup ∧ event ≠ .abandoned infoHash lookup) : m'.Every P where
  active infoHash lookup found := every.active infoHash lookup (lookups infoHash lookup found)
  finished infoHash lookup member := by
    rcases history _ member with old | other
    · exact every.finished infoHash lookup old
    · exact absurd rfl (other infoHash lookup).1
  abandoned infoHash lookup member := by
    rcases history _ member with old | other
    · exact every.abandoned infoHash lookup old
    · exact absurd rfl (other infoHash lookup).2

theorem Every.store (every : m.Every P) (holds : P infoHash lookup) : (m.store infoHash lookup).Every P := by
  refine ⟨?_, every.finished, every.abandoned⟩
  intro other found present
  rw [GetPeersLookupManager.store, UnorderedMap.lookup_insert_eq] at present
  split at present
  case isTrue same =>
    cases present
    exact same ▸ holds
  case isFalse => exact every.active other found present

theorem Every.removePendingTxn (stable : Stable env P) (every : m.Every P) :
    (m.modify infoHash (KademliaLookup.removePendingTxn txn)).Every P := by
  cases found : m.kademliaLookups.lookup infoHash with
  | none => rwa [modify_missing _ found]
  | some lookup =>
    rw [modify_found _ found]
    exact every.store (stable.removePendingTxn _ _ txn (every.active infoHash lookup found))

theorem send_lookup_other (node : RoutingEntry) (different : other ≠ infoHash) :
    (m.send env infoHash node).2.kademliaLookups.lookup other = m.kademliaLookups.lookup other := by
  dsimp only [send, now]
  unfold modify
  split
  · rfl
  · exact AList.lookup_insert_ne different

theorem sendAll_lookup_other {nodes : List RoutingEntry} (different : other ≠ infoHash) :
    (m.sendAll env infoHash nodes).2.kademliaLookups.lookup other = m.kademliaLookups.lookup other := by
  induction nodes generalizing m with
  | nil => rfl
  | cons node rest ih => exact ih.trans (send_lookup_other node different)

/-- A whole round of queries touches the lookup that they are for: their
addresses are sent to, under ids that are pending from then on. -/
theorem sendAll_lookup (env : Env) (nodes : List RoutingEntry) (found : m.kademliaLookups.lookup infoHash = some lookup) :
    ∃ pending, (m.sendAll env infoHash nodes).2.kademliaLookups.lookup infoHash =
        some { lookup with
          pendingTxns := pending
          sent := (nodes.map fun entry => entry.pa).reverse ++ lookup.sent } ∧
      pending.length ≤ nodes.length + lookup.pendingCount ∧ (nodes ≠ [] ∨ lookup.hasPending = true → pending ≠ []) := by
  induction nodes generalizing m lookup with
  | nil =>
    refine ⟨lookup.pendingTxns, found, (Nat.zero_add _).ge, ?_⟩
    simp only [ne_eq, not_true_eq_false, false_or, hasPending, Bool.not_eq_true', List.isEmpty_eq_false_iff]
    exact id
  | cons node rest ih =>
    have sent : (m.send env infoHash node).2.kademliaLookups.lookup infoHash = some _ := send_lookup node found
    obtain ⟨pending, result, few, some_⟩ := ih sent
    have inserted : ((lookup.addPendingTxn (m.randomTxn env).1).recordSent node.pa).pendingTxns =
        lookup.pendingTxns.insert (m.randomTxn env).1 := rfl
    refine ⟨pending, result.trans ?_, ?_, fun _ => some_ (Or.inr ?_)⟩
    · rw [List.map_cons, List.reverse_cons, List.append_assoc]
      rfl
    · have grown := addPendingTxn_count (m.randomTxn env).1 lookup
      rw [List.length_cons]
      change _ ≤ _ + (lookup.addPendingTxn (m.randomTxn env).1).pendingCount at few
      omega
    · rw [hasPending, inserted, Bool.not_eq_true', List.isEmpty_eq_false_iff]
      exact List.ne_nil_of_mem List.mem_insert_self

theorem sendAll_events {nodes : List RoutingEntry} :
    ∀ event ∈ (m.sendAll env infoHash nodes).2.history, event ∈ m.history ∨
      ∀ infoHash lookup, event ≠ .finished infoHash lookup ∧ event ≠ .abandoned infoHash lookup := by
  induction nodes generalizing m with
  | nil => exact fun event member => Or.inl member
  | cons node rest ih =>
    intro event member
    rcases ih event member with sent | other
    · have drawn : (m.send env infoHash node).2.history = _ := send_history node
      rcases List.mem_cons.mp (drawn ▸ sent) with rfl | old
      · exact Or.inr fun _ _ => ⟨nofun, nofun⟩
      · exact Or.inl old
    · exact Or.inr other

theorem Every.dispatch (stable : Stable env P) (every : m.Every P)
    (found : m.kademliaLookups.lookup infoHash = some lookup) {count : Nat}
    (room : count + lookup.pendingCount ≤ lookupAlpha) :
    ((m.store infoHash (lookup.selectNextCandidates count).2).sendAll env infoHash
      (lookup.selectNextCandidates count).1).2.Every P := by
  obtain ⟨pending, result, few, _⟩ := sendAll_lookup (m := m.store infoHash (lookup.selectNextCandidates count).2) env
    (lookup.selectNextCandidates count).1 store_lookup
  have holds := stable.dispatched infoHash lookup count pending (every.active infoHash lookup found) room few
  have sending : (m.store infoHash (lookup.dispatched count pending)).Every P := every.store holds
  refine sending.frame ?_ sendAll_events
  intro other after present
  by_cases same : other = infoHash
  · rw [same, result] at present
    rw [same, store_lookup]
    exact present
  · rw [sendAll_lookup_other same, GetPeersLookupManager.store, AList.lookup_insert_ne same] at present
    rwa [GetPeersLookupManager.store, AList.lookup_insert_ne same]

theorem close_events (event : InfoHash → KademliaLookup → Event) {what : Event}
    (member : what ∈ (m.close infoHash event).history) :
    what ∈ m.history ∨ ∃ lookup, m.kademliaLookups.lookup infoHash = some lookup ∧ what = event infoHash lookup := by
  cases found : m.kademliaLookups.lookup infoHash with
  | none =>
    rw [close_missing event found] at member
    exact Or.inl member
  | some lookup =>
    simp only [close, found] at member
    rcases List.mem_cons.mp member with new | old
    · exact Or.inr ⟨lookup, rfl, new⟩
    · exact Or.inl old

theorem Every.active_of_close (every : m.Every P) (event : InfoHash → KademliaLookup → Event) :
    ∀ other lookup, (m.close infoHash event).kademliaLookups.lookup other = some lookup → P other lookup := by
  intro other lookup present
  rw [close_lookup] at present
  split at present
  case isTrue => cases present
  case isFalse => exact every.active other lookup present

theorem Every.finish (every : m.Every P) (found : m.kademliaLookups.lookup infoHash = some lookup)
    (exhausted : lookup.allCandidatesQueried = true) : (m.finishLookup infoHash).Every P := by
  refine ⟨every.active_of_close .finished, ?_, ?_⟩
  · intro other ended member
    rcases close_events .finished member with old | ⟨last, present, same⟩
    · exact every.finished other ended old
    · cases same
      cases found.symm.trans present
      exact ⟨every.active infoHash lookup found, exhausted⟩
  · intro other ended member
    rcases close_events .finished member with old | ⟨last, present, same⟩
    · exact every.abandoned other ended old
    · cases same

theorem Every.abandon (every : m.Every P) : (m.close infoHash .abandoned).Every P := by
  refine ⟨every.active_of_close .abandoned, ?_, ?_⟩
  · intro other ended member
    rcases close_events .abandoned member with old | ⟨last, present, same⟩
    · exact every.finished other ended old
    · cases same
  · intro other ended member
    rcases close_events .abandoned member with old | ⟨last, present, same⟩
    · exact every.abandoned other ended old
    · cases same
      exact every.active infoHash _ present

theorem Act.every (stable : Stable env P) (act : Act env m m') (every : m.Every P) : m'.Every P := by
  cases act with
  | read => exact every.frame (fun _ _ found => found) fun _ member => Or.inl member
  | merge nodes found => exact every.store (stable.mergeNodes _ _ nodes (every.active _ _ found))
  | dispatch count found room => exact every.dispatch stable found room
  | finish found idle exhausted => exact every.finish found exhausted
  | emplace now missing noSelf => exact every.store (stable.make _ _ now noSelf)
  | expire free bound =>
    refine (every.removePendingTxn stable).frame (fun _ _ found => found) fun event member => ?_
    rcases List.mem_cons.mp member with rfl | old
    · exact Or.inr fun _ _ => ⟨nofun, nofun⟩
    · exact Or.inl old
  | abandon infoHash => exact every.abandon

theorem step_every {call : Call} (stable : Stable env P) (free : m.pit = none) (run : m.step env call = some m')
    (every : m.Every P) : m'.Every P := by
  have keep : ∀ m m', m.Every P → Act env m m' → m'.Every P := fun _ _ every act => act.every stable every
  rcases step_cases free run with acts | ⟨txn, infoHash, middle, bound, acts, rfl⟩
  · exact acts.invariant keep every
  · have held : (m.hold txn).Every P := by
      refine every.frame (fun _ _ found => found) fun event member => ?_
      rcases List.mem_cons.mp member with rfl | old
      · exact Or.inr fun _ _ => ⟨nofun, nofun⟩
      · exact Or.inl old
    have handled : middle.Every P := acts.invariant keep (held.removePendingTxn stable)
    exact handled.frame (fun _ _ found => found) fun _ member => Or.inl member

/-- A stable property holds of every lookup of a run. -/
theorem every_of_reach (stable : Stable env P) (reach : Reach (· = init) (step env) unguarded m) : m.Every P :=
  (reach_invariant reach ⟨nofun, nofun, nofun⟩ fun _ _ _ free every run => step_every stable free run every).2

end GetPeersLookupManager

end BittorrentClient.Dht
