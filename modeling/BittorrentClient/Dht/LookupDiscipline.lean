import BittorrentClient.Dht.EveryLookup
import BittorrentClient.Dht.TxnRouting

namespace BittorrentClient.Dht
open Cpp Machine RoutingTable

namespace KademliaLookup
open GetPeersLookupManager

variable {lookup : KademliaLookup}

/-- At most six queries are in flight, and nobody has been sent two. -/
def Disciplined (lookup : KademliaLookup) : Prop := lookup.pendingCount ≤ lookupAlpha ∧ lookup.sent.Nodup

/-- Whoever was sent a query is marked, in the same order. -/
structure Marked (lookup : KademliaLookup) : Prop where
  pending : lookup.pendingCount ≤ lookupAlpha
  sent_eq : lookup.sent = lookup.queried
  distinct : lookup.queried.Nodup

theorem selectFrom_nodup (count : Nat) {candidates : List RoutingEntry} {queried : List PeerAddress}
    (selected : List RoutingEntry) (distinct : queried.Nodup) :
    (selectFrom count candidates queried selected).2.Nodup := by
  induction candidates generalizing queried selected with
  | nil => exact distinct
  | cons entry rest ih =>
    unfold selectFrom
    split
    case isTrue => exact distinct
    case isFalse =>
      split
      case isTrue => exact ih selected distinct
      case isFalse unmarked =>
        rw [List.contains_iff_mem] at unmarked
        exact ih _ (List.nodup_cons.mpr ⟨unmarked, distinct⟩)

theorem selectFrom_length {count : Nat} {candidates : List RoutingEntry} {queried : List PeerAddress}
    {selected : List RoutingEntry} (room : selected.length ≤ count) :
    (selectFrom count candidates queried selected).1.length ≤ count := by
  induction candidates generalizing queried selected with
  | nil => exact room
  | cons entry rest ih =>
    unfold selectFrom
    split
    case isTrue => exact room
    case isFalse more =>
      split
      case isTrue => exact ih room
      case isFalse =>
        refine ih ?_
        rw [List.length_append, List.length_singleton]
        omega

/-- A candidate not yet queried is selected, unless there is room for none. -/
theorem allCandidatesQueried_of_selectNextCandidates {count : Nat} (room : 0 < count)
    (nobody : (lookup.selectNextCandidates count).1 = []) : lookup.allCandidatesQueried = true := by
  have visited : ∀ candidates : List RoutingEntry, (selectFrom count candidates lookup.queried []).1 = [] →
      ∀ entry ∈ candidates, lookup.queried.contains entry.pa = true := by
    intro candidates nothing
    induction candidates with
    | nil => exact nofun
    | cons first rest ih =>
      unfold selectFrom at nothing
      rw [if_neg (show ¬[].length ≥ count from Nat.not_le.mpr room)] at nothing
      split at nothing
      case isTrue marked => exact List.forall_mem_cons.mpr ⟨marked, ih nothing⟩
      case isFalse =>
        obtain ⟨added, result⟩ := selectFrom_added count rest (first.pa :: lookup.queried) ([] ++ [first])
        rw [result] at nothing
        cases nothing
  exact List.all_eq_true.mpr (visited lookup.candidates nobody)

theorem Marked.dispatched (marked : lookup.Marked) {count : Nat} {pending : List Txn}
    (room : count + lookup.pendingCount ≤ lookupAlpha)
    (few : pending.length ≤ (lookup.selectNextCandidates count).1.length + lookup.pendingCount) :
    (lookup.dispatched count pending).Marked where
  pending := by
    have selected : (lookup.selectNextCandidates count).1.length ≤ count := selectFrom_length (Nat.zero_le count)
    change pending.length ≤ lookupAlpha
    omega
  sent_eq := by
    change _ ++ lookup.sent = (lookup.selectNextCandidates count).2.queried
    rw [queried_selectNextCandidates, marked.sent_eq]
  distinct := selectFrom_nodup count [] marked.distinct

theorem marked_stable (env : Env) : Stable env fun _ lookup => lookup.Marked where
  make _ _ _ _ := ⟨Nat.zero_le _, rfl, List.nodup_nil⟩
  mergeNodes _ _ _ marked := ⟨marked.pending, marked.sent_eq, marked.distinct⟩
  removePendingTxn _ _ _ marked := ⟨(List.length_filter_le _ _).trans marked.pending, marked.sent_eq, marked.distinct⟩
  dispatched _ _ _ _ marked room few := marked.dispatched room few

theorem Marked.disciplined (marked : lookup.Marked) : lookup.Disciplined :=
  ⟨marked.pending, marked.sent_eq ▸ marked.distinct⟩

end KademliaLookup

namespace GetPeersLookupManager
open KademliaLookup

variable {env : Env} {m m' : GetPeersLookupManager} {infoHash other : InfoHash} {lookup : KademliaLookup} {txn : Txn}

/-- No lookup for the hash is active without a query in flight. -/
def Busy (infoHash : InfoHash) (m : GetPeersLookupManager) : Prop :=
  ∀ lookup, m.kademliaLookups.lookup infoHash = some lookup → lookup.hasPending = true

theorem busy_of_found (found : m.kademliaLookups.lookup infoHash = some lookup) (pending : lookup.hasPending = true) :
    m.Busy infoHash := by
  intro other present
  cases found.symm.trans present
  exact pending

theorem busy_of_missing (missing : m.kademliaLookups.lookup infoHash = none) : m.Busy infoHash := by
  intro lookup present
  cases missing.symm.trans present

theorem finishLookup_busy : (m.finishLookup infoHash).Busy infoHash :=
  busy_of_missing (by rw [finishLookup, close_lookup, if_pos rfl])

/-- A lookup that goes on has something to wait for or somebody to query. -/
theorem lookupShouldFinish_no {after : KademliaLookup}
    (result : m.lookupShouldFinish env lookup infoHash = (false, after, m')) :
    after.hasPending = true ∨ after.allCandidatesQueried = false := by
  unfold lookupShouldFinish at result
  split at result
  case isTrue going =>
    cases result
    simpa only [Bool.or_eq_true, Bool.not_eq_true'] using going
  case isFalse =>
    dsimp only at result
    split at result
    case isTrue => cases result
    case isFalse =>
      obtain ⟨more, same⟩ := Prod.mk.inj result
      obtain ⟨rfl, _⟩ := Prod.mk.inj same
      exact Or.inr more

theorem lookupShouldFinish_waiting (pending : lookup.hasPending = true) :
    m.lookupShouldFinish env lookup infoHash = (false, lookup, m) := by
  rw [lookupShouldFinish, pending, Bool.true_or, if_pos rfl]

/-- A lookup that goes on and has room for queries has one in flight after the
round, even if nobody was left to be sent one. -/
theorem dispatch_busy (env : Env) (infoHash : InfoHash) {count : Nat} (room : 0 < count)
    (going : lookup.hasPending = true ∨ lookup.allCandidatesQueried = false) :
    ((m.store infoHash (lookup.selectNextCandidates count).2).sendAll env infoHash
      (lookup.selectNextCandidates count).1).2.Busy infoHash := by
  have waits : (lookup.selectNextCandidates count).1 ≠ [] ∨
      (lookup.selectNextCandidates count).2.hasPending = true := by
    by_cases nobody : (lookup.selectNextCandidates count).1 = []
    · rw [allCandidatesQueried_of_selectNextCandidates room nobody] at going
      exact Or.inr (going.resolve_right nofun)
    · exact Or.inl nobody
  obtain ⟨pending, result, _, inFlight⟩ := sendAll_lookup
    (m := m.store infoHash (lookup.selectNextCandidates count).2) env (lookup.selectNextCandidates count).1 store_lookup
  refine busy_of_found result ?_
  rw [hasPending, Bool.not_eq_true', List.isEmpty_eq_false_iff]
  exact inFlight waits

/-- An advanced lookup ends or waits. -/
theorem advanceLookup_busy (env : Env) (infoHash : InfoHash) (m : GetPeersLookupManager) :
    (m.advanceLookup env infoHash).2.Busy infoHash := by
  unfold advanceLookup
  split
  case h_1 missing => exact busy_of_missing missing
  case h_2 lookup found =>
    split
    case h_1 after middle result => exact finishLookup_busy
    case h_2 after middle result =>
      have there := (lookupShouldFinish_acts found result).2.1
      have going := lookupShouldFinish_no result
      split
      case isTrue full =>
        refine busy_of_found there ?_
        rw [hasPending, Bool.not_eq_true', List.isEmpty_eq_false_iff]
        exact List.ne_nil_of_length_pos (Nat.lt_of_lt_of_le (by decide) full)
      case isFalse room =>
        have busy := dispatch_busy (m := middle) env infoHash
          (show 0 < lookupAlpha - after.pendingCount by omega) going
        dsimp only
        split
        case isFalse => exact busy
        case isTrue nothing =>
          rw [sendAll_isEmpty nothing] at busy ⊢
          rw [lookupShouldFinish_waiting (busy _ store_lookup)]
          exact busy

theorem lookupShouldFinish_lookup_other (different : other ≠ infoHash) {finish : Bool} {after : KademliaLookup}
    (result : m.lookupShouldFinish env lookup infoHash = (finish, after, m')) :
    m'.kademliaLookups.lookup other = m.kademliaLookups.lookup other := by
  unfold lookupShouldFinish at result
  split at result
  case isTrue =>
    cases result
    rfl
  case isFalse =>
    dsimp only at result
    split at result
    case isTrue =>
      cases result
      rfl
    case isFalse =>
      cases result
      exact AList.lookup_insert_ne different

theorem finishLookup_lookup_other (different : other ≠ infoHash) :
    (m.finishLookup infoHash).kademliaLookups.lookup other = m.kademliaLookups.lookup other := by
  rw [finishLookup, close_lookup, if_neg different]

/-- A lookup is advanced on its own: the others neither change nor appear. -/
theorem advanceLookup_lookup_other (different : other ≠ infoHash) :
    (m.advanceLookup env infoHash).2.kademliaLookups.lookup other = m.kademliaLookups.lookup other := by
  unfold advanceLookup
  split
  case h_1 => rfl
  case h_2 lookup found =>
    split
    case h_1 after middle result =>
      exact (finishLookup_lookup_other different).trans (lookupShouldFinish_lookup_other different result)
    case h_2 after middle result =>
      have kept := lookupShouldFinish_lookup_other different result
      split
      case isTrue => exact kept
      case isFalse =>
        have sending : ∀ marked nodes, ((middle.store infoHash marked).sendAll env infoHash
            nodes).2.kademliaLookups.lookup other = m.kademliaLookups.lookup other := by
          intro marked nodes
          rw [sendAll_lookup_other different, store, AList.lookup_insert_ne different, kept]
        dsimp only
        split
        case isFalse => exact sending _ _
        case isTrue =>
          split
          case h_1 last end_ again =>
            exact (finishLookup_lookup_other different).trans
              ((lookupShouldFinish_lookup_other different again).trans (sending _ _))
          case h_2 last end_ again => exact (lookupShouldFinish_lookup_other different again).trans (sending _ _)

theorem resume_busy (env : Env) (infoHash : InfoHash) (m : GetPeersLookupManager) :
    (m.resume env infoHash).2.Busy infoHash := by
  unfold resume
  split
  case h_1 missing => exact busy_of_missing missing
  case h_2 lookup found =>
    split
    case isTrue pending => exact busy_of_found found pending
    case isFalse =>
      split
      case h_1 => exact finishLookup_busy
      case h_2 => exact advanceLookup_busy env infoHash _

theorem startOrAdvance_busy (candidates : (m.startOrAdvance env infoHash).1.noCandidates = false) :
    (m.startOrAdvance env infoHash).2.Busy infoHash := by
  unfold startOrAdvance at candidates ⊢
  dsimp only at candidates ⊢
  split at candidates
  case isTrue => cases candidates
  case isFalse seeds =>
    rw [if_neg seeds]
    split
    case isTrue => exact advanceLookup_busy env infoHash _
    case isFalse => exact resume_busy env infoHash _

theorem onResponse_busy {msg : KrpcMessage} (known : (m.onResponse env msg).1.infoHash = some infoHash) :
    (m.onResponse env msg).2.Busy infoHash := by
  unfold onResponse at known ⊢
  split at known
  case h_1 => cases known
  case h_2 hash bound =>
    cases Option.some.inj known
    have busy : ((m.hold msg.txn).respond env msg infoHash).2.Busy infoHash := by
      unfold respond
      split
      case isTrue missing => exact busy_of_missing (Option.isNone_iff_eq_none.mp missing)
      case isFalse =>
        dsimp only
        split
        case isTrue missing => exact busy_of_missing (Option.isNone_iff_eq_none.mp missing)
        case isFalse => exact advanceLookup_busy env infoHash _
    exact busy

theorem advanceAll_busy {hashes : List InfoHash} (listed : m.Busy infoHash ∨ infoHash ∈ hashes) :
    (m.advanceAll env hashes).2.Busy infoHash := by
  induction hashes generalizing m with
  | nil => exact listed.resolve_right List.not_mem_nil
  | cons hash rest ih =>
    refine ih ?_
    by_cases same : infoHash = hash
    · exact Or.inl (same ▸ advanceLookup_busy env infoHash m)
    · rcases listed with busy | member
      · refine Or.inl fun lookup present => busy lookup ?_
        exact (advanceLookup_lookup_other same).symm.trans present
      · exact Or.inr ((List.mem_cons.mp member).resolve_left same)

/-- Every lookup is listed for `tick`. -/
theorem tick_busy {hashes : List InfoHash} {outbound : List OutboundKrpc}
    (run : m.tick env hashes = some (outbound, m')) : m'.Busy infoHash := by
  unfold tick at run
  dsimp only at run
  split at run
  case isFalse => cases run
  case isTrue all =>
    have done := Option.some.inj run
    have busy : ((m.expirePendingLookupsLocked env).advanceAll env hashes).2.Busy infoHash := by
      refine advanceAll_busy ?_
      cases found : (m.expirePendingLookupsLocked env).kademliaLookups.lookup infoHash with
      | none => exact Or.inl (busy_of_missing found)
      | some lookup =>
        refine Or.inr (all.mem_iff.mpr ?_)
        exact AList.mem_keys.mpr (AList.lookup_isSome.mp (found ▸ rfl))
    rwa [done] at busy

/-- Along every run, a lookup never has more than six queries in flight and
never sends two to one address, be it active or ended; and once a call has
advanced a lookup, that one is gone or has a query in flight. -/
theorem lookup_discipline (reach : Reach (· = init) (step env) unguarded m) :
    (∀ infoHash lookup, m.kademliaLookups.lookup infoHash = some lookup ∨ .finished infoHash lookup ∈ m.history ∨
      .abandoned infoHash lookup ∈ m.history → lookup.Disciplined) ∧
    (∀ infoHash, (m.startOrAdvance env infoHash).1.noCandidates = false →
      (m.startOrAdvance env infoHash).2.Busy infoHash) ∧
    (∀ msg infoHash, (m.onResponse env msg).1.infoHash = some infoHash →
      (m.onResponse env msg).2.Busy infoHash) ∧
    ∀ hashes outbound m', m.tick env hashes = some (outbound, m') → ∀ infoHash, m'.Busy infoHash := by
  have every := every_of_reach (marked_stable env) reach
  refine ⟨?_, fun _ => startOrAdvance_busy, fun _ _ => onResponse_busy, fun _ _ _ run _ => tick_busy run⟩
  rintro infoHash lookup (found | finished | abandoned)
  · exact (every.active infoHash lookup found).disciplined
  · exact (every.finished infoHash lookup finished).1.disciplined
  · exact (every.abandoned infoHash lookup abandoned).disciplined

/-- Every id drawn is the same: the reply to the second lookup names a node, and
the query to that one has the id of the reply. -/
theorem lookup_discipline_one_id :
    (∃ lookup, (twoLookups (oneNode fun _ => (0, 0))).kademliaLookups.lookup (hashOf 3) = some lookup ∧
      lookup.pendingCount = 1 ∧ lookup.Disciplined) ∧
    ((twoLookups (oneNode fun _ => (0, 0))).onResponse (oneNode fun _ => (0, 0)) ⟨[0, 0], [entryOf 4], []⟩).2.Busy
      (hashOf 3) ∧
    ((twoLookups (oneNode fun _ => (0, 0))).onResponse (oneNode fun _ => (0, 0))
      ⟨[0, 0], [entryOf 4], []⟩).1.outbound.map OutboundKrpc.pa = [(entryOf 4).pa] := by
  obtain ⟨disciplined, _, response, _⟩ := lookup_discipline (twoLookups_reach (oneNode fun _ => (0, 0)))
  have one : ∃ lookup, (twoLookups (oneNode fun _ => (0, 0))).kademliaLookups.lookup (hashOf 3) = some lookup ∧
      lookup.pendingCount = 1 := by
    refine ⟨((twoLookups (oneNode fun _ => (0, 0))).kademliaLookups.lookup (hashOf 3)).get (by decide +kernel), ?_, ?_⟩
    · exact (Option.some_get _).symm
    · decide +kernel
  obtain ⟨lookup, found, count⟩ := one
  refine ⟨⟨lookup, found, count, disciplined _ lookup (Or.inl found)⟩, ?_, by decide +kernel⟩
  exact response ⟨[0, 0], [entryOf 4], []⟩ (hashOf 3) (by decide +kernel)

end GetPeersLookupManager

end BittorrentClient.Dht
