import Mathlib.Logic.Relation
import BittorrentClient.Dht.LookupManager
import BittorrentClient.Library.Reach

namespace BittorrentClient.Dht.GetPeersLookupManager
open Cpp Machine RoutingTable Relation

variable (env : Env)

/-- The changes that the calls are made of, apart from the two with which
`on_response` begins and ends. -/
inductive Act : GetPeersLookupManager → GetPeersLookupManager → Prop
  | read {m} (timed asked : Nat) : Act m { m with timed := timed, asked := asked }
  | merge {m infoHash lookup} (nodes : List RoutingEntry) : m.kademliaLookups.lookup infoHash = some lookup →
      Act m (m.store infoHash (lookup.mergeNodes env.sort nodes env.selfId))
  | dispatch {m infoHash lookup} (count : Nat) : m.kademliaLookups.lookup infoHash = some lookup →
      count + lookup.pendingCount ≤ lookupAlpha →
      Act m ((m.store infoHash (lookup.selectNextCandidates count).2).sendAll env infoHash
        (lookup.selectNextCandidates count).1).2
  | finish {m infoHash lookup} : m.kademliaLookups.lookup infoHash = some lookup → lookup.hasPending = false →
      lookup.allCandidatesQueried = true → Act m (m.finishLookup infoHash)
  | emplace {m infoHash seeds} (now : Nat) : m.kademliaLookups.lookup infoHash = none →
      (∀ seed ∈ seeds, seed.id ≠ env.selfId) → Act m (m.store infoHash (.make infoHash seeds now))
  | expire {m txn infoHash} : m.pit = none → m.infoHashForTxn txn = some infoHash → Act m (m.expire txn infoHash)
  | abandon {m} (infoHash : InfoHash) : Act m (m.close infoHash .abandoned)

def Acts : GetPeersLookupManager → GetPeersLookupManager → Prop := ReflTransGen (Act env)

/-- `on_response` takes the id off the queries of its lookup. -/
def answer (txn : Txn) (infoHash : InfoHash) (m : GetPeersLookupManager) : GetPeersLookupManager :=
  (m.hold txn).modify infoHash (KademliaLookup.removePendingTxn txn)

variable {env} {m m' : GetPeersLookupManager} {infoHash : InfoHash} {lookup : KademliaLookup} {txn : Txn}

theorem Acts.refl : Acts env m m := ReflTransGen.refl

theorem Act.acts (act : Act env m m') : Acts env m m' := ReflTransGen.single act

theorem Acts.trans {middle : GetPeersLookupManager} (first : Acts env m middle) (later : Acts env middle m') :
    Acts env m m' :=
  ReflTransGen.trans first later

/-- What each change keeps, a sequence of changes keeps. -/
theorem Acts.invariant {P : GetPeersLookupManager → Prop} (acts : Acts env m m')
    (keep : ∀ m m', P m → Act env m m' → P m') (before : P m) : P m' := by
  induction acts with
  | refl => exact before
  | tail _ act ih => exact keep _ _ ih act

@[simp] theorem store_lookup : (m.store infoHash lookup).kademliaLookups.lookup infoHash = some lookup :=
  AList.lookup_insert _

theorem store_store (other : KademliaLookup) :
    (m.store infoHash other).store infoHash lookup = m.store infoHash lookup := by
  simp only [store, AList.insert_insert]

theorem modify_found (f : KademliaLookup → KademliaLookup)
    (found : m.kademliaLookups.lookup infoHash = some lookup) : m.modify infoHash f = m.store infoHash (f lookup) := by
  rw [modify, found]

theorem modify_missing (f : KademliaLookup → KademliaLookup)
    (missing : m.kademliaLookups.lookup infoHash = none) : m.modify infoHash f = m := by
  rw [modify, missing]

theorem modify_frame (f : KademliaLookup → KademliaLookup) :
    (m.modify infoHash f).pendingLookups = m.pendingLookups ∧ (m.modify infoHash f).pit = m.pit ∧
      (m.modify infoHash f).history = m.history := by
  unfold modify
  split
  · exact ⟨rfl, rfl, rfl⟩
  · exact ⟨rfl, rfl, rfl⟩

theorem send_history (node : RoutingEntry) :
    (m.send env infoHash node).2.history =
      .drawn (m.randomTxn env).1 infoHash (m.infoHashForTxn (m.randomTxn env).1) :: m.history :=
  congrArg (_ :: ·) (modify_frame _).2.2

theorem send_pit (node : RoutingEntry) : (m.send env infoHash node).2.pit = m.pit := (modify_frame _).2.1

theorem send_lookup (node : RoutingEntry) (found : m.kademliaLookups.lookup infoHash = some lookup) :
    (m.send env infoHash node).2.kademliaLookups.lookup infoHash =
      some ((lookup.addPendingTxn (m.randomTxn env).1).recordSent node.pa) := by
  dsimp only [send, now]
  rw [modify_found (m := (m.randomTxn env).2) _ found]
  exact store_lookup

theorem sendAll_pit (nodes : List RoutingEntry) : (m.sendAll env infoHash nodes).2.pit = m.pit := by
  induction nodes generalizing m with
  | nil => rfl
  | cons node rest ih => exact ih.trans (send_pit node)

theorem sendAll_history (nodes : List RoutingEntry) : m.history ⊆ (m.sendAll env infoHash nodes).2.history := by
  induction nodes generalizing m with
  | nil => exact List.Subset.refl _
  | cons node rest ih =>
    have sent : m.history ⊆ (m.send env infoHash node).2.history := by
      rw [send_history]
      exact List.subset_cons_self _ _
    exact List.Subset.trans sent ih

theorem close_missing (event : InfoHash → KademliaLookup → Event)
    (missing : m.kademliaLookups.lookup infoHash = none) : m.close infoHash event = m := by
  rw [close, missing]

theorem close_lookup (event : InfoHash → KademliaLookup → Event) (other : InfoHash) :
    (m.close infoHash event).kademliaLookups.lookup other =
      if other = infoHash then none else m.kademliaLookups.lookup other := by
  cases found : m.kademliaLookups.lookup infoHash with
  | none =>
    rw [close_missing event found]
    split
    case isTrue same => rw [same, found]
    case isFalse => rfl
  | some lookup =>
    simp only [close, found]
    exact UnorderedMap.lookup_erase_eq _ _ _

theorem close_pit (event : InfoHash → KademliaLookup → Event) : (m.close infoHash event).pit = m.pit := by
  unfold close
  split
  · rfl
  · rfl

theorem close_history (event : InfoHash → KademliaLookup → Event) :
    m.history ⊆ (m.close infoHash event).history := by
  unfold close
  split
  · exact List.Subset.refl _
  · exact List.subset_cons_self _ _

theorem Act.pit_eq (act : Act env m m') : m'.pit = m.pit := by
  cases act with
  | read | merge | emplace => rfl
  | dispatch => exact sendAll_pit _
  | finish => exact close_pit _
  | expire => exact (modify_frame _).2.1
  | abandon => exact close_pit _

/-- The history is never rewritten. -/
theorem Act.history_subset (act : Act env m m') : m.history ⊆ m'.history := by
  cases act with
  | read | merge | emplace => exact List.Subset.refl _
  | @dispatch infoHash lookup count =>
    exact sendAll_history (m := m.store infoHash (lookup.selectNextCandidates count).2) _
  | finish => exact close_history _
  | expire =>
    refine List.Subset.trans ?_ (List.subset_cons_self _ _)
    rw [(modify_frame _).2.2]
    exact List.Subset.refl _
  | abandon => exact close_history _

theorem Acts.pit_eq (acts : Acts env m m') : m'.pit = m.pit :=
  acts.invariant (P := fun after => after.pit = m.pit) (fun _ _ same act => act.pit_eq.trans same) rfl

theorem Acts.history_subset (acts : Acts env m m') : m.history ⊆ m'.history :=
  acts.invariant (P := fun after => m.history ⊆ after.history)
    (fun _ _ subset act => List.Subset.trans subset act.history_subset) (List.Subset.refl _)

theorem now_acts (env : Env) (m : GetPeersLookupManager) : Acts env m (m.now env).2 :=
  (Act.read (m.timed + 1) m.asked).acts

theorem closest_acts (env : Env) (infoHash : InfoHash) (m : GetPeersLookupManager) :
    Acts env m (m.closest env infoHash).2 :=
  (Act.read m.timed (m.asked + 1)).acts

/-- `lookup_should_finish` leaves the lookup that it returns in the map, and
its yes means that nothing is left to wait for or to query. -/
theorem lookupShouldFinish_acts (found : m.kademliaLookups.lookup infoHash = some lookup) {finish : Bool}
    {after : KademliaLookup} (result : m.lookupShouldFinish env lookup infoHash = (finish, after, m')) :
    Acts env m m' ∧ m'.kademliaLookups.lookup infoHash = some after ∧
      (finish = true → after.hasPending = false ∧ after.allCandidatesQueried = true) := by
  unfold lookupShouldFinish at result
  split at result
  case isTrue =>
    cases result
    exact ⟨.refl, found, nofun⟩
  case isFalse idle =>
    simp only [Bool.or_eq_true, Bool.not_eq_true', not_or, Bool.not_eq_true, Bool.not_eq_false] at idle
    have asking := closest_acts env infoHash m
    dsimp only at result
    split at result
    case isTrue =>
      cases result
      exact ⟨asking, found, fun _ => idle⟩
    case isFalse =>
      cases result
      have merging : Act env (m.closest env infoHash).2 _ := .merge (m.closest env infoHash).1 found
      exact ⟨asking.trans merging.acts, store_lookup, fun queried => ⟨idle.1, queried⟩⟩

theorem sendAll_isEmpty {nodes : List RoutingEntry} (nothing : (m.sendAll env infoHash nodes).1.isEmpty = true) :
    (m.sendAll env infoHash nodes).2 = m := by
  cases nodes with
  | nil => rfl
  | cons node rest => cases nothing

theorem advanceLookup_acts (env : Env) (infoHash : InfoHash) (m : GetPeersLookupManager) :
    Acts env m (m.advanceLookup env infoHash).2 := by
  unfold advanceLookup
  split
  case h_1 => exact .refl
  case h_2 lookup found =>
    split
    case h_1 after middle result =>
      obtain ⟨acts, there, idle⟩ := lookupShouldFinish_acts found result
      exact acts.trans (Act.finish there (idle rfl).1 (idle rfl).2).acts
    case h_2 after middle result =>
      obtain ⟨acts, there, _⟩ := lookupShouldFinish_acts found result
      split
      case isTrue => exact acts
      case isFalse room =>
        have sending := acts.trans (Act.dispatch (lookupAlpha - after.pendingCount) there (by omega)).acts
        dsimp only
        split
        case isFalse => exact sending
        case isTrue nothing =>
          have stored := sendAll_isEmpty nothing
          split
          case h_1 last end_ again =>
            obtain ⟨more, remains, idleNow⟩ := lookupShouldFinish_acts (by rw [stored, store_lookup]) again
            exact sending.trans (more.trans (Act.finish remains (idleNow rfl).1 (idleNow rfl).2).acts)
          case h_2 last end_ again =>
            exact sending.trans (lookupShouldFinish_acts (by rw [stored, store_lookup]) again).1

/-- The bindings not yet visited are untouched, so each one is expired on
behalf of the lookup that it names. -/
theorem expirePending_acts (free : m.pit = none) {now : Nat} {entries : List (Sigma fun _ : Txn => Binding)}
    (distinct : entries.NodupKeys) (present : ∀ entry ∈ entries, m.pendingLookups.lookup entry.1 = some entry.2) :
    Acts env m (entries.foldl (expirePending now) m) := by
  induction entries generalizing m with
  | nil => exact .refl
  | cons entry rest ih =>
    obtain ⟨new, distinct⟩ := List.nodupKeys_cons.mp distinct
    have first := present entry List.mem_cons_self
    have later := fun other member => present other (List.mem_cons_of_mem entry member)
    rw [List.foldl_cons]
    unfold expirePending
    split
    case isFalse => exact ih free distinct later
    case isTrue =>
      have expiring : Act env m (m.expire entry.1 entry.2.infoHash) :=
        .expire free (by rw [infoHashForTxn, first, Option.map_some])
      refine expiring.acts.trans (ih ((modify_frame _).2.1.trans free) distinct ?_)
      intro other member
      have different : other.1 ≠ entry.1 := by
        intro same
        exact new (same ▸ List.mem_keys_of_mem member)
      rw [expire, (modify_frame _).1, AList.lookup_erase_ne different]
      exact later other member

theorem expirePendingLookupsLocked_acts (env : Env) (free : m.pit = none) :
    Acts env m (m.expirePendingLookupsLocked env) := by
  refine (now_acts env m).trans (expirePending_acts (m := (m.now env).2) free m.pendingLookups.nodupKeys fun entry member => ?_)
  exact AList.mem_lookup_iff.mpr member

theorem expireActiveLookupsLocked_acts (env : Env) (m : GetPeersLookupManager) :
    Acts env m (m.expireActiveLookupsLocked env) := by
  have visiting : ∀ (now : Nat) (entries : List (Sigma fun _ : InfoHash => KademliaLookup)) (m : GetPeersLookupManager),
      Acts env m (entries.foldl (expireActive now) m) := by
    intro now entries
    induction entries with
    | nil => exact fun m => .refl
    | cons entry rest ih =>
      intro m
      refine Acts.trans ?_ (ih _)
      unfold expireActive
      split
      · exact (Act.abandon entry.1).acts
      · exact .refl
  exact (now_acts env m).trans (visiting _ _ _)

theorem resume_acts (env : Env) (infoHash : InfoHash) (m : GetPeersLookupManager) :
    Acts env m (m.resume env infoHash).2 := by
  unfold resume
  split
  case h_1 => exact .refl
  case h_2 lookup found =>
    split
    case isTrue => exact .refl
    case isFalse =>
      split
      case h_1 after middle result =>
        obtain ⟨acts, there, idle⟩ := lookupShouldFinish_acts found result
        exact acts.trans (Act.finish there (idle rfl).1 (idle rfl).2).acts
      case h_2 after middle result =>
        exact (lookupShouldFinish_acts found result).1.trans (advanceLookup_acts env infoHash middle)

theorem emplace_acts {seeds : List RoutingEntry} (missing : m.kademliaLookups.lookup infoHash = none)
    (noSelf : ∀ seed ∈ seeds, seed.id ≠ env.selfId) : Acts env m (m.emplace env infoHash seeds) := by
  have emplacing : Act env (m.now env).2 (m.emplace env infoHash seeds) := .emplace _ missing noSelf
  exact (now_acts env m).trans emplacing.acts

theorem startOrAdvance_acts (env : Env) (infoHash : InfoHash) (free : m.pit = none) :
    Acts env m (m.startOrAdvance env infoHash).2 := by
  have asking := closest_acts env infoHash m
  unfold startOrAdvance
  dsimp only
  split
  case isTrue => exact asking
  case isFalse =>
    have expiring := expirePendingLookupsLocked_acts (m := (m.closest env infoHash).2) env free
    have resuming := asking.trans (expiring.trans
      ((expireActiveLookupsLocked_acts env _).trans (resume_acts env infoHash _)))
    split
    case isFalse => exact resuming
    case isTrue absent =>
      obtain ⟨_, missing⟩ := Bool.and_eq_true_iff.mp absent
      refine resuming.trans (Acts.trans (emplace_acts ?_ ?_) (advanceLookup_acts env infoHash _))
      · exact Option.isNone_iff_eq_none.mp missing
      · exact Contents.closest_noSelf _ env.sort _ K

theorem respond_acts (env : Env) (msg : KrpcMessage) (infoHash : InfoHash) (m : GetPeersLookupManager) :
    Acts env (m.modify infoHash (KademliaLookup.removePendingTxn msg.txn)) (m.respond env msg infoHash).2 := by
  unfold respond
  split
  case isTrue missing =>
    rw [modify_missing _ (Option.isNone_iff_eq_none.mp missing)]
    exact .refl
  case isFalse =>
    have handling : Acts env (m.modify infoHash (KademliaLookup.removePendingTxn msg.txn))
        (m.onLookupResponse env msg infoHash) := by
      unfold onLookupResponse
      split
      case h_1 missing =>
        rw [modify_missing _ missing]
        exact .refl
      case h_2 lookup found =>
        have merging : Acts env (m.modify infoHash (KademliaLookup.removePendingTxn msg.txn)) (m.store infoHash
            ((lookup.removePendingTxn msg.txn).mergeNodes env.sort msg.nodes env.selfId)) := by
          have merged : Act env (m.store infoHash (lookup.removePendingTxn msg.txn)) _ :=
            .merge msg.nodes store_lookup
          rw [store_store] at merged
          rw [modify_found _ found]
          exact merged.acts
        dsimp only
        split
        case h_1 after middle result =>
          obtain ⟨acts, there, idle⟩ := lookupShouldFinish_acts store_lookup result
          exact merging.trans (acts.trans (Act.finish there (idle rfl).1 (idle rfl).2).acts)
        case h_2 after middle result =>
          exact merging.trans (lookupShouldFinish_acts store_lookup result).1
    dsimp only
    split
    case isTrue => exact handling
    case isFalse => exact handling.trans (advanceLookup_acts env infoHash _)

theorem advanceAll_acts (env : Env) (hashes : List InfoHash) (m : GetPeersLookupManager) :
    Acts env m (m.advanceAll env hashes).2 := by
  induction hashes generalizing m with
  | nil => exact .refl
  | cons hash rest ih => exact (advanceLookup_acts env hash m).trans (ih _)

/-- A call is a sequence of changes; in `on_response` it stands between taking
the id off its lookup and erasing its binding. -/
theorem step_cases {call : Call} (free : m.pit = none) (run : m.step env call = some m') :
    Acts env m m' ∨ ∃ txn infoHash middle, m.infoHashForTxn txn = some infoHash ∧
      Acts env (m.answer txn infoHash) middle ∧ m' = middle.settle txn := by
  cases call with
  | startOrAdvance infoHash =>
    cases Option.some.inj run
    exact Or.inl (startOrAdvance_acts env infoHash free)
  | onResponse msg =>
    cases Option.some.inj run
    cases known : m.infoHashForTxn msg.txn with
    | none =>
      simp only [onResponse, known]
      exact Or.inl .refl
    | some infoHash =>
      refine Or.inr ⟨msg.txn, infoHash, _, known, respond_acts env msg infoHash _, ?_⟩
      simp only [onResponse, known]
  | tick hashes =>
    simp only [step, tick, Option.map_eq_some_iff] at run
    obtain ⟨result, done, rfl⟩ := run
    split at done
    case isFalse => cases done
    case isTrue =>
      cases Option.some.inj done
      exact Or.inl ((expirePendingLookupsLocked_acts env free).trans (advanceAll_acts env hashes _))
  | expirePendingLookups =>
    cases Option.some.inj run
    exact Or.inl (expirePendingLookupsLocked_acts env free)
  | expireActiveLookups =>
    cases Option.some.inj run
    exact Or.inl (expireActiveLookupsLocked_acts env m)

theorem step_pit {call : Call} (free : m.pit = none) (run : m.step env call = some m') : m'.pit = none := by
  rcases step_cases free run with acts | ⟨txn, infoHash, middle, bound, acts, rfl⟩
  · exact acts.pit_eq.trans free
  · rfl

/-- What holds at first and is kept by every call holds throughout; between
calls no iterator is held. -/
theorem reach_invariant {P : GetPeersLookupManager → Prop} (reach : Reach (· = init) (step env) unguarded m)
    (base : P init) (keep : ∀ m m' call, m.pit = none → P m → m.step env call = some m' → P m') :
    m.pit = none ∧ P m := by
  refine reach.invariant (P := fun m => m.pit = none ∧ P m) ?_ ?_
  · rintro _ rfl
    exact ⟨rfl, base⟩
  · rintro before after call ⟨free, holds⟩ _ run
    exact ⟨step_pit free run, keep before after call free holds run⟩

end BittorrentClient.Dht.GetPeersLookupManager
