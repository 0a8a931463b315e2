import BittorrentClient.Dht.PeerStore
import BittorrentClient.Utils.LruOrder

namespace BittorrentClient.Dht
open Cpp Recency

namespace PeerStore

inductive Call
  | upsert (infoHash : InfoHash) (pa : PeerAddress)
  | ensureBucket (infoHash : InfoHash)
  | livePeers (infoHash : InfoHash)
  | expireStale

/-- A call at the time that its reading of the clock gives. -/
def apply (store : PeerStore) : Nat × Call → PeerStore
  | (now, .upsert infoHash pa) => store.upsert now infoHash pa
  | (_, .ensureBucket infoHash) => store.ensureBucket infoHash
  | (now, .livePeers infoHash) => (store.livePeers now infoHash).2
  | (now, .expireStale) => store.expireStale now

/-- The hash that a call makes a bucket for, if it has none. -/
def Call.creates : Call → Option InfoHash
  | .upsert infoHash _ => some infoHash
  | .ensureBucket infoHash => some infoHash
  | _ => none

/-- The peer that a call upserts for a hash, with the time. -/
def upserted (infoHash : InfoHash) : Nat × Call → Option (PeerAddress × Nat)
  | (now, .upsert other pa) => if other = infoHash then some (pa, now) else none
  | _ => none

/-- The distinct peers of a hash with the time of their latest upsert, most
recent first. -/
def recentPeers (infoHash : InfoHash) (calls : List (Nat × Call)) : List (PeerAddress × Nat) :=
  latest (calls.reverse.filterMap (upserted infoHash))

/-- Whether a peer that was last seen at that time is alive. -/
def alive (now : Nat) (entry : PeerAddress × Nat) : Bool := (now : Int) - entry.2 < peerEntryTtl

/-- What the store holds for a hash. -/
def bucket (store : PeerStore) (infoHash : InfoHash) : Option HashBucket := find infoHash store.buckets.contents

/-- The peers of a hash and their times, none for a hash without bucket. -/
def peersOf (store : PeerStore) (infoHash : InfoHash) : List (PeerAddress × Nat) :=
  ((store.bucket infoHash).map LruCache.contents).getD []

/-- Both levels of caches are in order. -/
structure Invariant (store : PeerStore) : Prop where
  lru : store.buckets.Invariant
  capacity : store.buckets.capacity = maxInfoHashes
  inner : ∀ infoHash peers, (infoHash, peers) ∈ store.buckets.contents →
    peers.Invariant ∧ peers.capacity = maxPeersPerHash

section Operations
variable {store : PeerStore} {now : Nat} {infoHash : InfoHash}

theorem Invariant.keys (inv : store.Invariant) : (store.buckets.contents.map Prod.fst).Nodup := by
  rw [LruCache.contents_keys]
  exact inv.lru.keys

/-- Bringing a bucket to the front changes nothing else. -/
theorem Invariant.touched (inv : store.Invariant) {peers : HashBucket} {buckets : LruCache InfoHash HashBucket}
    (member : (infoHash, peers) ∈ store.buckets.contents) (kept : buckets.Invariant)
    (capacity : buckets.capacity = store.buckets.capacity)
    (moved : buckets.contents = touch infoHash peers store.buckets.contents) :
    (⟨buckets⟩ : PeerStore).Invariant ∧ ∀ other, bucket ⟨buckets⟩ other = store.bucket other := by
  refine ⟨⟨kept, capacity.trans inv.capacity, fun other held inBuckets => ?_⟩, fun other => ?_⟩
  · change (other, held) ∈ buckets.contents at inBuckets
    rw [moved] at inBuckets
    rcases List.mem_cons.mp inBuckets with same | older
    · cases same
      exact inv.inner infoHash peers member
    · exact inv.inner other held (mem_without.mp older).1
  · change find other buckets.contents = _
    rw [moved, find_touch_self inv.keys member]
    rfl

/-- The answer of `live_peers`, which changes the order of the buckets at most. -/
theorem Invariant.livePeers (inv : store.Invariant) (now : Nat) (infoHash : InfoHash) :
    (store.livePeers now infoHash).1 = ((store.peersOf infoHash).filter (alive now)).map Prod.fst ∧
      (store.livePeers now infoHash).2.Invariant ∧
      ∀ other, (store.livePeers now infoHash).2.bucket other = store.bucket other := by
  rcases inv.lru.get_cases infoHash with ⟨missing, got⟩ | ⟨it, peers, member, got, kept, points, moved⟩
  · have none : store.bucket infoHash = none := find_eq_none.mpr missing
    have answer : store.livePeers now infoHash = ([], store) := by simp only [PeerStore.livePeers, got]
    rw [answer, peersOf, none]
    exact ⟨rfl, inv, fun _ => rfl⟩
  · have held : store.bucket infoHash = some peers := find_of_mem inv.keys member
    have same := inv.touched member kept rfl moved
    obtain ⟨value, stored, pointed⟩ := kept.valueAt points
    rw [moved] at stored
    have value_eq : value = peers := by
      rcases List.mem_cons.mp stored with equal | older
      · exact (Prod.mk.inj equal).2
      · exact absurd rfl (mem_without.mp older).2
    simp only [PeerStore.livePeers, got]
    refine ⟨?_, same⟩
    rw [pointed, value_eq, peersOf, held]
    simp only [Option.elim_some, Option.map_some, Option.getD_some, LruCache.contents, List.filter_map, List.map_map]
    rw [← List.filterMap_eq_map, List.filterMap_filter]
    refine List.filterMap_congr fun node _ => ?_
    simp only [alive, Function.comp_apply, decide_eq_true_eq]

/-- Where `ensure_bucket` and `upsert` begin: the bucket of the hash, made if it
was missing. -/
theorem Invariant.opened (inv : store.Invariant)
    (room : infoHash ∉ store.buckets.contents.map Prod.fst → store.buckets.contents.length < maxInfoHashes) :
    ∃ it buckets, (store.buckets.get infoHash = (some it, buckets) ∨ store.buckets.get infoHash = (none, store.buckets) ∧
        store.buckets.put infoHash (.make maxPeersPerHash) = (it, buckets)) ∧
      (⟨buckets⟩ : PeerStore).Invariant ∧ buckets.Points it infoHash ∧
      ∀ other, bucket ⟨buckets⟩ other =
        if other = infoHash then some ((store.bucket infoHash).getD (.make maxPeersPerHash)) else store.bucket other := by
  rcases inv.lru.get_cases infoHash with ⟨missing, got⟩ | ⟨it, peers, member, got, kept, points, moved⟩
  · have none : store.bucket infoHash = none := find_eq_none.mpr missing
    obtain ⟨kept, put, points, capacity⟩ := inv.lru.put (by rw [inv.capacity]; decide) infoHash (.make maxPeersPerHash)
    have all : (touch infoHash (.make maxPeersPerHash) store.buckets.contents).take store.buckets.capacity =
        touch infoHash (.make maxPeersPerHash) store.buckets.contents := by
      refine List.take_of_length_le ?_
      rw [touch, without_of_notMem missing, inv.capacity]
      exact room missing
    rw [all] at put
    rcases made : store.buckets.put infoHash (.make maxPeersPerHash) with ⟨it, buckets⟩
    rw [made] at kept put points capacity
    refine ⟨it, buckets, Or.inr ⟨got, rfl⟩, ⟨kept, capacity.trans inv.capacity, fun other held inBuckets => ?_⟩, points, fun other => ?_⟩
    · change (other, held) ∈ buckets.contents at inBuckets
      rw [put] at inBuckets
      rcases List.mem_cons.mp inBuckets with same | older
      · cases same
        exact ⟨LruCache.invariant_make _, rfl⟩
      · exact inv.inner other held (mem_without.mp older).1
    · change find other buckets.contents = _
      rw [put, find_touch, none]
      rfl
  · have held : store.bucket infoHash = some peers := find_of_mem inv.keys member
    obtain ⟨kept', same⟩ := inv.touched member kept rfl moved
    refine ⟨it, store.buckets.splice it, Or.inl got, kept', points, fun other => ?_⟩
    rw [same]
    split
    case isTrue equal => rw [equal, held, Option.getD_some]
    case isFalse => rfl

theorem Invariant.ensureBucket (inv : store.Invariant)
    (room : infoHash ∉ store.buckets.contents.map Prod.fst → store.buckets.contents.length < maxInfoHashes) :
    (store.ensureBucket infoHash).Invariant ∧ ∀ other, (store.ensureBucket infoHash).bucket other =
      if other = infoHash then some ((store.bucket infoHash).getD (.make maxPeersPerHash)) else store.bucket other := by
  obtain ⟨it, buckets, found, kept, _, same⟩ := inv.opened room
  have ensured : store.ensureBucket infoHash = ⟨buckets⟩ := by
    rcases found with got | ⟨got, put⟩
    · simp only [PeerStore.ensureBucket, got]
    · simp only [PeerStore.ensureBucket, got, put]
  rw [ensured]
  exact ⟨kept, same⟩

/-- The peer comes to the front of its bucket. -/
theorem Invariant.upsert (inv : store.Invariant)
    (room : infoHash ∉ store.buckets.contents.map Prod.fst → store.buckets.contents.length < maxInfoHashes)
    (now : Nat) (pa : PeerAddress) :
    (store.upsert now infoHash pa).Invariant ∧
      (∀ other, other ≠ infoHash → (store.upsert now infoHash pa).bucket other = store.bucket other) ∧
      (store.upsert now infoHash pa).peersOf infoHash = (touch pa now (store.peersOf infoHash)).take maxPeersPerHash := by
  obtain ⟨it, buckets, found, kept, points, same⟩ := inv.opened room
  have updated : store.upsert now infoHash pa = ⟨buckets.modifyAt it fun peers => (peers.put pa now).2⟩ := by
    rcases found with got | ⟨got, put⟩
    · simp only [PeerStore.upsert, got]
    · simp only [PeerStore.upsert, got, put]
  have written := kept.lru.contents_modifyAt points fun peers => (peers.put pa now).2
  have inner : ∀ peers : HashBucket, peers.Invariant → peers.capacity = maxPeersPerHash →
      (peers.put pa now).2.Invariant ∧ (peers.put pa now).2.capacity = maxPeersPerHash ∧
        (peers.put pa now).2.contents = (touch pa now peers.contents).take maxPeersPerHash := by
    intro peers invariant capacity
    obtain ⟨after, put, _, capacity'⟩ := invariant.put (by rw [capacity]; decide) pa now
    rw [capacity] at put capacity'
    exact ⟨after, capacity', put⟩
  have changed : ∀ other, bucket ⟨buckets.modifyAt it fun peers => (peers.put pa now).2⟩ other =
      if other = infoHash then (bucket ⟨buckets⟩ other).map fun peers => (peers.put pa now).2
      else bucket ⟨buckets⟩ other := by
    intro other
    rw [bucket, written]
    exact find_map infoHash other (fun peers : HashBucket => (peers.put pa now).2) buckets.contents
  rw [updated]
  refine ⟨⟨kept.lru.modifyAt it fun peers => (peers.put pa now).2, kept.capacity, fun other held inBuckets => ?_⟩,
    fun other different => ?_, ?_⟩
  · rw [written] at inBuckets
    obtain ⟨⟨name, old⟩, inOld, changed⟩ := List.mem_map.mp inBuckets
    obtain ⟨oldInv, oldCapacity⟩ := kept.inner name old inOld
    split at changed
    · cases changed
      exact ⟨(inner old oldInv oldCapacity).1, (inner old oldInv oldCapacity).2.1⟩
    · cases changed
      exact ⟨oldInv, oldCapacity⟩
  · rw [changed, same, if_neg different, if_neg different]
  · rw [peersOf, changed, same, if_pos rfl, if_pos rfl, Option.map_some, Option.map_some, Option.getD_some, peersOf]
    cases held : store.bucket infoHash with
    | none => exact (inner (.make maxPeersPerHash) (LruCache.invariant_make _) rfl).2.2
    | some peers =>
      obtain ⟨oldInv, oldCapacity⟩ := inv.inner infoHash peers (mem_of_find held)
      exact (inner peers oldInv oldCapacity).2.2

/-- `expire_stale` drops the buckets that it takes for dead. -/
theorem Invariant.expireStale (inv : store.Invariant) (now : Nat) :
    (store.expireStale now).Invariant ∧ ∀ other,
      (store.expireStale now).bucket other = (store.bucket other).filter fun peers => !bucketIsDead now peers := by
  obtain ⟨kept, contents, capacity⟩ := inv.lru.eraseWhere (bucketIsDead now)
  have walked : (store.expireStale now).buckets.contents =
      store.buckets.contents.filter (fun entry => !bucketIsDead now entry.2) := contents
  refine ⟨⟨kept, capacity.trans inv.capacity, fun other held member => ?_⟩, fun other => ?_⟩
  · rw [walked] at member
    exact inv.inner other held (List.mem_filter.mp member).1
  · rw [bucket, walked, find_filter inv.keys fun peers => !bucketIsDead now peers]
    rfl

end Operations

section Runs
variable {store : PeerStore} {calls : List (Nat × Call)} {now : Nat} {infoHash : InfoHash}

/-- The store after a run of calls. -/
def run (calls : List (Nat × Call)) : PeerStore := calls.foldl apply make

theorem run_concat (calls : List (Nat × Call)) (call : Nat × Call) : run (calls ++ [call]) = (run calls).apply call := by
  rw [run, List.foldl_append]
  rfl

theorem recentPeers_concat (calls : List (Nat × Call)) (call : Nat × Call) (infoHash : InfoHash) :
    recentPeers infoHash (calls ++ [call]) =
      (upserted infoHash call).elim (recentPeers infoHash calls)
        fun entry => touch entry.1 entry.2 (recentPeers infoHash calls) := by
  rw [recentPeers, List.reverse_append, List.reverse_singleton, List.singleton_append, List.filterMap_cons]
  cases upserted infoHash call with
  | none => rfl
  | some entry => exact latest_cons entry.1 entry.2 _

/-- Later upserts come first. -/
theorem recentPeers_sorted (ordered : (calls.map Prod.fst).Pairwise (· ≤ ·)) (infoHash : InfoHash) :
    (recentPeers infoHash calls).Pairwise fun a b => b.2 ≤ a.2 := by
  have time : ∀ call entry, upserted infoHash call = some entry → entry.2 = call.1 := by
    rintro ⟨now, call⟩ entry found
    cases call <;> grind [upserted]
  have sorted : (calls.reverse.filterMap (upserted infoHash)).Pairwise fun a b => b.2 ≤ a.2 := by
    refine List.Pairwise.filterMap _ ?_ (List.pairwise_reverse.mpr (List.pairwise_map.mp ordered))
    intro later earlier order entry found entry' found'
    rw [time _ _ found, time _ _ found']
    exact order
  exact sorted.sublist (latest_sublist _)

theorem alive_mono {at' : Nat} (order : at' ≤ now) {entry : PeerAddress × Nat} (dead : alive at' entry = false) :
    alive now entry = false := by
  simp only [alive, decide_eq_false_iff_not] at dead ⊢
  omega

theorem bucket_isSome_iff : (store.bucket infoHash).isSome ↔ infoHash ∈ store.buckets.contents.map Prod.fst := by
  rw [Option.isSome_iff_ne_none, ne_eq, bucket, find_eq_none, not_not]

/-- What a run of calls leaves behind: the most recent peers of each hash, less
some that are dead by then, in buckets of hashes that a call made. -/
structure Kept (calls : List (Nat × Call)) (store : PeerStore) : Prop where
  invariant : store.Invariant
  created : ∀ infoHash, (store.bucket infoHash).isSome → infoHash ∈ calls.filterMap (·.2.creates)
  recent : ∀ infoHash, ∃ stale, (recentPeers infoHash calls).take maxPeersPerHash = store.peersOf infoHash ++ stale ∧
    ∀ now, (∀ call ∈ calls, call.1 ≤ now) → ∀ entry ∈ stale, alive now entry = false

theorem kept_make : Kept [] make where
  invariant := ⟨LruCache.invariant_make _, rfl, fun _ _ member => nomatch member⟩
  created := fun _ some => nomatch some
  recent := fun _ => ⟨[], rfl, fun _ _ _ member => nomatch member⟩

/-- With few hashes a new bucket finds room. -/
theorem Kept.room (kept : Kept calls store) {hashes : List InfoHash} (few : hashes.length ≤ maxInfoHashes)
    (allowed : calls.filterMap (·.2.creates) ⊆ hashes) (next : infoHash ∈ hashes) :
    infoHash ∉ store.buckets.contents.map Prod.fst → store.buckets.contents.length < maxInfoHashes := by
  intro missing
  have distinct : (infoHash :: store.buckets.contents.map Prod.fst).Nodup :=
    List.nodup_cons.mpr ⟨missing, kept.invariant.keys⟩
  have within : infoHash :: store.buckets.contents.map Prod.fst ⊆ hashes := by
    intro other member
    rcases List.mem_cons.mp member with rfl | held
    · exact next
    · exact allowed (kept.created other (bucket_isSome_iff.mpr held))
  have count := (List.subperm_of_subset distinct within).length_le
  rw [List.length_cons, List.length_map] at count
  exact Nat.lt_of_lt_of_le count few

/-- A call that adds no peer and loses none that is alive. -/
theorem Kept.same (kept : Kept calls store) {after : PeerStore} {call : Nat × Call} (invariant : after.Invariant)
    (created : ∀ infoHash, (after.bucket infoHash).isSome →
      (store.bucket infoHash).isSome ∨ call.2.creates = some infoHash)
    (quiet : ∀ infoHash, recentPeers infoHash (calls ++ [call]) = recentPeers infoHash calls)
    (peers : ∀ infoHash, ∃ stale, store.peersOf infoHash = after.peersOf infoHash ++ stale ∧
      ∀ entry ∈ stale, alive call.1 entry = false) :
    Kept (calls ++ [call]) after where
  invariant := invariant
  created := fun infoHash some => by
    rw [List.filterMap_append, List.mem_append]
    rcases created infoHash some with held | made
    · exact Or.inl (kept.created infoHash held)
    · exact Or.inr (List.mem_filterMap.mpr ⟨call, List.mem_singleton_self call, made⟩)
  recent := fun infoHash => by
    obtain ⟨stale, whole, dead⟩ := kept.recent infoHash
    obtain ⟨lost, part, dead'⟩ := peers infoHash
    refine ⟨lost ++ stale, ?_, fun now past entry member => ?_⟩
    · rw [quiet, whole, part, List.append_assoc]
    · have before : ∀ call ∈ calls, call.1 ≤ now := fun call member => past call (List.mem_append_left _ member)
      have last : call.1 ≤ now := past call (List.mem_append_right _ (List.mem_singleton_self call))
      rcases List.mem_append.mp member with inLost | inStale
      · exact alive_mono last (dead' entry inLost)
      · exact dead now before entry inStale

theorem Kept.sorted (kept : Kept calls store) (ordered : (calls.map Prod.fst).Pairwise (· ≤ ·)) {peers : HashBucket}
    (held : store.bucket infoHash = some peers) : peers.contents.Pairwise fun a b => b.2 ≤ a.2 := by
  obtain ⟨stale, whole, _⟩ := kept.recent infoHash
  rw [peersOf, held] at whole
  have part : peers.contents.Sublist (recentPeers infoHash calls) :=
    (whole ▸ List.sublist_append_left peers.contents stale).trans (List.take_sublist _ _)
  exact (recentPeers_sorted ordered infoHash).sublist part

/-- In a bucket in the order of time the front decides. -/
theorem dead_of_bucketIsDead {peers : HashBucket} (dead : bucketIsDead now peers = true)
    (sorted : peers.contents.Pairwise fun a b => b.2 ≤ a.2) : ∀ entry ∈ peers.contents, alive now entry = false := by
  rw [LruCache.contents] at sorted ⊢
  unfold bucketIsDead at dead
  split at dead
  case h_1 empty =>
    rw [empty, List.map_nil]
    exact fun _ member => absurd member List.not_mem_nil
  case h_2 front rest items =>
    rw [items, List.map_cons] at sorted ⊢
    obtain ⟨older, _⟩ := List.pairwise_cons.mp sorted
    have frontDead : peerEntryTtl ≤ (now : Int) - front.value := of_decide_eq_true dead
    intro entry member
    have order : entry.2 ≤ front.value := by
      rcases List.mem_cons.mp member with same | later
      · rw [same]
      · exact older entry later
    simp only [alive, decide_eq_false_iff_not]
    omega

section Calls
variable (kept : Kept calls store)
include kept

theorem Kept.ensureBucket (now : Nat)
    (room : infoHash ∉ store.buckets.contents.map Prod.fst → store.buckets.contents.length < maxInfoHashes) :
    Kept (calls ++ [(now, .ensureBucket infoHash)]) (store.ensureBucket infoHash) := by
  obtain ⟨invariant, buckets⟩ := kept.invariant.ensureBucket room
  refine kept.same invariant (fun other held => ?_) (recentPeers_concat calls _)
    (fun other => ⟨[], ?_, fun _ member => nomatch member⟩)
  · by_cases same : other = infoHash
    · exact Or.inr (congrArg some same.symm)
    · rw [buckets, if_neg same] at held
      exact Or.inl held
  · rw [List.append_nil, peersOf, peersOf, buckets]
    by_cases same : other = infoHash
    · rw [if_pos same, same]
      cases store.bucket infoHash <;> rfl
    · rw [if_neg same]

theorem Kept.livePeers (now : Nat) (infoHash : InfoHash) :
    Kept (calls ++ [(now, .livePeers infoHash)]) (store.livePeers now infoHash).2 := by
  obtain ⟨_, invariant, buckets⟩ := kept.invariant.livePeers now infoHash
  refine kept.same invariant (fun other held => Or.inl ?_) (recentPeers_concat calls _)
    (fun other => ⟨[], ?_, fun _ member => nomatch member⟩)
  · rwa [buckets] at held
  · rw [List.append_nil, peersOf, peersOf, buckets]

theorem Kept.expireStale (ordered : (calls.map Prod.fst).Pairwise (· ≤ ·)) (now : Nat) :
    Kept (calls ++ [(now, .expireStale)]) (store.expireStale now) := by
  obtain ⟨invariant, buckets⟩ := kept.invariant.expireStale now
  refine kept.same invariant (fun other held => Or.inl ?_) (recentPeers_concat calls _) (fun other => ?_)
  · rw [buckets] at held
    obtain ⟨peers, found⟩ := Option.isSome_iff_exists.mp held
    rw [(Option.filter_eq_some_iff.mp found).1]
    rfl
  · simp only [peersOf, buckets]
    cases held : store.bucket other with
    | none => exact ⟨[], rfl, fun _ member => nomatch member⟩
    | some peers =>
      cases dead : bucketIsDead now peers with
      | false =>
        rw [Option.filter_some_pos (by rw [dead]; rfl)]
        exact ⟨[], (List.append_nil _).symm, fun _ member => nomatch member⟩
      | true =>
        rw [Option.filter_some_neg (by rw [dead]; rfl)]
        exact ⟨peers.contents, rfl, dead_of_bucketIsDead dead (kept.sorted ordered held)⟩

theorem Kept.upsert (now : Nat)
    (room : infoHash ∉ store.buckets.contents.map Prod.fst → store.buckets.contents.length < maxInfoHashes)
    (pa : PeerAddress) : Kept (calls ++ [(now, .upsert infoHash pa)]) (store.upsert now infoHash pa) := by
  obtain ⟨invariant, others, peers⟩ := kept.invariant.upsert room now pa
  refine ⟨invariant, fun other held => ?_, fun other => ?_⟩
  · rw [List.filterMap_append, List.mem_append]
    by_cases same : other = infoHash
    · exact Or.inr (List.mem_filterMap.mpr ⟨_, List.mem_singleton_self _, congrArg some same.symm⟩)
    · rw [others other same] at held
      exact Or.inl (kept.created other held)
  · obtain ⟨stale, whole, dead⟩ := kept.recent other
    have older : ∀ now', (∀ call ∈ calls ++ [(now, Call.upsert infoHash pa)], call.1 ≤ now') →
        ∀ entry ∈ stale, alive now' entry = false :=
      fun now' past => dead now' fun call member => past call (List.mem_append_left _ member)
    rw [recentPeers_concat, upserted]
    by_cases same : infoHash = other
    · subst same
      have distinct : ((recentPeers infoHash calls).map Prod.fst).Nodup := nodup_latest _
      rw [if_pos rfl, Option.elim_some, peers, take_touch pa now distinct, whole, touch_append, List.take_append]
      refine ⟨(without pa stale).take (maxPeersPerHash - (touch pa now (store.peersOf infoHash)).length), rfl, ?_⟩
      exact fun now' past entry member => older now' past entry (mem_without.mp (List.mem_of_mem_take member)).1
    · rw [if_neg same, Option.elim_none, peersOf, others other (Ne.symm same)]
      exact ⟨stale, whole, older⟩

/-- One call. -/
theorem Kept.step (call : Nat × Call) {hashes : List InfoHash}
    (few : hashes.length ≤ maxInfoHashes) (allowed : (calls ++ [call]).filterMap (·.2.creates) ⊆ hashes)
    (ordered : (calls.map Prod.fst).Pairwise (· ≤ ·)) : Kept (calls ++ [call]) (store.apply call) := by
  rw [List.filterMap_append] at allowed
  have before : calls.filterMap (·.2.creates) ⊆ hashes := fun _ member => allowed (List.mem_append_left _ member)
  have next : ∀ infoHash, call.2.creates = some infoHash → infoHash ∈ hashes := fun infoHash made =>
    allowed (List.mem_append_right _ (List.mem_filterMap.mpr ⟨call, List.mem_singleton_self call, made⟩))
  obtain ⟨now, call⟩ := call
  cases call with
  | ensureBucket infoHash => exact kept.ensureBucket now (kept.room few before (next infoHash rfl))
  | livePeers infoHash => exact kept.livePeers now infoHash
  | expireStale => exact kept.expireStale ordered now
  | upsert infoHash pa => exact kept.upsert now (kept.room few before (next infoHash rfl)) pa

end Calls

theorem kept_run {hashes : List InfoHash} (few : hashes.length ≤ maxInfoHashes)
    (allowed : calls.filterMap (·.2.creates) ⊆ hashes) (ordered : (calls.map Prod.fst).Pairwise (· ≤ ·)) :
    Kept calls (run calls) := by
  induction calls using List.reverseRecOn with
  | nil => exact kept_make
  | append_singleton calls call ih =>
    have before : calls.filterMap (·.2.creates) ⊆ hashes := by
      rw [List.filterMap_append] at allowed
      exact fun _ member => allowed (List.mem_append_left _ member)
    rw [List.map_append] at ordered
    have orderedBefore := (List.pairwise_append.mp ordered).1
    rw [run_concat]
    exact (ih before orderedBefore).step call few allowed orderedBefore

/-- The answer of `live_peers` after a run: of the most recent peers, those alive. -/
theorem Kept.answer (kept : Kept calls store) (past : ∀ call ∈ calls, call.1 ≤ now) (infoHash : InfoHash) :
    (store.livePeers now infoHash).1 =
      (((recentPeers infoHash calls).take maxPeersPerHash).filter (alive now)).map Prod.fst := by
  obtain ⟨stale, whole, dead⟩ := kept.recent infoHash
  have gone : stale.filter (alive now) = [] :=
    List.filter_eq_nil_iff.mpr fun entry member => by rw [dead now past entry member]; exact Bool.false_ne_true
  rw [(kept.invariant.livePeers now infoHash).1, whole, List.filter_append, gone, List.append_nil]

/-- What the store answers after any run at times that do not decrease, with
buckets for no more hashes than it has room for. -/
theorem livePeers_run (ordered : (calls.map Prod.fst).Pairwise (· ≤ ·))
    (few : (calls.filterMap (·.2.creates)).eraseDups.length ≤ maxInfoHashes) (past : ∀ call ∈ calls, call.1 ≤ now)
    (infoHash : InfoHash) :
    ((run calls).livePeers now infoHash).1 =
        (((recentPeers infoHash calls).take maxPeersPerHash).filter (alive now)).map Prod.fst ∧
      ((run calls).livePeers now infoHash).1.Nodup ∧
      (∀ before after at', calls = before ++ (at', .expireStale) :: after →
        ((run (before ++ after)).livePeers now infoHash).1 = ((run calls).livePeers now infoHash).1) ∧
      (((run calls).livePeers now infoHash).1 ≠ [] →
        ∃ peers, (run calls).bucket infoHash = some peers ∧ ((run calls).expireStale now).bucket infoHash = some peers) := by
  have allowed : calls.filterMap (·.2.creates) ⊆ (calls.filterMap (·.2.creates)).eraseDups :=
    fun _ member => List.mem_eraseDups.mpr member
  have kept := kept_run few allowed ordered
  have answer := kept.answer past infoHash
  refine ⟨answer, ?_, ?_, ?_⟩
  · rw [answer]
    exact (nodup_latest _).sublist ((List.filter_sublist.trans (List.take_sublist _ _)).map _)
  · rintro before after at' rfl
    have shorter : (before ++ after).Sublist (before ++ (at', .expireStale) :: after) :=
      (List.sublist_cons_self _ _).append_left before
    have kept' : Kept (before ++ after) (run (before ++ after)) :=
      kept_run few (fun _ member => allowed ((shorter.filterMap _).subset member)) (ordered.sublist (shorter.map _))
    have same : recentPeers infoHash (before ++ after) = recentPeers infoHash (before ++ (at', .expireStale) :: after) := by
      simp only [recentPeers, List.reverse_append, List.reverse_cons, List.filterMap_append, List.append_assoc]
      rfl
    rw [answer, kept'.answer (fun call member => past call (shorter.subset member)), same]
  · intro some
    obtain ⟨listed, _⟩ := kept.invariant.livePeers now infoHash
    rw [(kept.invariant.expireStale now).2]
    cases held : (run calls).bucket infoHash with
    | none =>
      rw [listed, peersOf, held] at some
      exact absurd rfl some
    | some peers =>
      refine ⟨peers, rfl, Option.filter_some_pos ?_⟩
      rw [Bool.not_eq_true']
      refine Bool.eq_false_iff.mpr fun dead => some ?_
      have allDead := dead_of_bucketIsDead dead (kept.sorted ordered held)
      rw [listed, peersOf, held, Option.map_some, Option.getD_some, List.map_eq_nil_iff, List.filter_eq_nil_iff]
      exact fun entry member => by rw [allDead entry member]; exact Bool.false_ne_true

/-- One peer is half an hour old when the store expires, the other is not. -/
theorem livePeers_run_two :
    let infoHash : InfoHash := ⟨List.replicate 20 7, rfl⟩
    let older : PeerAddress := ⟨[49], 1⟩
    let newer : PeerAddress := ⟨[50], 2⟩
    let calls := [(0, Call.upsert infoHash older), (1, Call.upsert infoHash newer), (peerEntryTtl, Call.expireStale)]
    ((run calls).livePeers peerEntryTtl infoHash).1 = [newer] :=
  (livePeers_run (by decide) (by decide) (by decide) _).1.trans (by decide)

end Runs

end PeerStore

end BittorrentClient.Dht
