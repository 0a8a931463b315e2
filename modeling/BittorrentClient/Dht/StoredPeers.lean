import BittorrentClient.Dht.LivePeers

namespace BittorrentClient.Dht.PeerStore
open Cpp Recency

/-- The peer is in the bucket of the hash. -/
def Holds (store : PeerStore) (infoHash : InfoHash) (pa : PeerAddress) : Prop :=
  ∃ peers, (infoHash, peers) ∈ store.buckets.contents ∧ pa ∈ peers.contents.map Prod.fst

variable {store : PeerStore} {infoHash other : InfoHash} {pa peer : PeerAddress} {now : Nat}

theorem not_holds_make : ¬make.Holds infoHash pa := by
  rintro ⟨peers, member, _⟩
  cases member

theorem Invariant.holds_iff (inv : store.Invariant) :
    store.Holds infoHash pa ↔ pa ∈ (store.peersOf infoHash).map Prod.fst := by
  constructor
  · rintro ⟨peers, member, there⟩
    rw [peersOf, bucket, find_of_mem inv.keys member]
    exact there
  · intro there
    rw [peersOf] at there
    cases held : store.bucket infoHash with
    | none =>
      rw [held] at there
      cases there
    | some peers =>
      rw [held] at there
      exact ⟨peers, mem_of_find held, there⟩

theorem Invariant.livePeers_held (inv : store.Invariant) (member : pa ∈ (store.livePeers now infoHash).1) :
    store.Holds infoHash pa := by
  rw [(inv.livePeers now infoHash).1] at member
  rw [inv.holds_iff]
  exact ((List.filter_sublist).map Prod.fst).subset member

theorem Invariant.holds_livePeers (inv : store.Invariant)
    (holds : (store.livePeers now infoHash).2.Holds other peer) : store.Holds other peer := by
  obtain ⟨_, kept, same⟩ := inv.livePeers now infoHash
  rw [kept.holds_iff, peersOf, same] at holds
  exact inv.holds_iff.mpr holds

theorem Invariant.holds_expireStale (inv : store.Invariant) (holds : (store.expireStale now).Holds other peer) :
    store.Holds other peer := by
  obtain ⟨kept, same⟩ := inv.expireStale now
  rw [kept.holds_iff, peersOf, same] at holds
  rw [inv.holds_iff, peersOf]
  cases held : store.bucket other with
  | none =>
    rw [held] at holds
    cases holds
  | some peers =>
    rw [held, Option.filter_some] at holds
    split at holds
    · exact holds
    · cases holds

/-- A put of a bucket for the hash: the others are there from before. -/
theorem Invariant.opened_among (inv : store.Invariant) (infoHash : InfoHash) :
    ∃ it buckets, (store.buckets.get infoHash = (some it, buckets) ∨ store.buckets.get infoHash = (none, store.buckets) ∧
        store.buckets.put infoHash (.make maxPeersPerHash) = (it, buckets)) ∧
      (⟨buckets⟩ : PeerStore).Invariant ∧ buckets.Points it infoHash ∧
      ∀ other peers, (other, peers) ∈ buckets.contents →
        (other, peers) ∈ store.buckets.contents ∨ peers = .make maxPeersPerHash := by
  rcases inv.lru.get_cases infoHash with ⟨missing, got⟩ | ⟨it, peers, member, got, kept, points, moved⟩
  · obtain ⟨kept, put, points, capacity⟩ := inv.lru.put (by rw [inv.capacity]; decide) infoHash (.make maxPeersPerHash)
    rcases made : store.buckets.put infoHash (.make maxPeersPerHash) with ⟨it, buckets⟩
    rw [made] at kept put points capacity
    have among : ∀ other peers, (other, peers) ∈ buckets.contents →
        (other, peers) ∈ store.buckets.contents ∨ peers = .make maxPeersPerHash := by
      intro other peers inBuckets
      rw [put] at inBuckets
      rcases List.mem_cons.mp (List.mem_of_mem_take inBuckets) with same | older
      · cases same
        exact Or.inr rfl
      · exact Or.inl (mem_without.mp older).1
    refine ⟨it, buckets, Or.inr ⟨got, rfl⟩, ⟨kept, capacity.trans inv.capacity, fun other held inBuckets => ?_⟩, points, among⟩
    rcases among other held inBuckets with older | rfl
    · exact inv.inner other held older
    · exact ⟨LruCache.invariant_make _, rfl⟩
  · refine ⟨it, store.buckets.splice it, Or.inl got, (inv.touched member kept rfl moved).1, points, ?_⟩
    intro other held inBuckets
    rw [moved] at inBuckets
    rcases List.mem_cons.mp inBuckets with same | older
    · cases same
      exact Or.inl member
    · exact Or.inl (mem_without.mp older).1

theorem Invariant.holds_ensureBucket (inv : store.Invariant) :
    (store.ensureBucket infoHash).Invariant ∧
      ∀ other peer, (store.ensureBucket infoHash).Holds other peer → store.Holds other peer := by
  obtain ⟨it, buckets, found, kept, _, among⟩ := inv.opened_among infoHash
  have ensured : store.ensureBucket infoHash = ⟨buckets⟩ := by
    rcases found with got | ⟨got, put⟩
    · simp only [PeerStore.ensureBucket, got]
    · simp only [PeerStore.ensureBucket, got, put]
  rw [ensured]
  refine ⟨kept, ?_⟩
  rintro other peer ⟨peers, member, there⟩
  rcases among other peers member with older | rfl
  · exact ⟨peers, older, there⟩
  · cases there

/-- `upsert` brings in nothing but its peer, for its hash. -/
theorem Invariant.holds_upsert (inv : store.Invariant) (infoHash : InfoHash) (now : Nat) (pa : PeerAddress) :
    (store.upsert now infoHash pa).Invariant ∧ ∀ other peer, (store.upsert now infoHash pa).Holds other peer →
      store.Holds other peer ∨ other = infoHash ∧ peer = pa := by
  obtain ⟨it, buckets, found, kept, points, among⟩ := inv.opened_among infoHash
  have updated : store.upsert now infoHash pa = ⟨buckets.modifyAt it fun peers => (peers.put pa now).2⟩ := by
    rcases found with got | ⟨got, put⟩
    · simp only [PeerStore.upsert, got]
    · simp only [PeerStore.upsert, got, put]
  have written := kept.lru.contents_modifyAt points fun peers => (peers.put pa now).2
  rw [updated]
  refine ⟨⟨kept.lru.modifyAt it fun peers => (peers.put pa now).2, kept.capacity, fun other held inBuckets => ?_⟩, ?_⟩
  · rw [written] at inBuckets
    obtain ⟨⟨name, old⟩, inOld, changed⟩ := List.mem_map.mp inBuckets
    obtain ⟨oldInv, oldCapacity⟩ := kept.inner name old inOld
    split at changed
    · cases changed
      obtain ⟨after, _, _, capacity⟩ := oldInv.put (by rw [oldCapacity]; decide) pa now
      exact ⟨after, capacity.trans oldCapacity⟩
    · cases changed
      exact ⟨oldInv, oldCapacity⟩
  · rintro other peer ⟨peers, member, there⟩
    rw [written] at member
    obtain ⟨⟨name, old⟩, inOld, changed⟩ := List.mem_map.mp member
    have before : peer ∈ old.contents.map Prod.fst → store.Holds name peer := by
      intro inPeers
      rcases among name old inOld with older | rfl
      · exact ⟨old, older, inPeers⟩
      · cases inPeers
    split at changed
    case isTrue same =>
      cases changed
      obtain ⟨oldInv, oldCapacity⟩ := kept.inner name old inOld
      rw [(oldInv.put (by rw [oldCapacity]; decide) pa now).2.1] at there
      obtain ⟨entry, inTouched, rfl⟩ := List.mem_map.mp there
      rcases List.mem_cons.mp (List.mem_of_mem_take inTouched) with rfl | older
      · exact Or.inr ⟨same, rfl⟩
      · exact Or.inl (before (List.mem_map_of_mem (mem_without.mp older).1))
    case isFalse =>
      cases changed
      exact Or.inl (before there)

end BittorrentClient.Dht.PeerStore
