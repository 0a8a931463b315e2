import BittorrentClient.Dht.BucketGeometry
import BittorrentClient.Dht.RunningClient

namespace BittorrentClient.Dht.Running
open Cpp Machine
open DhtClient (datagrams_sendKrpc)

/-- The own id stays, and so does what was sent and what is on record. -/
structure Steady (s s' : Running) : Prop where
  selfId : s'.client.selfId = s.client.selfId
  sent : s.outbox <+: s'.outbox
  consulted : s.consulted <+: s'.consulted

theorem Steady.refl (s : Running) : Steady s s := ⟨rfl, List.prefix_refl _, List.prefix_refl _⟩

theorem Steady.trans {s middle s' : Running} (first : Steady s middle) (later : Steady middle s') : Steady s s' :=
  ⟨later.selfId.trans first.selfId, first.sent.trans later.sent, first.consulted.trans later.consulted⟩

/-- What the other threads do: they leave the cursor alone, the socket stays open, the
kernel takes the datagrams for the addresses that are in reach, and the same buckets are
stale. -/
structure Quiet (inReach : PeerAddress → Prop) (buckets : List Nat) (s : Running) (now : Moment) (s' : Running) :
    Prop where
  steady : Steady s s'
  cursor : s'.refreshBucketCursor = s.refreshBucketCursor
  socket : s'.client.socketOpen = true
  takes : ∀ pa, inReach pa → now.takes pa = true
  stale : s'.client.routingTable.bucketsNeedingRefresh (now.clock 0) bucketMaxAge = buckets

variable (lib : Libraries) (inReach : PeerAddress → Prop)

/-- Since the state `origin` the nodes in reach were asked for the target. -/
def Queried (origin : Running) (target : NodeId) (nodes : List RoutingEntry) (s : Running) : Prop :=
  ∀ node ∈ nodes, (lib.pton4 node.pa.ip).isSome = true → inReach node.pa →
    ∃ txn, (makeFindNode txn s.client.selfId target, node.pa) ∈ s.outbox.drop origin.outbox.length

/-- Since the state `origin` a refresh drew a random id of the bucket and asked the nodes
closest to it, in the routing table at that time, for the nodes near it. -/
def Asked (origin s : Running) (bucket : Nat) : Prop :=
  ∃ target t, (target, t) ∈ s.consulted.drop origin.consulted.length ∧
    RoutingTable.bucketIndex s.client.selfId target = bucket ∧
    Queried lib inReach origin target ((t.closest lib.sort target RoutingTable.K).take 3) s

variable {lib inReach} {buckets : List Nat} {origin s s' : Running}

theorem Queried.later {target : NodeId} {nodes : List RoutingEntry} (steady : Steady s s')
    (queried : Queried lib inReach origin target nodes s) : Queried lib inReach origin target nodes s' := by
  intro node member reachable there
  obtain ⟨txn, sent⟩ := queried node member reachable there
  rw [steady.selfId]
  exact ⟨txn, (steady.sent.drop _).subset sent⟩

theorem Asked.later {bucket : Nat} (steady : Steady s s') (asked : Asked lib inReach origin s bucket) :
    Asked lib inReach origin s' bucket := by
  obtain ⟨target, t, recorded, inside, queried⟩ := asked
  exact ⟨target, t, (steady.consulted.drop _).subset recorded, by rw [steady.selfId]; exact inside,
    queried.later steady⟩

/-- A query goes out under some id. -/
theorem ensures_sendQuery (make : Txn → NodeId → Bytes) (pa : PeerAddress) (old : Steady origin s) :
    (sendQuery lib make pa).Ensures (Quiet inReach buckets) (fun _ s' => Steady s s' ∧
      ((lib.pton4 pa.ip).isSome = true → inReach pa →
        ∃ txn, (make txn s'.client.selfId, pa) ∈ s'.outbox.drop origin.outbox.length)) s := by
  have drawing : (Script.atomically fun now s => ([(now.txn s.client.announced).1, (now.txn s.client.announced).2],
      { s with client := { s.client with announced := s.client.announced + 1 } })).Ensures (Quiet inReach buckets)
      (fun (_ : Txn) s' => Steady s s') s := by
    intro now s₁ before
    exact ⟨before.steady.selfId, before.steady.sent, before.steady.consulted⟩
  refine drawing.bind fun txn s₁ first now s₂ between => ?_
  have since := old.trans (first.trans between.steady)
  refine ⟨first.trans (between.steady.trans ⟨rfl, List.prefix_append _ _, List.prefix_refl _⟩),
    fun reachable there => ⟨txn, ?_⟩⟩
  change _ ∈ (s₂.outbox ++ _).drop origin.outbox.length
  rw [List.drop_append_of_le_length since.sent.length_le]
  refine List.mem_append_right _ ?_
  rcases datagrams_sendKrpc lib s₂.client now.takes (make txn s₂.client.selfId) pa with ⟨_, goes⟩ | ⟨cannot, _⟩
  · rw [goes]
    exact List.mem_singleton_self _
  · exact absurd ⟨between.socket, reachable, between.takes pa there⟩ cannot

theorem ensures_queries (target : NodeId) (nodes : List RoutingEntry) (old : Steady origin s) :
    (nodes.forM fun node => sendQuery lib (makeFindNode · · target) node.pa).Ensures (Quiet inReach buckets)
      (fun _ s' => Steady s s' ∧ Queried lib inReach origin target nodes s') s := by
  have start : Steady s s ∧ Queried lib inReach origin target [] s := by
    refine ⟨.refl s, ?_⟩
    intro node member
    cases member
  refine Script.ensures_forM (I := fun done s' => Steady s s' ∧ Queried lib inReach origin target done s') nodes []
    start ?_
  · intro done node _ s₁ there
    refine (ensures_sendQuery (makeFindNode · · target) node.pa (old.trans there.1)).imp fun _ s₂ last => ?_
    refine ⟨there.1.trans last.1, fun other member => ?_⟩
    rcases List.mem_append.mp member with older | new
    · exact there.2.later last.1 other older
    · rw [List.mem_singleton.mp new]
      exact last.2

/-- A refresh of a bucket asks the nodes near a random id that lies in it. -/
theorem ensures_refreshBucket {bucket : Nat} (inside : bucket < RoutingTable.numBuckets) (old : Steady origin s) :
    (refreshBucket lib bucket).Ensures (Quiet inReach buckets)
      (fun _ s' => Steady s s' ∧ Asked lib inReach origin s' bucket) s := by
  have choosing : (locked fun now c => (RoutingTable.randomIdInBucket c.selfId bucket now.bits, c)).Ensures
      (Quiet inReach buckets)
      (fun target s' => Steady s s' ∧ RoutingTable.bucketIndex s'.client.selfId target = bucket) s := by
    intro now s₁ before
    refine ⟨before.steady, ?_⟩
    change RoutingTable.bucketIndex s₁.client.selfId (RoutingTable.randomIdInBucket s₁.client.selfId bucket now.bits) = bucket
    rw [RoutingTable.bucketIndex_of_first (RoutingTable.first_randomId now.bits inside)]
    simp only [RoutingTable.numBuckets] at inside ⊢
    omega
  refine choosing.bind fun target s₁ chosen => ?_
  have consulting : (Script.atomically fun _ s => (s.client.routingTable.closest lib.sort target RoutingTable.K,
      { s with consulted := s.consulted ++ [(target, s.client.routingTable)] })).Ensures (Quiet inReach buckets)
      (fun closest s' => Steady s s' ∧ RoutingTable.bucketIndex s'.client.selfId target = bucket ∧
        ∃ t, (target, t) ∈ s'.consulted.drop origin.consulted.length ∧
          closest = t.closest lib.sort target RoutingTable.K) s₁ := by
    intro now s₂ before
    have since := old.trans (chosen.1.trans before.steady)
    refine ⟨chosen.1.trans (before.steady.trans ⟨rfl, List.prefix_refl _, List.prefix_append _ _⟩), ?_,
      s₂.client.routingTable, ?_, rfl⟩
    · exact (congrArg (RoutingTable.bucketIndex · target) before.steady.selfId).trans chosen.2
    · change _ ∈ (s₂.consulted ++ _).drop origin.consulted.length
      rw [List.drop_append_of_le_length since.consulted.length_le]
      exact List.mem_append_right _ (List.mem_singleton_self _)
  refine consulting.bind fun closest s₂ near => ?_
  obtain ⟨first, located, t, recorded, rfl⟩ := near
  refine (ensures_queries target _ (old.trans first)).imp fun _ s₃ last => ?_
  refine ⟨first.trans last.1, target, t, (last.1.consulted.drop _).subset recorded, ?_, last.2⟩
  rw [last.1.selfId]
  exact located

theorem lt_of_stale {t : RoutingTable} {now maxAge bucket : Nat} (stale : bucket ∈ t.bucketsNeedingRefresh now maxAge) :
    bucket < RoutingTable.numBuckets :=
  List.mem_range.mp (List.mem_filter.mp stale).1

theorem ensures_refreshes (chosen : Nat → Nat) {count : Nat} (small : ∀ i < count, chosen i < RoutingTable.numBuckets)
    (old : Steady origin s) :
    ((List.range count).forM fun i => refreshBucket lib (chosen i)).Ensures (Quiet inReach buckets)
      (fun _ s' => Steady s s' ∧ ∀ i < count, Asked lib inReach origin s' (chosen i)) s := by
  have start : Steady s s ∧ ∀ i ∈ ([] : List Nat), Asked lib inReach origin s (chosen i) := ⟨.refl s, List.forall_mem_nil _⟩
  have looped : ((List.range count).forM fun i => refreshBucket lib (chosen i)).Ensures (Quiet inReach buckets)
      (fun _ s' => Steady s s' ∧ ∀ i ∈ List.range count, Asked lib inReach origin s' (chosen i)) s := by
    refine Script.ensures_forM (I := fun done s' => Steady s s' ∧ ∀ i ∈ done, Asked lib inReach origin s' (chosen i)) _ [] start ?_
    intro done i inRange s₁ there
    refine (ensures_refreshBucket (small i (List.mem_range.mp inRange)) (old.trans there.1)).imp fun _ s₂ last => ?_
    refine ⟨there.1.trans last.1, fun other member => ?_⟩
    rcases List.mem_append.mp member with older | new
    · exact (there.2 other older).later last.1
    · rw [List.mem_singleton.mp new]
      exact last.2
  exact looped.imp fun _ s' ending => ⟨ending.1, fun i below => ending.2 i (List.mem_range.mpr below)⟩

/-- A round asks three of the buckets, from the cursor on, and moves the cursor behind
them. -/
theorem ensures_refreshBuckets (old : Steady origin s) :
    (refreshBuckets lib).Ensures (Quiet inReach buckets) (fun _ s' => Steady s s' ∧ (buckets ≠ [] →
      s'.refreshBucketCursor = (s.refreshBucketCursor % buckets.length + min 3 buckets.length) % buckets.length ∧
      ∀ i < min 3 buckets.length,
        Asked lib inReach origin s' (buckets.getD ((s.refreshBucketCursor % buckets.length + i) % buckets.length) 0))) s := by
  have reading : (Script.atomically fun now s =>
      ((s.client.routingTable.bucketsNeedingRefresh (now.clock 0) bucketMaxAge, s.refreshBucketCursor), s)).Ensures
      (Quiet inReach buckets) (fun read s' => Steady s s' ∧ read = (buckets, s.refreshBucketCursor) ∧
        ∀ bucket ∈ buckets, bucket < RoutingTable.numBuckets) s := by
    intro now s₁ before
    refine ⟨before.steady, Prod.ext before.stale before.cursor, fun bucket member => ?_⟩
    rw [← before.stale] at member
    exact lt_of_stale member
  refine reading.bind fun read s₁ known => ?_
  obtain ⟨first, rfl, small⟩ := known
  dsimp only
  split
  case isTrue none => exact ⟨first, fun some => absurd (List.isEmpty_iff.mp none) some⟩
  case isFalse some =>
    have positive : 0 < buckets.length := List.length_pos_of_ne_nil fun none => some (List.isEmpty_iff.mpr none)
    have inside : ∀ i < min maxBucketsRefreshPerTick buckets.length,
        buckets.getD ((s.refreshBucketCursor % buckets.length + i) % buckets.length) 0 < RoutingTable.numBuckets := by
      intro i _
      have place := Nat.mod_lt (s.refreshBucketCursor % buckets.length + i) positive
      rw [List.getD_eq_getElem _ _ place]
      exact small _ (List.getElem_mem place)
    refine (ensures_refreshes _ inside (old.trans first)).bind fun _ s₂ asked now s₃ between => ?_
    refine ⟨first.trans (asked.1.trans ⟨between.steady.selfId, between.steady.sent, between.steady.consulted⟩), fun _ => ⟨rfl, fun i below => ?_⟩⟩
    exact (asked.2 i below).later ⟨between.steady.selfId, between.steady.sent, between.steady.consulted⟩

/-- From any place on, one comes to each other within a turn. -/
theorem exists_turn {n p : Nat} (start : Nat) (inside : p < n) : ∃ i < n, (start + i) % n = p := by
  have positive : 0 < n := Nat.lt_of_le_of_lt (Nat.zero_le p) inside
  have below := Nat.mod_lt start positive
  have whole := Nat.div_add_mod start n
  by_cases behind : start % n ≤ p
  · refine ⟨p - start % n, by omega, ?_⟩
    have same : start + (p - start % n) = n * (start / n) + p := by omega
    rw [same, Nat.mul_add_mod, Nat.mod_eq_of_lt inside]
  · refine ⟨p + n - start % n, by omega, ?_⟩
    have same : start + (p + n - start % n) = n * (start / n + 1) + p := by
      rw [Nat.mul_add, Nat.mul_one]
      omega
    rw [same, Nat.mul_add_mod, Nat.mod_eq_of_lt inside]

/-- What a number of rounds come to. -/
theorem ensures_rounds (rounds : Nat) (old : Steady origin s) (some : buckets ≠ []) :
    ((List.range rounds).forM fun _ => refreshBuckets lib).Ensures (Quiet inReach buckets) (fun _ s' =>
      ∀ i < rounds * min 3 buckets.length,
        Asked lib inReach origin s' (buckets.getD ((s.refreshBucketCursor + i) % buckets.length) 0)) s := by
  have start : Steady s s ∧
      s.refreshBucketCursor % buckets.length =
        (s.refreshBucketCursor + ([] : List Nat).length * min 3 buckets.length) % buckets.length ∧
      ∀ i < ([] : List Nat).length * min 3 buckets.length,
        Asked lib inReach origin s (buckets.getD ((s.refreshBucketCursor + i) % buckets.length) 0) := by
    refine ⟨.refl s, by rw [List.length_nil, Nat.zero_mul, Nat.add_zero], fun i below => ?_⟩
    rw [List.length_nil, Nat.zero_mul] at below
    exact absurd below (Nat.not_lt_zero i)
  have looped : ((List.range rounds).forM fun _ => refreshBuckets lib).Ensures (Quiet inReach buckets) (fun _ s' =>
      Steady s s' ∧ s'.refreshBucketCursor % buckets.length =
        (s.refreshBucketCursor + (List.range rounds).length * min 3 buckets.length) % buckets.length ∧
      ∀ i < (List.range rounds).length * min 3 buckets.length,
        Asked lib inReach origin s' (buckets.getD ((s.refreshBucketCursor + i) % buckets.length) 0)) s := by
    refine Script.ensures_forM (I := fun done s' => Steady s s' ∧ s'.refreshBucketCursor % buckets.length =
        (s.refreshBucketCursor + done.length * min 3 buckets.length) % buckets.length ∧
      ∀ i < done.length * min 3 buckets.length,
        Asked lib inReach origin s' (buckets.getD ((s.refreshBucketCursor + i) % buckets.length) 0)) _ [] start ?_
    intro done round _ s₁ there
    refine (ensures_refreshBuckets (old.trans there.1)).imp fun _ s₂ last => ?_
    obtain ⟨moved, asked⟩ := last.2 some
    have more : (done ++ [round]).length * min 3 buckets.length =
        done.length * min 3 buckets.length + min 3 buckets.length := by
      rw [List.length_append, List.length_singleton, Nat.add_mul, Nat.one_mul]
    refine ⟨there.1.trans last.1, ?_, fun i below => ?_⟩
    · rw [moved, Nat.mod_mod, there.2.1, Nat.mod_add_mod, more, Nat.add_assoc]
    · rw [more] at below
      by_cases older : i < done.length * min 3 buckets.length
      · exact (there.2.2 i older).later last.1
      · have now := asked (i - done.length * min 3 buckets.length) (by omega)
        rw [there.2.1, Nat.mod_add_mod, Nat.add_assoc, Nat.add_sub_cancel' (Nat.le_of_not_lt older)] at now
        exact now
  refine looped.imp fun _ s' ending i below => ending.2.2 i ?_
  rw [List.length_range]
  exact below

/-- While the same buckets are stale, a third as many rounds as there are buckets ask in
each of them, whatever the other threads do in between. -/
theorem stale_buckets_are_asked (lib : Libraries) (inReach : PeerAddress → Prop) (buckets : List Nat) (s : Running)
    {rounds : Nat} (enough : buckets.length ≤ 3 * rounds) :
    ((List.range rounds).forM fun _ => refreshBuckets lib).Ensures (Quiet inReach buckets)
      (fun _ s' => ∀ bucket ∈ buckets, Asked lib inReach s s' bucket) s := by
  by_cases none : buckets = []
  · refine Script.ensures_of_forall fun _ s' bucket member => ?_
    rw [none] at member
    cases member
  · refine (ensures_rounds rounds (.refl s) none).imp fun _ s' asked bucket member => ?_
    obtain ⟨p, inside, rfl⟩ := List.getElem_of_mem member
    obtain ⟨i, turn, place⟩ := exists_turn s.refreshBucketCursor inside
    have all : buckets.length ≤ rounds * min 3 buckets.length := by
      rcases Nat.le_total buckets.length 3 with few | many
      · rw [Nat.min_eq_right few]
        exact Nat.le_mul_of_pos_left _ (by omega)
      · rw [Nat.min_eq_left many]
        omega
    have there := asked i (Nat.lt_of_lt_of_le turn all)
    rw [place, List.getD_eq_getElem _ _ inside] at there
    exact there

section Acquainted
open DhtClient

/-- A client that has known a node for twenty minutes. -/
def acquaintance : Running where
  client := (fresh (nodeOf 9) (Tokens.secretOf 1)).addEntry 0 ⟨⟨nodeOf 7, ⟨loopback, 5000⟩⟩, 0⟩ true
  bootstrapOnStart := false
  lastBootstrapAttempt := 0
  lastLookupTick := 0
  refreshBucketCursor := 0
  outbox := []
  reports := []
  offers := []
  heard := []
  strangers := []
  consulted := []

def twentyMinutesLater : Moment :=
  moment (stillOutside (20 * 60 * 10 ^ 9) (Tokens.secretOf 2)) 0 (fun _ => (0, 0)) acquaintance.client

theorem acquaintance_stale :
    acquaintance.client.routingTable.bucketsNeedingRefresh (twentyMinutesLater.clock 0) bucketMaxAge = List.range 160 := by
  decide +kernel

theorem acquaintance_quiet : Quiet (fun _ => True) (List.range 160) acquaintance twentyMinutesLater acquaintance :=
  ⟨.refl _, rfl, rfl, fun _ _ => rfl, acquaintance_stale⟩

theorem stale_buckets_are_asked_acquainted :
    (∃ now, Quiet (fun _ => True) (List.range 160) acquaintance now acquaintance) ∧
    ((List.range 54).forM fun _ => refreshBuckets loopbackLibraries).Ensures (Quiet (fun _ => True) (List.range 160))
      (fun _ s' => ∀ bucket ∈ List.range 160, Asked loopbackLibraries (fun _ => True) acquaintance s' bucket)
      acquaintance := by
  have enough : (List.range 160).length ≤ 3 * 54 := by
    rw [List.length_range]
    decide
  exact ⟨⟨twentyMinutesLater, acquaintance_quiet⟩, stale_buckets_are_asked loopbackLibraries _ _ acquaintance enough⟩

end Acquainted

end BittorrentClient.Dht.Running
