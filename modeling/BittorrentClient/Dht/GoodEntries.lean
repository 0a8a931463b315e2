import BittorrentClient.Dht.ServerReplies

namespace BittorrentClient.Dht
open Cpp Machine Krpc

namespace RoutingTable

variable {t : RoutingTable} {now : Nat} {entry : RoutingEntry}

/-- `add` refuses the id, or finds the bucket full of other nodes that are all
good. -/
def TurnsAway (t : RoutingTable) (now : Nat) (entry : RoutingEntry) : Prop :=
  entry.id = t.selfId ∨ entry.id = .zero ∨
    (findInBucket (t.buckets (bucketIndex t.selfId entry.id)) entry.id = none ∧
      K ≤ (t.buckets (bucketIndex t.selfId entry.id)).size ∧
      ((t.buckets (bucketIndex t.selfId entry.id)).cell
        (leastRecentlySeen (t.buckets (bucketIndex t.selfId entry.id)))).isGood now = true)

theorem TurnsAway.all_add (away : t.TurnsAway now entry) (countAsReceived : Bool) :
    (t.add now entry countAsReceived).all = t.all := by
  rcases add_cases t now entry countAsReceived with unchanged | ⟨named, received, changed⟩
  · rw [unchanged]
  obtain ⟨missing, full, good⟩ := (away.resolve_left named.1).resolve_left named.2
  have kept : addToBucket now entry (t.buckets (bucketIndex t.selfId entry.id)) =
      t.buckets (bucketIndex t.selfId entry.id) := by
    simp only [addToBucket, missing, if_neg (Nat.not_lt.mpr full), good, Bool.not_true, Bool.false_eq_true, if_false]
  rw [changed]
  simp only [all, modifyBucket, kept, Function.update_eq_self]

end RoutingTable

namespace DhtClient
open RoutingTable

variable {c : DhtClient}

theorem addEntry_selfId (now : Nat) (entry : RoutingEntry) (countAsReceived : Bool) :
    (c.addEntry now entry countAsReceived).selfId = c.selfId :=
  c.routingTable.apply_selfId (.add now entry countAsReceived)

theorem loadPersistedRoutingTable_selfId (clock : Nat → Nat) (nodes : List Node) :
    (c.loadPersistedRoutingTable clock nodes).selfId = c.selfId := by
  refine List.foldlRecOn (motive := fun after : DhtClient => after.selfId = c.selfId) _ _ rfl ?_
  intro middle same node _
  exact (addEntry_selfId _ _ _).trans same

/-- Loading puts in nodes of the file, last seen at the epoch. -/
theorem mem_loadPersistedRoutingTable {clock : Nat → Nat} {nodes : List Node} {stored : RoutingEntry}
    (member : stored ∈ (c.loadPersistedRoutingTable clock nodes).routingTable.all) :
    (stored.lastSeen = 0 ∧ ∃ node ∈ nodes, node.id ≠ c.selfId ∧ node.id ≠ .zero) ∨ stored ∈ c.routingTable.all := by
  revert stored
  refine (List.foldlRecOn (motive := fun after : DhtClient => after.selfId = c.selfId ∧
    ∀ {stored}, stored ∈ after.routingTable.all →
      (stored.lastSeen = 0 ∧ ∃ node ∈ nodes, node.id ≠ c.selfId ∧ node.id ≠ .zero) ∨ stored ∈ c.routingTable.all)
    nodes.zipIdx _ ⟨rfl, Or.inr⟩ ?_).2
  rintro middle ⟨same, held⟩ node listed
  refine ⟨(addEntry_selfId _ _ _).trans same, ?_⟩
  intro stored member
  rcases middle.tableInvariant.mem_all_add member with ⟨rfl, named⟩ | earlier
  · have inFile : node.1 ∈ nodes := (List.mem_zipIdx listed).2.2 ▸ List.getElem_mem _
    exact Or.inl ⟨rfl, node.1, inFile, same ▸ named.1, named.2⟩
  · exact held earlier

section Handlers
variable {lib : Libraries} {outside : Outside} {msg : Message} {pa : PeerAddress}

/-- The table changes when we hear from a node, and by the nodes that a response
lists. -/
theorem handleMessage_routingTable :
    (c.handleMessage lib outside msg pa).2.routingTable =
      if msg.type = .response then ((c.hearFrom outside msg pa).addReported outside msg.nodes).routingTable
      else (c.hearFrom outside msg pa).routingTable := by
  unfold handleMessage
  cases type : msg.type with
  | response => exact onResponse_core.1
  | error => rfl
  | query =>
    cases asked : msg.queryType with
    | none => rfl
    | some kind =>
      cases kind with
      | ping => rfl
      | findNode => rfl
      | getPeers => exact onGetPeers_core.1
      | announcePeer => exact onAnnouncePeer_core.1

end Handlers

end DhtClient

/-- A message came from the node itself, no earlier than the entry says. -/
def HeardFrom (heard : List Heard) (entry : RoutingEntry) : Prop :=
  ∃ h ∈ heard, h.id = entry.id ∧ h.pa = entry.pa ∧ entry.lastSeen ≤ h.time

/-- Each node that a response lists is turned away by the table, as it is when
the node comes up, or has been heard from since. -/
def Vouched (heard : List Heard) (clock : Nat → Nat) : RoutingTable → List (RoutingEntry × Nat) → Prop
  | _, [] => True
  | t, node :: rest => (t.TurnsAway (clock (2 + node.2)) node.1 ∨ HeardFrom heard node.1) ∧
      Vouched heard clock (t.add (clock (2 + node.2)) node.1 true) rest

/-- What holds of the entries of the table and of every node heard from holds
of the entries after the nodes of a response were added. -/
theorem DhtClient.addReported_all {P : RoutingEntry → Prop} {heard : List Heard} {c : DhtClient} {outside : Outside}
    {nodes : List RoutingEntry} (vouched : Vouched heard outside.clock c.routingTable nodes.zipIdx)
    (before : ∀ entry ∈ c.routingTable.all, P entry) (direct : ∀ entry, HeardFrom heard entry → P entry) :
    ∀ entry ∈ (c.addReported outside nodes).routingTable.all, P entry := by
  have adding : ∀ (numbered : List (RoutingEntry × Nat)) (c : DhtClient),
      Vouched heard outside.clock c.routingTable numbered → (∀ entry ∈ c.routingTable.all, P entry) →
      ∀ entry ∈ (numbered.foldl (fun c node => c.addEntry (outside.clock (2 + node.2)) node.1 true) c).routingTable.all,
        P entry := by
    intro numbered
    induction numbered with
    | nil => exact fun c _ before => before
    | cons node rest ih =>
      rintro c ⟨first, later⟩ before
      refine ih _ later fun entry member => ?_
      rcases first with away | heardFrom
      · exact before entry (away.all_add true ▸ member)
      · rcases c.tableInvariant.mem_all_add member with ⟨rfl, _⟩ | old
        · exact direct _ heardFrom
        · exact before entry old
  exact adding nodes.zipIdx c vouched before

namespace Session
open RoutingTable

variable {lib : Libraries} {s s' : Session}

/-- A client whose empty table has been filled from a file with these nodes. -/
def Loaded (nodes : List Node) (s : Session) : Prop :=
  ∃ (client : DhtClient) (clock : Nat → Nat) (tokens : Tokens) (now : Nat),
    client.routingTable = .init client.selfId ∧ s = ⟨client.loadPersistedRoutingTable clock nodes, tokens, [], now⟩

/-- The steady clock is 15 minutes past its epoch, or the file had nothing to
offer. -/
def LoadedLate (s : Session) : Prop :=
  ∃ nodes, s.Loaded nodes ∧
    (nodeGoodTimeout ≤ s.now ∨ ∀ node ∈ nodes, node.id = s.client.selfId ∨ node.id = .zero)

/-- The clock does not go back. -/
def Ordered (s : Session) : Happening → Prop
  | .receive _ _ _ outside done => s.now ≤ outside.clock 0 ∧ outside.clock 0 ≤ done
  | .rotate now _ => s.now ≤ now

/-- A response lists no node for whom only the sender of the response vouches. -/
def Direct (lib : Libraries) (s : Session) : Happening → Prop
  | .receive data pa parsed outside _ => ∀ msg, parseKrpc lib.inet parsed data = some msg → msg.type = .response →
      Vouched (⟨msg.senderId, pa, outside.clock 0⟩ :: s.heard) outside.clock
        (s.client.hearFrom outside msg pa).routingTable msg.nodes.zipIdx
  | .rotate _ _ => True

/-- The entries that count as good at a time were heard from in the 15 minutes
before it. -/
def GoodHeard (s : Session) (now : Nat) : Prop :=
  ∀ entry ∈ s.client.goodRoutingEntries now,
    ∃ h ∈ s.heard, h.id = entry.id ∧ h.pa = entry.pa ∧ h.time ≤ now ∧ now < h.time + nodeGoodTimeout

/-- Where each entry comes from: a message of the node, or the file, 15 minutes
past the epoch. -/
structure Sourced (s : Session) : Prop where
  past : ∀ h ∈ s.heard, h.time ≤ s.now
  entries : ∀ entry ∈ s.client.routingTable.all,
    HeardFrom s.heard entry ∨ (entry.lastSeen = 0 ∧ nodeGoodTimeout ≤ s.now)

theorem loaded_sourced (late : s.LoadedLate) : s.Sourced := by
  obtain ⟨nodes, ⟨client, clock, tokens, now, empty, rfl⟩, condition⟩ := late
  refine ⟨nofun, ?_⟩
  intro entry member
  rcases DhtClient.mem_loadPersistedRoutingTable member with ⟨epoch, node, inFile, named⟩ | old
  · refine Or.inr ⟨epoch, condition.resolve_right fun refused => ?_⟩
    rcases refused node inFile with self | zero
    · exact named.1 (self.trans (DhtClient.loadPersistedRoutingTable_selfId clock nodes))
    · exact named.2 zero
  · rw [empty] at old
    obtain ⟨b, _, stored⟩ := mem_all.mp old
    exact absurd stored (by simp [RoutingTable.init, Slots.toList])

/-- An entry that is good was seen in the last 15 minutes. -/
theorem Sourced.goodHeard (sourced : s.Sourced) {now : Nat} (later : s.now ≤ now) : s.GoodHeard now := by
  intro entry counted
  obtain ⟨stored, good⟩ := List.mem_filter.mp counted
  have age : (now : Int) - entry.lastSeen < nodeGoodTimeout := by simpa [RoutingEntry.isGood] using good
  rcases sourced.entries entry stored with ⟨h, member, id, pa, seen⟩ | ⟨epoch, past⟩
  · have before := (sourced.past h member).trans later
    exact ⟨h, member, id, pa, before, by omega⟩
  · rw [epoch] at age
    omega

/-- Time passes, and the table stays as it is. -/
theorem Sourced.later (sourced : s.Sourced) {now : Nat} (later : s.now ≤ now) {client : DhtClient}
    (table : client.routingTable = s.client.routingTable) (tokens : Tokens) :
    Sourced ⟨client, tokens, s.heard, now⟩ := by
  refine ⟨fun h known => (sourced.past h known).trans later, ?_⟩
  intro entry member
  rw [table] at member
  rcases sourced.entries entry member with direct | ⟨epoch, cold⟩
  · exact Or.inl direct
  · exact Or.inr ⟨epoch, cold.trans later⟩

theorem Sourced.hearFrom (sourced : s.Sourced) (outside : Outside) (msg : Message) (pa : PeerAddress) {done : Nat}
    (later : s.now ≤ done) :
    ∀ entry ∈ (s.client.hearFrom outside msg pa).routingTable.all,
      HeardFrom (⟨msg.senderId, pa, outside.clock 0⟩ :: s.heard) entry ∨
        (entry.lastSeen = 0 ∧ nodeGoodTimeout ≤ done) := by
  have old : ∀ entry ∈ s.client.routingTable.all,
      HeardFrom (⟨msg.senderId, pa, outside.clock 0⟩ :: s.heard) entry ∨
        (entry.lastSeen = 0 ∧ nodeGoodTimeout ≤ done) := by
    intro entry member
    rcases sourced.entries entry member with ⟨h, known, same⟩ | ⟨epoch, cold⟩
    · exact Or.inl ⟨h, List.mem_cons_of_mem _ known, same⟩
    · exact Or.inr ⟨epoch, cold.trans later⟩
  unfold DhtClient.hearFrom
  split
  case isFalse => exact old
  case isTrue =>
    intro entry member
    rcases s.client.tableInvariant.mem_all_add member with ⟨rfl, _⟩ | earlier
    · exact Or.inl ⟨_, List.mem_cons_self, rfl, rfl, Nat.le_refl _⟩
    · exact old entry earlier

theorem Sourced.handle (sourced : s.Sourced) {outside : Outside} {msg : Message} {pa : PeerAddress} {done : Nat}
    (ordered : s.now ≤ outside.clock 0 ∧ outside.clock 0 ≤ done)
    (direct : msg.type = .response → Vouched (⟨msg.senderId, pa, outside.clock 0⟩ :: s.heard) outside.clock
      (s.client.hearFrom outside msg pa).routingTable msg.nodes.zipIdx) :
    (s.handle lib msg pa outside done).Sourced := by
  have heard := sourced.hearFrom outside msg pa (ordered.1.trans ordered.2)
  refine ⟨?_, ?_⟩
  · intro h member
    rcases List.mem_cons.mp member with rfl | old
    · exact ordered.2
    · exact (sourced.past h old).trans (ordered.1.trans ordered.2)
  · intro entry member
    simp only [Session.handle, DhtClient.handleMessage_routingTable] at member
    split at member
    case isFalse => exact heard entry member
    case isTrue response =>
      exact DhtClient.addReported_all (direct response) heard (fun _ known => Or.inl known) entry member

theorem step_sourced {happening : Happening} (sourced : s.Sourced) (ordered : s.Ordered happening)
    (direct : s.Direct lib happening) (run : s.step lib happening = some s') : s'.Sourced := by
  cases happening with
  | receive data pa parsed outside done =>
    simp only [step] at run
    split at run
    case h_1 =>
      cases run
      exact sourced.later (ordered.1.trans ordered.2) rfl s.tokens
    case h_2 msg read =>
      cases run
      exact sourced.handle ordered (direct msg read)
  | rotate now secret =>
    cases run
    refine sourced.later ordered ?_ (s.tokens.rotate now secret)
    rfl

/-- An entry is good only if the node was heard from in the last 15 minutes, in
every run that loads its table 15 minutes past the epoch of the clock and in
which no response brings in a node that was not heard from itself. -/
theorem good_entries_heard_from
    (reach : Reach LoadedLate (step lib) (fun s happening => s.Ordered happening ∧ s.Direct lib happening) s) :
    ∀ now, s.now ≤ now → s.GoodHeard now := by
  have sourced : s.Sourced := by
    refine reach.invariant (P := Sourced) (fun s late => loaded_sourced late) ?_
    rintro before after happening sourced ⟨ordered, direct⟩ run
    exact step_sourced sourced ordered direct run
  exact fun now later => sourced.goodHeard later

section Loopback
open DhtClient

/-- A client that loaded the given nodes. -/
def loadedAt (now : Nat) (nodes : List Node) : Session :=
  ⟨(fresh (nodeOf 9) (Tokens.secretOf 1)).loadPersistedRoutingTable (fun _ => now) nodes, .start (Tokens.secretOf 1) 0,
    [], now⟩

def loopbackNode (byte : UInt8) : Node := ⟨nodeOf byte, ⟨loopback, 6881⟩⟩

/-- Twenty minutes. -/
def late : Nat := 20 * 60 * 10 ^ 9

theorem loadedAt_loaded (now : Nat) (nodes : List Node) : (loadedAt now nodes).Loaded nodes :=
  ⟨fresh (nodeOf 9) (Tokens.secretOf 1), fun _ => now, .start (Tokens.secretOf 1) 0, now, rfl, rfl⟩

/-- A node of the file sends a ping. -/
def pinged : Session :=
  (loadedAt late [loopbackNode 3]).handle loopbackLibraries
    { type := .query, txn := text ['a', 'a'], queryType := some .ping, senderId := nodeOf 3 }
    ⟨loopback, 6881⟩ (stillOutside late (Tokens.secretOf 2)) late

theorem good_entries_heard_from_ping :
    pinged.client.countGoodRoutingEntries late = 1 ∧ pinged.GoodHeard late := by
  let data : Bencode.Metadata := ⟨makePing (text ['a', 'a']) (nodeOf 3), by decide +kernel⟩
  have parsed : parseKrpc loopbackLibraries.inet late data = some _ := decodes_ping _ _ data rfl
  have run : (loadedAt late [loopbackNode 3]).step loopbackLibraries
      (.receive data ⟨loopback, 6881⟩ late (stillOutside late (Tokens.secretOf 2)) late) = some pinged := by
    simp only [step, parsed]
    rfl
  have direct : (loadedAt late [loopbackNode 3]).Direct loopbackLibraries
      (.receive data ⟨loopback, 6881⟩ late (stillOutside late (Tokens.secretOf 2)) late) := by
    intro msg read response
    rw [parsed] at read
    cases read
    cases response
  have initial : (loadedAt late [loopbackNode 3]).LoadedLate := ⟨_, loadedAt_loaded late _, Or.inl (by decide)⟩
  refine ⟨by decide +kernel, good_entries_heard_from (.next (.start initial) ⟨?_, direct⟩ run) late (Nat.le_refl _)⟩
  exact ⟨Nat.le_refl _, Nat.le_refl _⟩

/-- A node tells us of another one. -/
def told : Session :=
  (loadedAt late []).handle loopbackLibraries
    { type := .response, txn := text ['a', 'a'], senderId := nodeOf 7, nodes := [⟨(sampleNode 3 6881).toNode, late⟩],
      nodeCounts := [1] }
    ⟨loopback, 6881⟩ (stillOutside late (Tokens.secretOf 2)) late

/-- Entries that are good although nobody was heard from: a node of the file,
early on the clock, and a node that another one has named. -/
theorem good_entries_not_heard_from :
    (∃ s, Reach (fun s => ∃ nodes, s.Loaded nodes) (step loopbackLibraries) Ordered s ∧ ¬s.GoodHeard s.now ∧
      s.heard = []) ∧
    ∃ s, Reach (fun s => ∃ nodes, s.Loaded nodes) (step loopbackLibraries) Ordered s ∧ ¬s.GoodHeard s.now ∧
      nodeGoodTimeout ≤ s.now := by
  refine ⟨⟨loadedAt 1 [loopbackNode 3], .start ⟨_, loadedAt_loaded 1 _⟩, ?_, rfl⟩, told, ?_, ?_, by decide⟩
  · intro heard
    have counted : (⟨loopbackNode 3, 0⟩ : RoutingEntry) ∈
        (loadedAt 1 [loopbackNode 3]).client.goodRoutingEntries 1 := by decide +kernel
    obtain ⟨h, member, _⟩ := heard _ counted
    cases member
  · let data : Bencode.Metadata :=
      ⟨makeNodesResponse decimalQuads (text ['a', 'a']) (nodeOf 7) [sampleNode 3 6881], by decide +kernel⟩
    have canonical : ∀ node ∈ [sampleNode 3 6881], decimalQuads.Canonical node.pa.ip :=
      List.forall_mem_singleton.mpr rfl
    have parsed : parseKrpc loopbackLibraries.inet late data = some _ := decodes_nodesResponse _ _ canonical data rfl
    have run : (loadedAt late []).step loopbackLibraries
        (.receive data ⟨loopback, 6881⟩ late (stillOutside late (Tokens.secretOf 2)) late) = some told := by
      simp only [step, parsed]
      rfl
    have ordered : (loadedAt late []).Ordered
        (.receive data ⟨loopback, 6881⟩ late (stillOutside late (Tokens.secretOf 2)) late) :=
      ⟨Nat.le_refl _, Nat.le_refl _⟩
    exact .next (.start ⟨_, loadedAt_loaded late []⟩) ordered run
  · intro heard
    have counted : (⟨(sampleNode 3 6881).toNode, late⟩ : RoutingEntry) ∈ told.client.goodRoutingEntries late := by
      decide +kernel
    obtain ⟨h, member, id, _⟩ := heard _ counted
    rcases List.mem_cons.mp member with rfl | nobody
    · revert id
      decide
    · cases nobody

end Loopback

end Session

end BittorrentClient.Dht
