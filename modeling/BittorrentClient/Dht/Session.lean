import BittorrentClient.Dht.DhtClient

namespace BittorrentClient.Dht
open Cpp Machine

/-- A message came in under an id from an address. -/
structure Heard where
  id : NodeId
  pa : PeerAddress
  time : Nat

/-- A client and its past: that of its rotator, what it heard, latest first,
and the time of its last reading of the clock. -/
structure Session where
  client : DhtClient
  tokens : Tokens
  heard : List Heard
  now : Nat

/-- A datagram is parsed and handled by the given time, or the maintenance loop
checks for a rotation. -/
inductive Happening
  | receive (data : Bencode.Metadata) (pa : PeerAddress) (parsed : Nat) (outside : Outside) (done : Nat)
  | rotate (now : Nat) (secret : Secret)

namespace DhtClient

variable {lib : Libraries} {c : DhtClient} {outside : Outside} {msg : Krpc.Message} {pa : PeerAddress}

/-- The routing table and the rotator are as they were. -/
def SameCore (c after : DhtClient) : Prop :=
  after.routingTable = c.routingTable ∧ after.tokenRotator = c.tokenRotator

theorem SameCore.trans {middle after : DhtClient} (first : c.SameCore middle) (later : middle.SameCore after) :
    c.SameCore after :=
  ⟨later.1.trans first.1, later.2.trans first.2⟩

theorem sendAnnounceRequests_core (requests : List AnnounceRequest) :
    c.SameCore (c.sendAnnounceRequests lib outside requests).2 := by
  induction requests generalizing c with
  | nil => exact ⟨rfl, rfl⟩
  | cons req rest ih =>
    unfold sendAnnounceRequests
    split
    · exact ih
    · exact SameCore.trans ⟨rfl, rfl⟩ ih

theorem storeValues_core (infoHash : InfoHash) (values : List Bytes) (reading : Nat) :
    c.SameCore (c.storeValues lib outside infoHash values reading).2 := by
  induction values generalizing c reading with
  | nil => exact ⟨rfl, rfl⟩
  | cons compact rest ih =>
    unfold storeValues
    split
    · exact ih reading
    · exact SameCore.trans ⟨rfl, rfl⟩ (ih (reading + 1))

theorem getPeers_core (infoHash : InfoHash) (reading : Nat) :
    c.SameCore (c.getPeers lib outside reading infoHash).2 := by
  unfold getPeers
  dsimp only
  split
  · exact ⟨rfl, rfl⟩
  · split
    · exact ⟨rfl, rfl⟩
    · exact ⟨rfl, rfl⟩

theorem lookUpPending_core (hashes : List InfoHash) (reading : Nat) :
    c.SameCore (c.lookUpPending lib outside hashes reading).2 := by
  induction hashes generalizing c reading with
  | nil => exact ⟨rfl, rfl⟩
  | cons hash rest ih =>
    unfold lookUpPending
    split
    · exact ih reading
    · exact (getPeers_core hash reading).trans (ih _)

theorem tryPendingInitialLookups_core (reading : Nat) :
    c.SameCore (c.tryPendingInitialLookups lib outside reading).2 := by
  unfold tryPendingInitialLookups
  split
  · exact ⟨rfl, rfl⟩
  · exact lookUpPending_core _ reading

theorem countLivePeers_core (completed : Bool) (infoHash : Option InfoHash) (now : Nat) :
    c.SameCore (if completed then infoHash.elim c (c.countLivePeers now) else c) := by
  cases completed with
  | false => exact ⟨rfl, rfl⟩
  | true =>
    cases infoHash with
    | none => exact ⟨rfl, rfl⟩
    | some hash => exact ⟨rfl, rfl⟩

theorem followUp_core (requests : List AnnounceRequest) (result : ResponseResult) (reading : Nat) :
    c.SameCore (c.followUp lib outside msg requests result reading).2 := by
  unfold followUp
  split
  case isTrue => exact sendAnnounceRequests_core requests
  case isFalse =>
    have storing : c.SameCore (result.infoHash.elim ([], c) (c.storeValues lib outside · msg.values reading)).2 := by
      cases result.infoHash with
      | none => exact ⟨rfl, rfl⟩
      | some infoHash => exact storeValues_core infoHash msg.values reading
    generalize result.infoHash.elim ([], c) (c.storeValues lib outside · msg.values reading) = stored at storing ⊢
    dsimp only
    refine SameCore.trans ?_ (tryPendingInitialLookups_core _)
    refine SameCore.trans ?_ (sendAnnounceRequests_core requests)
    exact storing.trans (countLivePeers_core _ _ _)

/-- Beyond the nodes that it lists, a response leaves table and rotator alone. -/
theorem onResponse_core : (c.addReported outside msg.nodes).SameCore (c.onResponse lib outside msg pa).2 := by
  unfold onResponse
  dsimp only
  refine SameCore.trans ?_ (followUp_core _ _ _)
  exact ⟨rfl, rfl⟩

/-- A query with a hash checks for a rotation first, and the table stays. -/
theorem onGetPeers_core :
    (c.onGetPeers lib outside msg pa).2.routingTable = c.routingTable ∧
      (c.onGetPeers lib outside msg pa).2.tokenRotator =
        msg.infoHash.elim c.tokenRotator fun _ => c.tokenRotator.rotateIfNeeded (outside.clock 2) outside.secret := by
  unfold onGetPeers
  cases msg.infoHash with
  | none => exact ⟨rfl, rfl⟩
  | some infoHash =>
    dsimp only
    split
    · exact ⟨rfl, rfl⟩
    · exact ⟨rfl, rfl⟩

theorem onAnnouncePeer_core :
    (c.onAnnouncePeer lib outside msg pa).2.routingTable = c.routingTable ∧
      (c.onAnnouncePeer lib outside msg pa).2.tokenRotator =
        msg.infoHash.elim c.tokenRotator fun _ => c.tokenRotator.rotateIfNeeded (outside.clock 2) outside.secret := by
  unfold onAnnouncePeer
  cases msg.infoHash with
  | none => exact ⟨rfl, rfl⟩
  | some infoHash =>
    dsimp only
    split
    · exact ⟨rfl, rfl⟩
    · exact ⟨rfl, rfl⟩

/-- Hearing from a node changes the routing table only. -/
theorem hearFrom_cases (c : DhtClient) (outside : Outside) (msg : Krpc.Message) (pa : PeerAddress) :
    ∃ table invariant, table.selfId = c.selfId ∧
      c.hearFrom outside msg pa = { c with routingTable := table, tableInvariant := invariant } := by
  unfold hearFrom
  split
  · refine ⟨_, c.tableInvariant.add _ _ _, ?_, rfl⟩
    exact c.routingTable.apply_selfId (.add _ _ _)
  · exact ⟨_, c.tableInvariant, rfl, rfl⟩

end DhtClient

namespace Session

variable (lib : Libraries)

/-- What a message means for the tokens: a query for peers draws one, an
announce shows one. -/
def follow (outside : Outside) (msg : Krpc.Message) (pa : PeerAddress) (tokens : Tokens) : Tokens :=
  match msg.type, msg.queryType, msg.infoHash with
  | .query, some .getPeers, some _ =>
    (tokens.rotate (outside.clock 2) outside.secret).issue lib.toTokenLibrary (outside.clock 2) pa.ip
  | .query, some .announcePeer, some _ => tokens.rotate (outside.clock 2) outside.secret
  | _, _, _ => tokens

/-- A message is handled. -/
def handle (s : Session) (msg : Krpc.Message) (pa : PeerAddress) (outside : Outside) (done : Nat) : Session where
  client := (s.client.handleMessage lib outside msg pa).2
  tokens := follow lib outside msg pa s.tokens
  heard := ⟨msg.senderId, pa, outside.clock 0⟩ :: s.heard
  now := done

def step (s : Session) : Happening → Option Session
  | .receive data pa parsed outside done =>
    match parseKrpc lib.inet parsed data with
    | none => some { s with now := done }
    | some msg => some (s.handle lib msg pa outside done)
  | .rotate now secret =>
    some { s with
      client := { s.client with tokenRotator := s.client.tokenRotator.rotateIfNeeded now secret }
      tokens := s.tokens.rotate now secret
      now := now }

end Session

end BittorrentClient.Dht
