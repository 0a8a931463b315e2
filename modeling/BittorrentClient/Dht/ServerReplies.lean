import BittorrentClient.Dht.KrpcRoundTrip
import BittorrentClient.Dht.Session

namespace BittorrentClient.Dht
open Cpp Krpc Bencode

/-- A text that whoever parses it takes for a response or an error with the
given transaction id. -/
def IsReply (inet : Inet) (txn : Txn) (bytes : Bytes) : Prop :=
  ∀ now, ∃ msg, Decodes inet now bytes msg ∧ (msg.type = .response ∨ msg.type = .error) ∧ msg.txn = txn

/-- The datagrams among the effects. -/
def datagrams (effects : List Effect) : List (Bytes × PeerAddress) :=
  effects.filterMap fun
    | .sendto msg pa => some (msg, pa)
    | .peerCallback _ _ => none

/-- One datagram leaves, a reply with the transaction id, for the address. -/
def RepliesTo (inet : Inet) (txn : Txn) (pa : PeerAddress) (effects : List Effect) : Prop :=
  ∃ bytes, datagrams effects = [(bytes, pa)] ∧ IsReply inet txn bytes

section Texts
variable {inet : Inet} {txn : Txn}

/-- Whatever stands in the inner dictionary of a response. -/
theorem isReply_responseDict {r : Bytes} {content : List (Bytes × BType)} (spelled : Spells r (.dict content)) :
    IsReply inet txn (responseDict txn r) := by
  intro now
  refine ⟨_, decodes_of_spells (spells_response spelled txn) rfl, Or.inl rfl, ?_⟩
  dsimp only
  split <;> rfl

theorem isReply_response (selfId : NodeId) : IsReply inet txn (makeResponse txn selfId) :=
  isReply_responseDict (spells_idDict selfId)

theorem isReply_nodesResponse (selfId : NodeId) (nodes : List RoutingEntry) :
    IsReply inet txn (makeNodesResponse inet txn selfId nodes) := by
  have ascend : List.Pairwise (· < ·) [text ['i', 'd'], text ['n', 'o', 'd', 'e', 's']] := by decide
  exact isReply_responseDict (spells_dict (.cons (entrySpelled (spells_string _))
    (.cons (entrySpelled (spells_string _)) .nil)) ascend)

theorem isReply_nodesResponseGp (selfId : NodeId) (token : Bytes) (nodes : List RoutingEntry) :
    IsReply inet txn (makeNodesResponseGp inet txn selfId token nodes) := by
  have ascend : List.Pairwise (· < ·) [text ['i', 'd'], text ['n', 'o', 'd', 'e', 's'],
      text ['t', 'o', 'k', 'e', 'n']] := by decide
  exact isReply_responseDict (spells_dict (.cons (entrySpelled (spells_string _))
    (.cons (entrySpelled (spells_string _)) (.cons (entrySpelled (spells_string _)) .nil))) ascend)

theorem isReply_peersResponse (selfId : NodeId) (token : Bytes) (pas : List PeerAddress) :
    IsReply inet txn (makePeersResponse inet txn selfId token pas) :=
  fun _ => ⟨_, decodes_peersResponse txn selfId token pas, Or.inl rfl, rfl⟩

theorem isReply_error (code : Int32) (msg : Bytes) : IsReply inet txn (makeError txn code msg) :=
  fun _ => ⟨_, decodes_error txn code msg, Or.inr rfl, rfl⟩

end Texts

section Parsed
variable {inet : Inet} {now : Nat} {base msg : Message} {root : List (Bytes × BType)}

/-- One of the four kinds, with a hash if the kind has one. -/
def Complete (msg : Message) : Prop :=
  msg.queryType = some .ping ∨ msg.queryType = some .findNode ∨
    ∃ infoHash, msg.infoHash = some infoHash ∧
      (msg.queryType = some .getPeers ∨ msg.queryType = some .announcePeer)

theorem readQuery_complete (read : readQuery base root = some msg) : Complete msg := by
  obtain ⟨a, _, read⟩ := Option.bind_eq_some_iff.mp read
  split at read
  case isTrue =>
    cases read
    exact Or.inl rfl
  split at read
  case isTrue =>
    cases read
    exact Or.inr (Or.inl rfl)
  split at read
  case isTrue =>
    obtain ⟨infoHash, _, read⟩ := Option.bind_eq_some_iff.mp read
    cases read
    exact Or.inr (Or.inr ⟨infoHash, rfl, Or.inl rfl⟩)
  split at read
  case isTrue =>
    obtain ⟨infoHash, _, read⟩ := Option.bind_eq_some_iff.mp read
    cases read
    exact Or.inr (Or.inr ⟨infoHash, rfl, Or.inr rfl⟩)
  case isFalse => cases read

theorem readResponse_type (read : readResponse inet now base root = some msg) : msg.type = .response := by
  obtain ⟨r, _, read⟩ := Option.bind_eq_some_iff.mp read
  cases read
  rfl

theorem readError_type : (readError base root).type = .error := by
  unfold readError
  split
  case h_2 => rfl
  case h_1 code text _ _ => cases code <;> cases text <;> rfl

theorem parseKrpc_query {data : Metadata} (parsed : parseKrpc inet now data = some msg) (query : msg.type = .query) :
    Complete msg := by
  unfold parseKrpc at parsed
  split at parsed
  case h_2 => cases parsed
  unfold readMessage at parsed
  dsimp only at parsed
  split at parsed
  case isTrue => exact readQuery_complete parsed
  split at parsed
  case isTrue => cases (readResponse_type parsed).symm.trans query
  split at parsed
  case isTrue =>
    cases parsed
    cases readError_type.symm.trans query
  case isFalse => cases parsed

end Parsed

namespace DhtClient

variable {lib : Libraries} {c : DhtClient} {msg : Message} {pa : PeerAddress} {outside : Outside}

/-- The socket is usable, the text of the address is one of IPv4, and the
kernel takes a datagram for it. -/
def CanSend (lib : Libraries) (c : DhtClient) (takes : PeerAddress → Bool) (pa : PeerAddress) : Prop :=
  c.socketOpen = true ∧ (lib.pton4 pa.ip).isSome = true ∧ takes pa = true

theorem datagrams_sendKrpc (lib : Libraries) (c : DhtClient) (takes : PeerAddress → Bool) (bytes : Bytes)
    (dest : PeerAddress) :
    (CanSend lib c takes dest ∧ datagrams (c.sendKrpc lib takes bytes dest) = [(bytes, dest)]) ∨
      (¬CanSend lib c takes dest ∧ datagrams (c.sendKrpc lib takes bytes dest) = []) := by
  unfold sendKrpc CanSend
  cases c.socketOpen with
  | false => exact Or.inr ⟨fun can => Bool.false_ne_true can.1, rfl⟩
  | true =>
    cases lib.pton4 dest.ip with
    | none => exact Or.inr ⟨fun can => Bool.false_ne_true can.2.1, rfl⟩
    | some addr =>
      cases taken : takes dest with
      | false => exact Or.inr ⟨fun can => Bool.false_ne_true can.2.2, rfl⟩
      | true => exact Or.inl ⟨⟨rfl, rfl, rfl⟩, rfl⟩

/-- A handler that sends one reply, to somebody with the address of the asker,
replies to the asker if it can send and the port is that of the asker. -/
theorem repliesTo_sendKrpc (c : DhtClient) (pa dest : PeerAddress) {takes : PeerAddress → Bool}
    {effects : List Effect} {bytes : Bytes} (sent : datagrams effects = datagrams (c.sendKrpc lib takes bytes dest))
    (sameIp : dest.ip = pa.ip) (reply : IsReply lib.inet msg.txn bytes) :
    RepliesTo lib.inet msg.txn pa effects ↔ CanSend lib c takes pa ∧ dest.port = pa.port := by
  have same : dest.port = pa.port → dest = pa := by
    intro samePort
    cases dest
    cases pa
    cases sameIp
    cases samePort
    rfl
  unfold RepliesTo
  rw [sent]
  rcases datagrams_sendKrpc lib c takes bytes dest with ⟨able, one⟩ | ⟨unable, none⟩
  · rw [one]
    constructor
    · rintro ⟨_, there, _⟩
      cases there
      exact ⟨able, rfl⟩
    · rintro ⟨_, samePort⟩
      exact ⟨bytes, by rw [same samePort], reply⟩
  · rw [none]
    constructor
    · rintro ⟨_, there, _⟩
      cases there
    · rintro ⟨able, samePort⟩
      rw [same samePort] at unable
      exact absurd able unable

theorem onPing_repliesTo : RepliesTo lib.inet msg.txn pa (c.onPing lib outside msg pa).1 ↔ CanSend lib c outside.takes pa :=
  (repliesTo_sendKrpc c pa pa rfl rfl (isReply_response c.selfId)).trans (and_iff_left rfl)

theorem onFindNode_repliesTo : RepliesTo lib.inet msg.txn pa (c.onFindNode lib outside msg pa).1 ↔ CanSend lib c outside.takes pa :=
  (repliesTo_sendKrpc c pa pa rfl rfl (isReply_nodesResponse c.selfId _)).trans (and_iff_left rfl)

theorem onGetPeers_repliesTo {infoHash : InfoHash} (named : msg.infoHash = some infoHash) :
    RepliesTo lib.inet msg.txn pa (c.onGetPeers lib outside msg pa).1 ↔ CanSend lib c outside.takes pa := by
  unfold onGetPeers
  rw [named]
  dsimp only
  split
  case isTrue =>
    exact (repliesTo_sendKrpc c pa pa rfl rfl (isReply_peersResponse _ _ _)).trans (and_iff_left rfl)
  case isFalse =>
    exact (repliesTo_sendKrpc c pa pa rfl rfl (isReply_nodesResponseGp _ _ _)).trans (and_iff_left rfl)

/-- The check of the token in `on_announce_peer`, after the rotation that may
come before it. -/
def acceptsToken (lib : Libraries) (c : DhtClient) (outside : Outside) (msg : Message) (pa : PeerAddress) : Bool :=
  (c.tokenRotator.rotateIfNeeded (outside.clock 2) outside.secret).verifyToken lib.toTokenLibrary (outside.clock 3)
    msg.token pa.ip

theorem datagrams_callback (c : DhtClient) (hex : Bytes) (dest : PeerAddress) (effects : List Effect) :
    datagrams (c.invokePeerCallback hex dest ++ effects) = datagrams effects := by
  unfold invokePeerCallback
  split
  · rfl
  · rfl

theorem onAnnouncePeer_repliesTo {infoHash : InfoHash} (named : msg.infoHash = some infoHash) :
    RepliesTo lib.inet msg.txn pa (c.onAnnouncePeer lib outside msg pa).1 ↔
      CanSend lib c outside.takes pa ∧
        ¬(c.acceptsToken lib outside msg pa = true ∧ msg.impliedPort = false ∧ msg.peerPort ≠ pa.port) := by
  unfold onAnnouncePeer
  rw [named]
  dsimp only
  cases accepted : c.acceptsToken lib outside msg pa with
  | false =>
    rw [acceptsToken] at accepted
    simp only [accepted, Bool.not_false, if_true, Bool.false_eq_true, false_and, not_false_eq_true, and_true]
    exact (repliesTo_sendKrpc c pa pa rfl rfl (isReply_error _ _)).trans (and_iff_left rfl)
  | true =>
    rw [acceptsToken] at accepted
    simp only [accepted, Bool.not_true, Bool.false_eq_true, if_false, true_and]
    cases implied : msg.impliedPort with
    | true =>
      refine (repliesTo_sendKrpc c pa pa (datagrams_callback _ _ _ _) rfl (isReply_response _)).trans ?_
      simp
    | false =>
      refine (repliesTo_sendKrpc c pa ⟨pa.ip, msg.peerPort⟩ (datagrams_callback _ _ _ _) rfl
        (isReply_response _)).trans ?_
      simp

/-- A reply goes to whoever asked, if the kernel takes it, unless an accepted
announce names a port other than the one it came from: the reply goes to that
port then. -/
theorem query_answered_iff {data : Metadata} {now : Nat} (parsed : parseKrpc lib.inet now data = some msg)
    (query : msg.type = .query) :
    RepliesTo lib.inet msg.txn pa (c.handleMessage lib outside msg pa).1 ↔
      CanSend lib c outside.takes pa ∧ ¬(msg.queryType = some .announcePeer ∧ c.acceptsToken lib outside msg pa = true ∧
        msg.impliedPort = false ∧ msg.peerPort ≠ pa.port) := by
  obtain ⟨table, invariant, _, heard⟩ := hearFrom_cases c outside msg pa
  unfold handleMessage
  rw [query, heard]
  rcases parseKrpc_query parsed query with ping | findNode | ⟨infoHash, named, getPeers | announce⟩
  · simp only [ping, onPing_repliesTo, Option.some.injEq, reduceCtorEq, false_and, not_false_eq_true, and_true]
    rfl
  · simp only [findNode, onFindNode_repliesTo, Option.some.injEq, reduceCtorEq, false_and, not_false_eq_true, and_true]
    rfl
  · simp only [getPeers, onGetPeers_repliesTo named, Option.some.injEq, reduceCtorEq, false_and, not_false_eq_true,
      and_true]
    rfl
  · simp only [announce, onAnnouncePeer_repliesTo named, true_and]
    rfl

/-- A new client, its rotator made at the epoch. -/
def fresh (selfId : NodeId) (secret : Secret) : DhtClient where
  socketOpen := true
  hasPeerCallback := false
  routingTable := .init selfId
  tableInvariant := RoutingTable.invariant_init selfId
  lookupManager := .init
  peerStore := .make
  tokenRotator := .make TokenSecretRotator.defaultRotationInterval secret 0
  announceCoordinator := .make
  announced := 0

def loopbackLibraries : Libraries := { Tokens.loopbackLibrary with inet := decimalQuads, sort := .insertion }

def loopback : Bytes := text ['1', '2', '7', '.', '0', '.', '0', '.', '1']

/-- The clock stands at the given time, and every datagram is taken. -/
def stillOutside (now : Nat) (secret : Secret) : Outside :=
  ⟨fun _ => now, secret, fun _ => (0, 0), fun _ => (0, 0), fun _ => true⟩

def nodeOf (byte : UInt8) : NodeId := (sampleNode byte 6881).id

def loopbackHash : InfoHash := ⟨5 :: List.replicate 19 5, rfl⟩

/-- An announce of port 6881 with the token that the fresh client gives to the
loopback address. -/
def loopbackAnnounce (impliedPort : Bool) : Message :=
  { type := .query, txn := text ['a', 'a'], queryType := some .announcePeer, senderId := nodeOf 7,
    infoHash := some loopbackHash, peerPort := 6881,
    token := TokenSecretRotator.computeToken Tokens.loopbackLibrary (Tokens.secretOf 1).bytes loopback,
    impliedPort := impliedPort }

theorem loopbackAnnounce_parsed (impliedPort : Bool) :
    ∃ data, parseKrpc loopbackLibraries.inet 0 data = some (loopbackAnnounce impliedPort) := by
  refine ⟨⟨makeAnnouncePeer (text ['a', 'a']) (nodeOf 7) loopbackHash 6881 (loopbackAnnounce true).token
    impliedPort, ?_⟩, decodes_announcePeer _ _ _ _ _ _ _ rfl⟩
  cases impliedPort <;> decide +kernel

theorem query_answered_implied_port :
    RepliesTo loopbackLibraries.inet (text ['a', 'a']) ⟨loopback, 5000⟩
      ((fresh (nodeOf 9) (Tokens.secretOf 1)).handleMessage loopbackLibraries (stillOutside 0 (Tokens.secretOf 2))
        (loopbackAnnounce true) ⟨loopback, 5000⟩).1 := by
  obtain ⟨data, parsed⟩ := loopbackAnnounce_parsed true
  refine (query_answered_iff parsed rfl).mpr ⟨⟨rfl, rfl, rfl⟩, ?_⟩
  rintro ⟨_, _, explicit, _⟩
  cases explicit

/-- The announce comes from port 5000, and the answer goes to port 6881. -/
theorem query_answered_elsewhere :
    (∃ data, parseKrpc loopbackLibraries.inet 0 data = some (loopbackAnnounce false)) ∧
      (loopbackAnnounce false).type = .query ∧
      CanSend loopbackLibraries (fresh (nodeOf 9) (Tokens.secretOf 1)) (fun _ => true) ⟨loopback, 5000⟩ ∧
      ¬RepliesTo loopbackLibraries.inet (loopbackAnnounce false).txn ⟨loopback, 5000⟩
        ((fresh (nodeOf 9) (Tokens.secretOf 1)).handleMessage loopbackLibraries (stillOutside 0 (Tokens.secretOf 2))
          (loopbackAnnounce false) ⟨loopback, 5000⟩).1 := by
  refine ⟨loopbackAnnounce_parsed false, rfl, ⟨rfl, rfl, rfl⟩, ?_⟩
  have sent : datagrams ((fresh (nodeOf 9) (Tokens.secretOf 1)).handleMessage loopbackLibraries
      (stillOutside 0 (Tokens.secretOf 2)) (loopbackAnnounce false) ⟨loopback, 5000⟩).1 =
      [(makeResponse (text ['a', 'a']) (nodeOf 9), ⟨loopback, 6881⟩)] := by decide +kernel
  rintro ⟨bytes, there, _⟩
  rw [sent] at there
  cases there

end DhtClient

end BittorrentClient.Dht
