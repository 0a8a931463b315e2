import BittorrentClient.Dht.NodeId
import BittorrentClient.Library.ByteOrder
import BittorrentClient.Trackers.HttpAnnounce

namespace BittorrentClient
open Cpp

/-- Four numbers with points between them. -/
def dottedQuad (a b c d : UInt8) : Bytes :=
  toStringUnsigned a.toNat ++ 46 :: (toStringUnsigned b.toNat ++ 46 ::
    (toStringUnsigned c.toNat ++ 46 :: toStringUnsigned d.toNat))

namespace UdpTracker

/-- The exceptions of an exchange, with the values their texts carry. -/
inductive UdpError
  | connectionTooShort
  | announceTooShort
  | trackerError (message : Bytes)
  | unexpectedAction (action : Nat)
  | connectTimedOut
  | announceTimedOut
  deriving DecidableEq

def maxRetransmissions : Nat := 8

/-- `ConnectionReq::serialize`. -/
def connectionReq (transactionId : UInt32) : Bytes :=
  writeBe64 0x41727101980 ++ writeBe32 0 ++ writeBe32 transactionId.toNat

structure ConnectionResp where
  action : Nat
  transactionId : Nat
  connectionId : Nat

/-- `none` is a read outside the datagram. -/
def ConnectionResp.deserialize (data : Bytes) : Option (Except UdpError ConnectionResp) :=
  if data.length < 16 then some (.error .connectionTooShort)
  else do
    let action ← be32At data 0
    let transactionId ← be32At data 4
    let connectionId ← be64At data 8
    return .ok ⟨action, transactionId, connectionId⟩

/-- What an announce is about. -/
structure Announce where
  infoHash : InfoHash
  peerId : PeerId
  downloaded : UInt64
  left : UInt64
  uploaded : UInt64
  event : UInt32
  port : UInt16

/-- `AnnounceReq::serialize`. The address is 0 and `num_want` is -1. -/
def announceReq (a : Announce) (connectionId : Nat) (transactionId key : UInt32) : Bytes :=
  writeBe64 connectionId ++ writeBe32 1 ++ writeBe32 transactionId.toNat ++ a.infoHash.bytes ++ a.peerId.bytes ++
    writeBe64 a.downloaded.toNat ++ writeBe64 a.left.toNat ++ writeBe64 a.uploaded.toNat ++ writeBe32 a.event.toNat ++
    writeBe32 0 ++ writeBe32 key.toNat ++ writeBe32 (2 ^ 32 - 1) ++ writeBe16 a.port

structure AnnounceResp where
  action : Nat
  transactionId : Nat
  interval : Nat
  leechers : Nat
  seeders : Nat
  peers : List PeerAddress

/-- One entry of the peer list; `ntop` is `inet_ntop` of an IPv6 address. -/
def peerAt (ntop : Bytes → Bytes) (isIpv6 : Bool) (data : Bytes) (offset : Nat) : Option PeerAddress :=
  if isIpv6 then do
    let port ← be16At data (offset + 16)
    return ⟨ntop ((data.drop offset).take 16), port⟩
  else do
    let a ← data[offset]?
    let b ← data[offset + 1]?
    let c ← data[offset + 2]?
    let d ← data[offset + 3]?
    let port ← be16At data (offset + 4)
    return ⟨dottedQuad a b c d, port⟩

def stride (isIpv6 : Bool) : Nat := if isIpv6 then 18 else 6

/-- The loop of `AnnounceResp::deserialize`. -/
def readPeers (ntop : Bytes → Bytes) (isIpv6 : Bool) (data : Bytes) : Option (List PeerAddress) :=
  (List.range ((data.length - 20) / stride isIpv6)).mapM fun k => peerAt ntop isIpv6 data (20 + k * stride isIpv6)

def AnnounceResp.deserialize (ntop : Bytes → Bytes) (isIpv6 : Bool) (data : Bytes) : Option (Except UdpError AnnounceResp) :=
  if data.length < 20 then some (.error .announceTooShort)
  else do
    let action ← be32At data 0
    let transactionId ← be32At data 4
    let interval ← be32At data 8
    let leechers ← be32At data 12
    let seeders ← be32At data 16
    let peers ← readPeers ntop isIpv6 data
    return .ok ⟨action, transactionId, interval, leechers, seeders, peers⟩

/-- What comes of one attempt: nothing, so that there is another one, an exception, a read
outside the datagram, or the response. -/
inductive Verdict (α : Type)
  | retry
  | throws (error : UdpError)
  | outside
  | accepts (response : α)

/-- What an attempt receives. -/
inductive Event
  | timeout
  | datagram (data : Bytes)

/-- The error branch, whose message begins at the ninth byte. -/
def errorVerdict {α : Type} (data : Bytes) : Verdict α :=
  if data.length < 8 then .outside else .throws (.trackerError (data.drop 8))

/-- The body of the connect loop behind `sendto`. -/
def judgeConnect (transactionId : UInt32) : Event → Verdict Nat
  | .timeout => .retry
  | .datagram data =>
    if data.length < 4 then .retry
    else if readBe32 data 0 = 3 then errorVerdict data
    else if data.length < 16 then .retry
    else
      match ConnectionResp.deserialize data with
      | none => .outside
      | some (.error error) => .throws error
      | some (.ok response) =>
        if response.transactionId ≠ transactionId.toNat then .retry
        else if response.action ≠ 0 then .throws (.unexpectedAction response.action)
        else .accepts response.connectionId

/-- The body of the announce loop behind `sendto`. -/
def judgeAnnounce (ntop : Bytes → Bytes) (isIpv6 : Bool) (transactionId : UInt32) : Event → Verdict (List PeerAddress)
  | .timeout => .retry
  | .datagram data =>
    if data.length < 4 then .retry
    else if readBe32 data 0 = 3 then errorVerdict data
    else if data.length < 20 then .retry
    else
      match AnnounceResp.deserialize ntop isIpv6 data with
      | none => .outside
      | some (.error error) => .throws error
      | some (.ok response) =>
        if response.transactionId ≠ transactionId.toNat then .retry
        else if response.action ≠ 1 then .throws (.unexpectedAction response.action)
        else .accepts response.peers

/-- A loop over the attempts that are left. It ends with the number of events used. -/
def attempts {α : Type} (judge : Event → Verdict α) (events : Nat → Event) : (left used : Nat) → Nat × Verdict α
  | 0, used => (used, .retry)
  | left + 1, used =>
    match judge (events used) with
    | .retry => attempts judge events left (used + 1)
    | verdict => (used + 1, verdict)

/-- How an exchange ends. -/
inductive Result
  | peers (peers : List PeerAddress)
  | throws (error : UdpError)
  | outside

/-- The numbers that `random_transaction_id` draws. -/
structure Drawn where
  connect : UInt32
  announce : UInt32
  key : UInt32

/-- The exchange, with the messages sent, for given bodies of the two loops. -/
def exchangeWith (a : Announce) (drawn : Drawn) (connect : Event → Verdict Nat) (announce : Event → Verdict (List PeerAddress))
    (events : Nat → Event) : List Bytes × Result :=
  let (used, verdict) := attempts connect events (maxRetransmissions + 1) 0
  let sent := List.replicate used (connectionReq drawn.connect)
  match verdict with
  | .retry => (sent, .throws .connectTimedOut)
  | .throws error => (sent, .throws error)
  | .outside => (sent, .outside)
  | .accepts connectionId =>
    let (total, verdict) := attempts announce events (maxRetransmissions + 1) used
    let sent := sent ++ List.replicate (total - used) (announceReq a connectionId drawn.announce drawn.key)
    match verdict with
    | .retry => (sent, .throws .announceTimedOut)
    | .throws error => (sent, .throws error)
    | .outside => (sent, .outside)
    | .accepts peers => (sent, .peers peers)

/-- `try_announce_to`. -/
def tryAnnounceTo (ntop : Bytes → Bytes) (isIpv6 : Bool) (a : Announce) (drawn : Drawn) (events : Nat → Event) :
    List Bytes × Result :=
  exchangeWith a drawn (judgeConnect drawn.connect) (judgeAnnounce ntop isIpv6 drawn.announce) events

section Reads
variable {data : Bytes}

theorem getElem?_eq_some_getD {data : Bytes} {k : Nat} (inside : k < data.length) : data[k]? = some (data.getD k 0) := by
  rw [List.getElem?_eq_getElem inside, List.getD_eq_getElem?_getD, List.getElem?_eq_getElem inside, Option.getD_some]

theorem mapM_eq_filterMap {α β : Type} {f g : α → Option β} {items : List α}
    (found : ∀ a ∈ items, f a = g a ∧ (g a).isSome = true) : items.mapM f = some (items.filterMap g) := by
  induction items with
  | nil => rfl
  | cons a rest ih =>
    obtain ⟨same, some_⟩ := found a List.mem_cons_self
    obtain ⟨value, here⟩ := Option.isSome_iff_exists.mp some_
    rw [List.mapM_cons, same, here, ih fun other member => found other (List.mem_cons_of_mem a member),
      List.filterMap_cons_some here]
    rfl

theorem be32At_eq {offset : Nat} (inside : offset + 4 ≤ data.length) : be32At data offset = some (readBe32 data offset) :=
  if_pos inside

theorem ConnectionResp.deserialize_long (long : 16 ≤ data.length) :
    ConnectionResp.deserialize data = some (.ok ⟨readBe32 data 0, readBe32 data 4, readBe64 data 8⟩) := by
  have last : be64At data 8 = some (readBe64 data 8) := if_pos long
  rw [ConnectionResp.deserialize, if_neg (Nat.not_lt.mpr long), be32At_eq (by omega), be32At_eq (by omega), last]
  rfl

theorem AnnounceResp.deserialize_long {ntop : Bytes → Bytes} {isIpv6 : Bool} {peers : List PeerAddress}
    (long : 20 ≤ data.length) (read : readPeers ntop isIpv6 data = some peers) :
    AnnounceResp.deserialize ntop isIpv6 data = some (.ok ⟨readBe32 data 0, readBe32 data 4, readBe32 data 8,
      readBe32 data 12, readBe32 data 16, peers⟩) := by
  rw [AnnounceResp.deserialize, if_neg (Nat.not_lt.mpr long), be32At_eq (by omega), be32At_eq (by omega),
    be32At_eq (by omega), be32At_eq (by omega), be32At_eq (by omega), read]
  rfl

theorem peerAt_inside {ntop : Bytes → Bytes} {isIpv6 : Bool} {offset : Nat} (inside : offset + stride isIpv6 ≤ data.length) :
    (peerAt ntop isIpv6 data offset).isSome = true := by
  cases isIpv6 with
  | true =>
    have port : be16At data (offset + 16) = some (readBe16 data (offset + 16)) := if_pos inside
    rw [peerAt, if_pos rfl, port]
    rfl
  | false =>
    have six : offset + 6 ≤ data.length := inside
    have port : be16At data (offset + 4) = some (readBe16 data (offset + 4)) := if_pos inside
    rw [peerAt, if_neg Bool.false_ne_true, getElem?_eq_some_getD (by omega), getElem?_eq_some_getD (by omega),
      getElem?_eq_some_getD (by omega), getElem?_eq_some_getD (by omega), port]
    rfl

/-- The loop over the peers stays in the datagram. -/
theorem readPeers_inside (ntop : Bytes → Bytes) (isIpv6 : Bool) (data : Bytes) :
    ∃ peers, readPeers ntop isIpv6 data = some peers := by
  refine ⟨_, mapM_eq_filterMap fun k member => ⟨rfl, peerAt_inside ?_⟩⟩
  have below := List.mem_range.mp member
  cases isIpv6 with
  | true =>
    have count : k < (data.length - 20) / 18 := below
    change 20 + k * 18 + 18 ≤ data.length
    omega
  | false =>
    have count : k < (data.length - 20) / 6 := below
    change 20 + k * 6 + 6 ≤ data.length
    omega

end Reads

end UdpTracker

end BittorrentClient
