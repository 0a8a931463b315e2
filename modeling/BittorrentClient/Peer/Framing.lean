import BittorrentClient.Net.Socket
import BittorrentClient.Peer.Message

namespace BittorrentClient
open Cpp TCPDataSocket

/-- What a read of `recv_message_timeout` was for. -/
inductive RecvContext
  | messageLength
  | messageBody

inductive FramingError
  | recv (context : RecvContext) (error : RecvError)
  | lengthLimit

namespace PeerConnection

/-- `PeerConnection::recv_exact_timeout`: the socket's, with the context added to
its exceptions. -/
def recvExact (n timeoutMs : Nat) (context : RecvContext) (socket : List Arrival) :
    Except FramingError Bytes × List Arrival :=
  match recvExactTimeout n timeoutMs [] socket with
  | (.error error, socket) => (.error (.recv context error), socket)
  | (.ok buf, socket) => (.ok buf, socket)

/-- `recv_message_timeout`; a keep-alive is no message. -/
def recvMessageTimeout (timeoutMs : Nat) (socket : List Arrival) :
    Except FramingError (Option PeerMessage) × List Arrival :=
  match recvExact 4 timeoutMs .messageLength socket with
  | (.error error, socket) => (.error error, socket)
  | (.ok lenBuf, socket) =>
    let length := readBe32 lenBuf 0
    if length = 0 then (.ok none, socket)
    else if 1 <<< 24 < length then (.error .lengthLimit, socket)
    else
      match recvExact length timeoutMs .messageBody socket with
      | (.error error, socket) => (.error error, socket)
      | (.ok body, socket) => (.ok (some ⟨.ofByte (body.getD 0 0), body.drop 1⟩), socket)

/-- A number of calls, up to the first that throws. -/
def recvMessages (timeoutMs : Nat) : (calls : Nat) → List Arrival →
    Except FramingError (List (Option PeerMessage)) × List Arrival
  | 0, socket => (.ok [], socket)
  | calls + 1, socket =>
    match recvMessageTimeout timeoutMs socket with
    | (.error error, socket) => (.error error, socket)
    | (.ok msg, socket) =>
      match recvMessages timeoutMs calls socket with
      | (.error error, socket) => (.error error, socket)
      | (.ok msgs, socket) => (.ok (msg :: msgs), socket)

end PeerConnection

/-- The messages of the protocol with their fields. -/
inductive WireMessage
  | keepAlive
  | choke
  | unchoke
  | interested
  | notInterested
  | have (pieceIndex : UInt32)
  | bitfield (bitfield : Bytes)
  | request (index begin_ length : UInt32)
  | piece (index begin_ : UInt32) (block : Bytes)
  | cancel (index begin_ length : UInt32)

namespace WireMessage

/-- The `to_peer_message` of each kind; a keep-alive has none. -/
def toPeerMessage : WireMessage → Option PeerMessage
  | keepAlive => none
  | choke => some ⟨.choke, []⟩
  | unchoke => some ⟨.unchoke, []⟩
  | interested => some ⟨.interested, []⟩
  | notInterested => some ⟨.notInterested, []⟩
  | .have pieceIndex => some (HaveMessage.toPeerMessage ⟨pieceIndex.toNat⟩)
  | bitfield bits => some (BitfieldMessage.toPeerMessage ⟨bits⟩)
  | request index begin_ length => some (RequestMessage.toPeerMessage ⟨index.toNat, begin_.toNat, length.toNat⟩)
  | piece index begin_ block => some (PieceMessage.toPeerMessage ⟨index.toNat, begin_.toNat, block⟩)
  | cancel index begin_ length => some (CancelMessage.toPeerMessage ⟨index.toNat, begin_.toNat, length.toNat⟩)

/-- The bytes of a message; those of a keep-alive are a length of zero. -/
def wire (message : WireMessage) : Bytes := message.toPeerMessage.elim (writeBe32 0) PeerMessage.serialize

/-- The `from_peer_message` of its kind gives the fields of the message back. -/
def RestoredBy (message : WireMessage) (msg : PeerMessage) : Prop :=
  match message with
  | .have pieceIndex => HaveMessage.fromPeerMessage msg = .ok ⟨pieceIndex.toNat⟩
  | bitfield bits => BitfieldMessage.fromPeerMessage msg = .ok ⟨bits⟩
  | request index begin_ length =>
    RequestMessage.fromPeerMessage msg = .ok ⟨index.toNat, begin_.toNat, length.toNat⟩
  | piece index begin_ block => PieceMessage.fromPeerMessage msg = .ok ⟨index.toNat, begin_.toNat, block⟩
  | cancel index begin_ length =>
    CancelMessage.fromPeerMessage msg = .ok ⟨index.toNat, begin_.toNat, length.toNat⟩
  | _ => msg.payload = []

end WireMessage

section Codec

/-- Both kinds of ranges are read back. -/
theorem BlockRange.fromPeerMessage_toPeerMessage (id : MessageId) (index begin_ length : UInt32) :
    BlockRange.fromPeerMessage id (BlockRange.toPeerMessage id ⟨index.toNat, begin_.toNat, length.toNat⟩) =
      .ok ⟨index.toNat, begin_.toNat, length.toNat⟩ := by
  have first := readBe32_writeBe32 [] (writeBe32 begin_.toNat ++ writeBe32 length.toNat) index.toNat_lt
  have second := readBe32_writeBe32 (writeBe32 index.toNat) (writeBe32 length.toNat) begin_.toNat_lt
  have third := readBe32_writeBe32 (writeBe32 index.toNat ++ writeBe32 begin_.toNat) [] length.toNat_lt
  rw [List.nil_append, ← List.append_assoc] at first
  rw [List.append_nil] at third
  have twelve : (writeBe32 index.toNat ++ writeBe32 begin_.toNat ++ writeBe32 length.toNat).length = 12 := rfl
  rw [BlockRange.toPeerMessage, BlockRange.fromPeerMessage, if_neg (not_not_intro rfl), if_neg (not_not_intro twelve)]
  exact congrArg Except.ok (congr (congr (congrArg BlockRange.mk first) second) third)

theorem PieceMessage.fromPeerMessage_toPeerMessage (index begin_ : UInt32) (block : Bytes) :
    PieceMessage.fromPeerMessage (PieceMessage.toPeerMessage ⟨index.toNat, begin_.toNat, block⟩) =
      .ok ⟨index.toNat, begin_.toNat, block⟩ := by
  have first := readBe32_writeBe32 [] (writeBe32 begin_.toNat ++ block) index.toNat_lt
  have second := readBe32_writeBe32 (writeBe32 index.toNat) block begin_.toNat_lt
  rw [List.nil_append, ← List.append_assoc] at first
  have long : ¬ (writeBe32 index.toNat ++ writeBe32 begin_.toNat ++ block).length < 8 := by
    rw [List.length_append]
    exact Nat.not_lt.mpr (Nat.le_add_right 8 block.length)
  rw [PieceMessage.toPeerMessage, PieceMessage.fromPeerMessage, if_neg (not_not_intro rfl), if_neg long]
  exact congrArg Except.ok (congr (congr (congrArg PieceMessage.mk first) second) rfl)

variable {message : WireMessage} {msg : PeerMessage}

/-- What is sent is read back by the kind it was. -/
theorem WireMessage.restoredBy (sent : message.toPeerMessage = some msg) : message.RestoredBy msg := by
  cases message with
  | keepAlive => cases sent
  | «have» pieceIndex =>
    cases sent
    have first := readBe32_writeBe32 [] [] pieceIndex.toNat_lt
    rw [List.nil_append, List.append_nil] at first
    exact congrArg (fun index => Except.ok (HaveMessage.mk index)) first
  | bitfield bits =>
    cases sent
    rfl
  | request index begin_ length =>
    cases sent
    exact BlockRange.fromPeerMessage_toPeerMessage .request index begin_ length
  | piece index begin_ block =>
    cases sent
    exact PieceMessage.fromPeerMessage_toPeerMessage index begin_ block
  | cancel index begin_ length =>
    cases sent
    exact BlockRange.fromPeerMessage_toPeerMessage .cancel index begin_ length
  | _ =>
    cases sent
    rfl

/-- The byte of an id that a message can have names it. -/
theorem WireMessage.ofByte_byte (sent : message.toPeerMessage = some msg) : MessageId.ofByte msg.id.byte = msg.id := by
  cases message <;> cases sent <;> rfl

end Codec

namespace PeerConnection
variable {timeoutMs : Nat} {segments : List Bytes} {later : List Arrival}

/-- A read of the connection takes the bytes it wants from the segments. -/
theorem recvExact_segments (timeoutMs : Nat) (context : RecvContext) (later : List Arrival) {want rest : Bytes}
    (some : ∀ segment ∈ segments, segment ≠ []) (stream : segments.flatten = want ++ rest) :
    ∃ left : List Bytes, (∀ segment ∈ left, segment ≠ []) ∧ left.flatten = rest ∧
      recvExact want.length timeoutMs context (segments.map .data ++ later) = (.ok want, left.map .data ++ later) := by
  obtain ⟨left, nonempty, flat, read⟩ :=
    recvExactTimeout_segments want.length timeoutMs [] later some stream (Nat.zero_add _)
  refine ⟨left, nonempty, flat, ?_⟩
  rw [recvExact, read]
  rfl

/-- One call takes one message. -/
theorem recvMessageTimeout_wire (timeoutMs : Nat) (later : List Arrival) {message : WireMessage} {rest : Bytes}
    (small : ∀ msg, message.toPeerMessage = some msg → msg.payload.length < 2 ^ 24)
    (some : ∀ segment ∈ segments, segment ≠ []) (stream : segments.flatten = message.wire ++ rest) :
    ∃ left : List Bytes, (∀ segment ∈ left, segment ≠ []) ∧ left.flatten = rest ∧
      recvMessageTimeout timeoutMs (segments.map .data ++ later) =
        (.ok message.toPeerMessage, left.map .data ++ later) := by
  rw [WireMessage.wire] at stream
  cases sent : message.toPeerMessage with
  | none =>
    rw [sent, Option.elim_none] at stream
    obtain ⟨left, nonempty, flat, read⟩ := recvExact_segments timeoutMs .messageLength later some stream
    refine ⟨left, nonempty, flat, ?_⟩
    have length : readBe32 (writeBe32 0) 0 = 0 := rfl
    rw [show (writeBe32 0).length = 4 from rfl] at read
    simp only [recvMessageTimeout, read, length, if_true]
  | some msg =>
    have limit := small msg sent
    rw [sent, Option.elim_some, PeerMessage.serialize, List.append_assoc, Nat.mod_eq_of_lt (by omega)] at stream
    obtain ⟨middle, nonempty, flat, read⟩ := recvExact_segments timeoutMs .messageLength later some stream
    obtain ⟨left, nonempty', flat', read'⟩ := recvExact_segments timeoutMs .messageBody later nonempty flat
    have length := readBe32_writeBe32 [] [] (show 1 + msg.payload.length < 2 ^ 32 by omega)
    rw [List.nil_append, List.append_nil, List.length_nil] at length
    have body : (msg.id.byte :: msg.payload).length = 1 + msg.payload.length := by
      rw [List.length_cons, Nat.add_comm]
    have some' : 1 + msg.payload.length ≠ 0 := by omega
    have allowed : ¬ 1 <<< 24 < 1 + msg.payload.length := by
      have power : 1 <<< 24 = 2 ^ 24 := rfl
      omega
    refine ⟨left, nonempty', flat', ?_⟩
    rw [show (writeBe32 (1 + msg.payload.length)).length = 4 from rfl] at read
    rw [body] at read'
    have named := WireMessage.ofByte_byte sent
    simp only [recvMessageTimeout, read, length, if_neg some', if_neg allowed, read', List.getD_cons_zero, named,
      List.drop_one, List.tail_cons]

/-- Every sequence of messages, in segments of any sizes, is received as it was
sent and nothing of it is left. -/
theorem recvMessages_wire (timeoutMs : Nat) (messages : List WireMessage)
    (small : ∀ message ∈ messages, ∀ msg, message.toPeerMessage = some msg → msg.payload.length < 2 ^ 24)
    (segments : List Bytes) (nonempty : ∀ segment ∈ segments, segment ≠ [])
    (stream : segments.flatten = (messages.map WireMessage.wire).flatten) (later : List Arrival) :
    recvMessages timeoutMs messages.length (segments.map .data ++ later) =
        (.ok (messages.map WireMessage.toPeerMessage), later) ∧
      ∀ message ∈ messages, ∀ msg, message.toPeerMessage = some msg → message.RestoredBy msg := by
  refine ⟨?_, fun message _ msg sent => WireMessage.restoredBy sent⟩
  induction messages generalizing segments with
  | nil =>
    have none : segments = [] := by
      cases segments with
      | nil => rfl
      | cons segment rest =>
        have empty := (List.append_eq_nil_iff.mp stream).1
        exact absurd empty (nonempty segment List.mem_cons_self)
    rw [none]
    rfl
  | cons message messages ih =>
    obtain ⟨left, nonempty', flat, received⟩ :=
      recvMessageTimeout_wire timeoutMs later (small message List.mem_cons_self) nonempty stream
    have rest := ih (fun other member => small other (List.mem_cons_of_mem _ member)) left nonempty' flat
    simp only [List.length_cons, recvMessages, received, rest, List.map_cons]

/-- A message and a keep-alive in segments that cut across both. -/
theorem recvMessages_wire_two :
    recvMessages 120000 2 [.data [0, 0, 0], .data [5, 4], .data [0, 0, 0, 7, 0, 0], .data [0, 0]] =
      (.ok [some ⟨.have, [0, 0, 0, 7]⟩, none], []) := by
  have small : ∀ message ∈ [WireMessage.have 7, .keepAlive], ∀ msg, message.toPeerMessage = some msg →
      msg.payload.length < 2 ^ 24 := by
    intro message member msg sent
    rcases List.mem_cons.mp member with rfl | last
    · cases sent
      decide
    · cases List.mem_singleton.mp last
      cases sent
  exact (recvMessages_wire 120000 [.have 7, .keepAlive] small [[0, 0, 0], [5, 4], [0, 0, 0, 7, 0, 0], [0, 0]]
    (by decide) (by decide) []).1

end PeerConnection

end BittorrentClient
