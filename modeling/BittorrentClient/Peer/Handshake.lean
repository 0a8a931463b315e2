import BittorrentClient.Net.Sending
import BittorrentClient.Peer.Framing
import BittorrentClient.Trackers.HttpAnnounce

namespace BittorrentClient
open Cpp TCPDataSocket

def protocolStringLength : UInt8 := 19

/-- `PROTOCOL_STRING`, without the zero at its end. -/
def protocolString : Bytes :=
  text ['B', 'i', 't', 'T', 'o', 'r', 'r', 'e', 'n', 't', ' ', 'p', 'r', 'o', 't', 'o', 'c', 'o', 'l']

def handshakeLength : Nat := 1 + 19 + 8 + 20 + 20

structure Handshake where
  reserved : Bytes
  infoHash : InfoHash
  peerId : PeerId
  reserved_length : reserved.length = 8

/-- The exceptions of `Handshake::deserialize`. -/
inductive HandshakeError
  | tooShort
  | protocolStringLength
  | protocolString
  | infoHashLength

namespace Handshake

def serialize (hs : Handshake) : Bytes :=
  protocolStringLength :: protocolString ++ hs.reserved ++ hs.infoHash.bytes ++ hs.peerId.bytes

theorem length_reserved {data : Bytes} (long : ¬ data.length < handshakeLength) : (Splice.slice data 20 8).length = 8 := by
  rw [handshakeLength] at long
  rw [Splice.slice, List.length_take, List.length_drop]
  omega

theorem length_peerId {data : Bytes} (long : ¬ data.length < handshakeLength) : (Splice.slice data 48 20).length = 20 := by
  rw [handshakeLength] at long
  rw [Splice.slice, List.length_take, List.length_drop]
  omega

/-- `Handshake::deserialize`. Both arrays of the result have their sizes because the data
is long enough. -/
def deserialize (data : Bytes) : Except HandshakeError Handshake :=
  if short : data.length < handshakeLength then .error .tooShort
  else if data.getD 0 0 ≠ BittorrentClient.protocolStringLength then .error .protocolStringLength
  else if Splice.slice data 1 19 ≠ BittorrentClient.protocolString then .error .protocolString
  else
    match InfoHash.tryFromRaw (Splice.slice data 28 20) with
    | none => .error .infoHashLength
    | some infoHash =>
      .ok {
        reserved := Splice.slice data 20 8
        infoHash := infoHash
        peerId := ⟨Splice.slice data 48 20, length_peerId short⟩
        reserved_length := length_reserved short }

end Handshake

/-- The exceptions of `do_handshake`. -/
inductive ConnectError
  | send (error : SendError)
  | recv (error : RecvError)
  | headerByte (byte : UInt8)
  | handshake (error : HandshakeError)
  | infoHashMismatch

/-- A socket from both sides: what the kernel will do with the bytes that are sent, the
bytes that it has taken, and what will come in. -/
structure Line where
  takings : List Taking
  sent : Bytes
  incoming : List Arrival

namespace Line

/-- `send_bytes`. -/
def send (buffer : Bytes) (line : Line) : Except SendError Unit × Line :=
  let (result, wire, left) := TCPDataSocket.send buffer line.takings
  (result, { line with takings := left, sent := line.sent ++ wire })

end Line

namespace PeerConnection

/-- What `do_handshake` sends. -/
def hello (infoHash : InfoHash) (myPeerId : PeerId) : Handshake := ⟨List.replicate 8 0, infoHash, myPeerId, List.length_replicate⟩

/-- What `do_handshake` asks of the bytes that come back. -/
def checkReply (infoHash : InfoHash) (reply : Bytes) : Except ConnectError Unit :=
  if reply.getD 0 0 ≠ protocolStringLength then .error (.headerByte (reply.getD 0 0))
  else
    match Handshake.deserialize reply with
    | .error error => .error (.handshake error)
    | .ok hs => if hs.infoHash ≠ infoHash then .error .infoHashMismatch else .ok ()

def doHandshake (infoHash : InfoHash) (myPeerId : PeerId) (line : Line) : Except ConnectError Unit × Line :=
  match line.send (hello infoHash myPeerId).serialize with
  | (.error error, line) => (.error (.send error), line)
  | (.ok _, line) =>
    match recvExactTimeout handshakeLength 10000 [] line.incoming with
    | (.error error, incoming) => (.error (.recv error), { line with incoming := incoming })
    | (.ok reply, incoming) => (checkReply infoHash reply, { line with incoming := incoming })

end PeerConnection

namespace Handshake

theorem length_serialize (hs : Handshake) : hs.serialize.length = handshakeLength := by
  have protocol : protocolString.length = 19 := rfl
  simp only [serialize, handshakeLength, List.length_append, List.length_cons, protocol, hs.reserved_length,
    hs.infoHash.length_eq, hs.peerId.length_eq]

/-- The four fields behind the length of the protocol string. -/
theorem slices {protocol reserved infoHash peerId : Bytes} (first : UInt8) (protocolSize : protocol.length = 19)
    (reservedSize : reserved.length = 8) (hashSize : infoHash.length = 20) (peerSize : peerId.length = 20) :
    Splice.slice (first :: protocol ++ reserved ++ infoHash ++ peerId) 1 19 = protocol ∧
    Splice.slice (first :: protocol ++ reserved ++ infoHash ++ peerId) 20 8 = reserved ∧
    Splice.slice (first :: protocol ++ reserved ++ infoHash ++ peerId) 28 20 = infoHash ∧
    Splice.slice (first :: protocol ++ reserved ++ infoHash ++ peerId) 48 20 = peerId := by
  refine ⟨?_, ?_, ?_, ?_⟩
  · rw [List.cons_append, List.cons_append, List.cons_append, Splice.slice, List.drop_succ_cons, List.drop_zero, List.append_assoc,
      List.append_assoc, ← protocolSize, List.take_left]
  · have front : (first :: protocol).length = 20 := by rw [List.length_cons, protocolSize]
    rw [Splice.slice, List.append_assoc, List.append_assoc, ← front, List.drop_left, ← reservedSize, List.take_left]
  · have front : (first :: protocol ++ reserved).length = 28 := by
      rw [List.length_append, List.length_cons, protocolSize, reservedSize]
    rw [Splice.slice, List.append_assoc, ← front, List.drop_left, ← hashSize, List.take_left]
  · have front : (first :: protocol ++ reserved ++ infoHash).length = 48 := by
      rw [List.length_append, List.length_append, List.length_cons, protocolSize, reservedSize, hashSize]
    rw [Splice.slice, ← front, List.drop_left, ← peerSize, List.take_length]

theorem deserialize_serialize (hs : Handshake) : deserialize hs.serialize = .ok hs := by
  obtain ⟨reserved, infoHash, ⟨peerId, peerSized⟩, sized⟩ := hs
  obtain ⟨first, second, third, fourth⟩ := slices 19 (show protocolString.length = 19 from rfl) sized infoHash.length_eq
    peerSized
  have long : ¬ (Handshake.serialize ⟨reserved, infoHash, ⟨peerId, peerSized⟩, sized⟩).length < handshakeLength := by
    rw [length_serialize]
    exact Nat.lt_irrefl _
  have header : (Handshake.serialize ⟨reserved, infoHash, ⟨peerId, peerSized⟩, sized⟩).getD 0 0 = protocolStringLength := rfl
  have found : InfoHash.tryFromRaw
      (Splice.slice (Handshake.serialize ⟨reserved, infoHash, ⟨peerId, peerSized⟩, sized⟩) 28 20) = some infoHash :=
    (congrArg _ third).trans (dif_pos infoHash.length_eq)
  have protocol : Splice.slice (Handshake.serialize ⟨reserved, infoHash, ⟨peerId, peerSized⟩, sized⟩) 1 19 = protocolString := first
  rw [deserialize, dif_neg long, if_neg (not_not_intro header), if_neg (not_not_intro protocol), found]
  simp only [Except.ok.injEq, Handshake.mk.injEq, PeerId.mk.injEq, true_and]
  exact ⟨second, fourth⟩

/-- A list of the size of a handshake is made of its fields. -/
theorem split_fields {data : Bytes} (sized : data.length = handshakeLength) :
    data = data.getD 0 0 :: Splice.slice data 1 19 ++ Splice.slice data 20 8 ++ Splice.slice data 28 20 ++
      Splice.slice data 48 20 := by
  have cut : ∀ start count, Splice.slice data start count ++ data.drop (start + count) = data.drop start := by
    intro start count
    rw [Splice.slice, ← List.drop_drop, List.take_append_drop]
  have nothing : data.drop 68 = [] := List.drop_eq_nil_of_le (Nat.le_of_eq sized)
  have last := cut 48 20
  rw [nothing, List.append_nil] at last
  cases data with
  | nil => cases sized
  | cons first rest =>
    have whole := cut 1 19
    rw [← cut 20 8, ← cut 28 20, ← last] at whole
    simp only [List.getD_cons_zero, List.cons_append, List.append_assoc]
    rw [whole]
    rfl

/-- Of the lists of its size a handshake is read from the one that it is written to. -/
theorem deserialize_eq_ok_iff {data : Bytes} (sized : data.length = handshakeLength) {hs : Handshake} :
    deserialize data = .ok hs ↔ data = hs.serialize := by
  constructor
  · intro read
    rw [deserialize, dif_neg (by omega)] at read
    split at read
    case isTrue => cases read
    case isFalse header =>
      split at read
      case isTrue => cases read
      case isFalse protocol =>
        split at read
        case h_1 => cases read
        case h_2 infoHash found =>
          cases read
          rw [InfoHash.tryFromRaw] at found
          split at found
          case isFalse => cases found
          case isTrue =>
            cases found
            have whole := split_fields sized
            rw [Decidable.of_not_not header, Decidable.of_not_not protocol] at whole
            exact whole
  · intro same
    rw [same, deserialize_serialize]

end Handshake

namespace PeerConnection

/-- A reply is good if and only if it is a handshake with the info hash of the torrent. -/
theorem checkReply_eq_ok_iff (infoHash : InfoHash) {reply : Bytes} (sized : reply.length = handshakeLength) :
    checkReply infoHash reply = .ok () ↔ ∃ hs : Handshake, hs.infoHash = infoHash ∧ reply = hs.serialize := by
  constructor
  · intro good
    rw [checkReply] at good
    split at good
    case isTrue => cases good
    case isFalse =>
      split at good
      case h_1 => cases good
      case h_2 hs read =>
        split at good
        case isTrue => cases good
        case isFalse same => exact ⟨hs, Decidable.of_not_not same, (Handshake.deserialize_eq_ok_iff sized).mp read⟩
  · rintro ⟨hs, same, rfl⟩
    have header : hs.serialize.getD 0 0 = protocolStringLength := rfl
    simp only [checkReply, if_neg (not_not_intro header), Handshake.deserialize_serialize, if_neg (not_not_intro same)]

theorem checkReply_mismatch {infoHash : InfoHash} {hs : Handshake} (different : hs.infoHash ≠ infoHash) :
    checkReply infoHash hs.serialize = .error .infoHashMismatch := by
  have header : hs.serialize.getD 0 0 = protocolStringLength := rfl
  simp only [checkReply, if_neg (not_not_intro header), Handshake.deserialize_serialize, if_pos different]

end PeerConnection

end BittorrentClient
