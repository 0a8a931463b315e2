import BittorrentClient.Library.ByteOrder

namespace BittorrentClient
open Cpp

/-- `peer_wire::MessageId`, a byte of which only some values are named. -/
inductive MessageId
  | choke
  | unchoke
  | interested
  | notInterested
  | have
  | bitfield
  | request
  | piece
  | cancel
  | unnamed (raw : UInt8)
  deriving DecidableEq

def MessageId.ofByte : UInt8 → MessageId
  | 0 => .choke
  | 1 => .unchoke
  | 2 => .interested
  | 3 => .notInterested
  | 4 => .have
  | 5 => .bitfield
  | 6 => .request
  | 7 => .piece
  | 8 => .cancel
  | raw => .unnamed raw

/-- The byte of an id. -/
def MessageId.byte : MessageId → UInt8
  | .choke => 0
  | .unchoke => 1
  | .interested => 2
  | .notInterested => 3
  | .have => 4
  | .bitfield => 5
  | .request => 6
  | .piece => 7
  | .cancel => 8
  | .unnamed raw => raw

structure PeerMessage where
  id : MessageId
  payload : Bytes
  deriving DecidableEq

/-- `PeerMessage::serialize`: the length, the id and the payload. -/
def PeerMessage.serialize (msg : PeerMessage) : Bytes :=
  writeBe32 ((1 + msg.payload.length) % 2 ^ 32) ++ msg.id.byte :: msg.payload

/-- The exceptions of `from_peer_message` and of `has_piece`. -/
inductive MessageError
  | expected (id : MessageId)
  | payloadSize (id : MessageId) (size : Nat)
  | bitfieldIndexOutOfRange (index byteIdx bitfieldSize : Nat)
  deriving DecidableEq

structure HaveMessage where
  pieceIndex : Nat

def HaveMessage.fromPeerMessage (msg : PeerMessage) : Except MessageError HaveMessage :=
  if msg.id ≠ .have then .error (.expected .have)
  else if msg.payload.length ≠ 4 then .error (.payloadSize .have msg.payload.length)
  else .ok ⟨readBe32 msg.payload 0⟩

def HaveMessage.toPeerMessage (announced : HaveMessage) : PeerMessage := ⟨.have, writeBe32 announced.pieceIndex⟩

structure BitfieldMessage where
  bitfield : Bytes

namespace BitfieldMessage

/-- Bit 7 of the first byte stands for piece 0. -/
def hasPiece (bf : BitfieldMessage) (index : Nat) : Except MessageError Bool :=
  let byteIdx := index / 8
  let bitIdx := 7 - index % 8
  if bf.bitfield.length ≤ byteIdx then
    .error (.bitfieldIndexOutOfRange index byteIdx bf.bitfield.length)
  else .ok (((bf.bitfield.getD byteIdx 0).toNat >>> bitIdx) % 2 == 1)

def fromPeerMessage (msg : PeerMessage) : Except MessageError BitfieldMessage :=
  if msg.id ≠ .bitfield then .error (.expected .bitfield) else .ok ⟨msg.payload⟩

def toPeerMessage (bf : BitfieldMessage) : PeerMessage := ⟨.bitfield, bf.bitfield⟩

end BitfieldMessage

/-- The payload of `request` and of `cancel` messages. -/
structure BlockRange where
  index : Nat
  begin_ : Nat
  length : Nat

/-- `RequestMessage::from_peer_message` and `CancelMessage::from_peer_message`
differ in the id they expect. -/
def BlockRange.fromPeerMessage (id : MessageId) (msg : PeerMessage) : Except MessageError BlockRange :=
  if msg.id ≠ id then .error (.expected id)
  else if msg.payload.length ≠ 12 then .error (.payloadSize id msg.payload.length)
  else .ok ⟨readBe32 msg.payload 0, readBe32 msg.payload 4, readBe32 msg.payload 8⟩

def BlockRange.toPeerMessage (id : MessageId) (range : BlockRange) : PeerMessage :=
  ⟨id, writeBe32 range.index ++ writeBe32 range.begin_ ++ writeBe32 range.length⟩

def RequestMessage.fromPeerMessage : PeerMessage → Except MessageError BlockRange :=
  BlockRange.fromPeerMessage .request

def RequestMessage.toPeerMessage : BlockRange → PeerMessage := BlockRange.toPeerMessage .request

def CancelMessage.fromPeerMessage : PeerMessage → Except MessageError BlockRange :=
  BlockRange.fromPeerMessage .cancel

def CancelMessage.toPeerMessage : BlockRange → PeerMessage := BlockRange.toPeerMessage .cancel

structure PieceMessage where
  index : Nat
  begin_ : Nat
  block : Bytes

namespace PieceMessage

def fromPeerMessage (msg : PeerMessage) : Except MessageError PieceMessage :=
  if msg.id ≠ .piece then .error (.expected .piece)
  else if msg.payload.length < 8 then .error (.payloadSize .piece msg.payload.length)
  else .ok ⟨readBe32 msg.payload 0, readBe32 msg.payload 4, msg.payload.drop 8⟩

def toPeerMessage (piece : PieceMessage) : PeerMessage :=
  ⟨.piece, writeBe32 piece.index ++ writeBe32 piece.begin_ ++ piece.block⟩

end PieceMessage

end BittorrentClient
