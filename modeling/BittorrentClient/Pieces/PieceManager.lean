import BittorrentClient.Disk.FlatArray
import BittorrentClient.Hash

namespace BittorrentClient
open Cpp

def blockSize : Nat := 2 ^ 14

/-- The fields of `PieceManager` that never change, with the widths of their
types and the check its constructor makes. -/
structure PieceManager where
  mTotalLengthBytes : Nat
  mNumPieces : Nat
  mNominalPieceLength : Nat
  mPieceHashes : List Sha1Hash
  totalLengthBytes_lt : mTotalLengthBytes < 2 ^ 64
  numPieces_lt : mNumPieces < 2 ^ 32
  nominalPieceLength_lt : mNominalPieceLength < 2 ^ 32
  pieceHashes_length : mPieceHashes.length = mNumPieces

/-- The atomics of `PieceManager`. The two arrays have `mNumPieces` elements
and are not read beyond them. -/
structure Pieces where
  mHave : Nat → Bool
  mClaimed : Nat → Bool
  mCompletedCount : Nat
  mCurrDownloadedBytes : Nat
  mPieceHashFailures : Nat

def Pieces.fresh : Pieces := ⟨fun _ => false, fun _ => false, 0, 0, 0⟩

structure NeededPiece where
  index : Nat
  exclusive : Bool
  deriving DecidableEq

inductive PieceError
  | indexOutOfRange (pieceIndex numPieces : Nat)
  | notAvailable (index : Nat)
  | rangeOutOfBounds (index begin_ length pieceLength : Nat)
  | undefinedRange (index begin_ length : Nat)
  | disk (error : DiskError)
  deriving DecidableEq

/-- No exception, but a step without a defined result. -/
def PieceError.isUndefined : PieceError → Bool
  | .undefinedRange .. => true
  | _ => false

namespace PieceManager

/-- The constructor, which throws when the hash count does not match. -/
def make (numPieces pieceLength totalLength : Nat) (pieceHashes : List Sha1Hash) (numPieces_lt : numPieces < 2 ^ 32)
    (pieceLength_lt : pieceLength < 2 ^ 32) (totalLength_lt : totalLength < 2 ^ 64) : Option PieceManager :=
  if same : pieceHashes.length = numPieces then
    some ⟨totalLength, numPieces, pieceLength, pieceHashes, totalLength_lt, numPieces_lt, pieceLength_lt, same⟩
  else none

def pieceLength (pm : PieceManager) (index : Nat) : Nat :=
  if u32 (index + 1) < pm.mNumPieces then pm.mNominalPieceLength
  else u32 (sub64 pm.mTotalLengthBytes (u64 (pm.mNominalPieceLength * u32 (pm.mNumPieces + 2 ^ 32 - 1))))

theorem pieceLength_lt (pm : PieceManager) (index : Nat) : pm.pieceLength index < 2 ^ 32 := by
  unfold pieceLength
  split
  · exact pm.nominalPieceLength_lt
  · exact Nat.mod_lt _ (by decide)

def havePiece (pm : PieceManager) (index : Nat) (p : Pieces) : Bool :=
  index < pm.mNumPieces && p.mHave index

def isComplete (pm : PieceManager) (p : Pieces) : Bool := p.mCompletedCount == pm.mNumPieces

def currentBitfield (pm : PieceManager) (p : Pieces) : List Bool := (List.range pm.mNumPieces).map p.mHave

/-- `data` has the digest the torrent lists for piece `index`. -/
def verifies (pm : PieceManager) (sha1 : Bytes → Sha1Hash) (index : Nat) (data : Bytes) : Bool :=
  pm.mPieceHashes[index]? == some (sha1 data)

/-- A piece the peer has and we have not finished. -/
def needs (peerBitfield : List Bool) (p : Pieces) (index : Nat) : Bool :=
  peerBitfield.getD index false && !p.mHave index

/-- `next_needed` without interference: the first loop claims the first needed
piece whose compare-and-swap succeeds, the second hands out any needed piece
without a claim. -/
def nextNeeded (pm : PieceManager) (peerBitfield : List Bool) (p : Pieces) : Option NeededPiece × Pieces :=
  match (List.range pm.mNumPieces).find? (fun i => needs peerBitfield p i && !p.mClaimed i) with
  | some i => (some ⟨i, true⟩, { p with mClaimed := Function.update p.mClaimed i true })
  | none => (((List.range pm.mNumPieces).find? (needs peerBitfield p)).map (⟨·, false⟩), p)

/-- `complete_piece` without interference: both `m_have` loads of a failed
verification see the same value. -/
def completePiece (pm : PieceManager) (w : DiskWriter) (sha1 : Bytes → Sha1Hash) (faults : IoFaults)
    (pieceIndex : Nat) (data : Bytes) (p : Pieces) (disk : Disk) : (Pieces × Disk) × Except PieceError Bool :=
  if pm.mNumPieces ≤ pieceIndex then ((p, disk), .error (.indexOutOfRange pieceIndex pm.mNumPieces))
  else if p.mHave pieceIndex then ((p, disk), .ok true)
  else if !pm.verifies sha1 pieceIndex data then
    (({ p with mPieceHashFailures := u64 (p.mPieceHashFailures + 1) }, disk), .ok false)
  else
    let had : Pieces := { p with mHave := Function.update p.mHave pieceIndex true }
    match w.writePiece faults pieceIndex data disk with
    | (failed, .error error) => ((had, failed), .error (.disk error))
    | (written, .ok _) =>
      (({ had with
          mCurrDownloadedBytes := u64 (had.mCurrDownloadedBytes + pm.pieceLength pieceIndex)
          mCompletedCount := u32 (had.mCompletedCount + 1) }, written), .ok true)

/-- The test of `read_block` on a range that comes off the wire. -/
def checkRange (pm : PieceManager) (index begin_ length : Nat) : Except PieceError Unit :=
  let plen := pm.pieceLength index
  if plen < begin_ ∨ plen - begin_ < length then .error (.rangeOutOfBounds index begin_ length plen) else .ok ()

/-- The copy at the end of `read_block`; past the end of the piece that was
read it has no defined result. -/
def copyBlock (index begin_ length : Nat) (piece : Bytes) : Except PieceError Bytes :=
  if begin_ + length ≤ piece.length then .ok (Splice.slice piece begin_ length)
  else .error (.undefinedRange index begin_ length)

def readBlock (pm : PieceManager) (w : DiskWriter) (faults : IoFaults) (index begin_ length : Nat) (p : Pieces)
    (disk : Disk) : Except PieceError Bytes := do
  if !pm.havePiece index p then .error (.notAvailable index)
  else
    pm.checkRange index begin_ length
    match w.readPiece faults index disk with
    | .error error => .error (.disk error)
    | .ok piece => copyBlock index begin_ length piece

def abortPiece (pm : PieceManager) (index : Nat) (p : Pieces) : Pieces :=
  if pm.mNumPieces ≤ index then p
  else if p.mHave index then p
  else { p with mClaimed := Function.update p.mClaimed index false }

end PieceManager

/-- A torrent of one piece of one byte, and its only file. -/
def oneByte : PieceManager where
  mTotalLengthBytes := 1
  mNumPieces := 1
  mNominalPieceLength := 16384
  mPieceHashes := [⟨[191, 139, 69, 48, 216, 210, 70, 221, 116, 172, 83, 161, 52, 113, 187, 161, 121, 65, 223, 247], rfl⟩]
  totalLengthBytes_lt := by decide
  numPieces_lt := by decide
  nominalPieceLength_lt := by decide
  pieceHashes_length := rfl

def oneByteWriter : DiskWriter := ⟨⟨text ['o']⟩, 16384, 1, [⟨⟨text ['a']⟩, 1, 0⟩]⟩

/-- The SHA-1 digests of the byte strings `01` and, for all others, `00`. -/
def oneByteSha1 (data : Bytes) : Sha1Hash :=
  if data = [1] then
    ⟨[191, 139, 69, 48, 216, 210, 70, 221, 116, 172, 83, 161, 52, 113, 187, 161, 121, 65, 223, 247], rfl⟩
  else ⟨[91, 169, 60, 157, 176, 207, 249, 63, 82, 181, 33, 215, 66, 14, 67, 246, 237, 162, 120, 79], rfl⟩

end BittorrentClient
