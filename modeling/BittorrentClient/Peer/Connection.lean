import BittorrentClient.Peer.Message
import BittorrentClient.Pieces.PieceManager

namespace BittorrentClient
open Cpp Splice

def maxPipeline : Nat := 15

/-- `PeerConnection::InFlightPiece`. -/
structure InFlightPiece where
  pieceIndex : Nat
  pieceLength : Nat
  nextBlockOffset : Nat
  requestsInFlight : Nat
  data : Bytes
  blocksReceived : List Bool
  blocksDone : Nat
  blocksTotal : Nat

/-- The state of a `PeerConnection`; `sent` lists the messages its socket has
taken, in order. -/
structure PeerConnection where
  mAmChoking : Bool
  mAmInterested : Bool
  mPeerChoking : Bool
  mPeerInterested : Bool
  mPeerBitfield : List Bool
  mCurrentPiece : Option InFlightPiece
  mCurrentPieceExclusive : Bool
  mBytesDownloaded : Nat
  mBytesUploaded : Nat
  mBlocksUploaded : Nat
  sent : List PeerMessage

inductive PeerError
  | message (error : MessageError)
  | haveOutOfRange (pieceIndex : Nat)
  | bitfieldSizeMismatch (local_ expected : Nat)
  | sendFailed
  | piece (error : PieceError)
  | killed
  | undefined
  deriving DecidableEq

/-- No exception: the signal of a send that ends the process, or a step that the
language gives no meaning. -/
def PeerError.fatal : PeerError → Bool
  | .killed | .undefined => true
  | _ => false

/-- What a handler reads and writes: its own connection and what all
connections share. -/
structure World where
  conn : PeerConnection
  pieces : Pieces
  disk : Disk

/-- The environment of one step: the disk, whether the socket takes a message, by the
number of messages it has taken before, and whether it raises `SIGPIPE` when it does
not. Nothing handles that signal. -/
structure Io where
  faults : IoFaults
  accepts : Nat → Bool
  sigpipe : Bool

/-- How a send ends that the socket does not take. -/
def Io.refusal (io : Io) : PeerError := if io.sigpipe then .killed else .sendFailed

/-- What a call leaves behind, also when it throws, and how it ends. -/
abbrev Outcome := World × Except PeerError Unit

/-- The next statement, unless an exception is on its way. -/
def Outcome.andThen (first : Outcome) (next : World → Outcome) : Outcome :=
  match first with
  | (world, .ok _) => next world
  | (world, .error error) => (world, .error error)

namespace PeerConnection

def make (pm : PieceManager) : PeerConnection where
  mAmChoking := true
  mAmInterested := false
  mPeerChoking := true
  mPeerInterested := false
  mPeerBitfield := List.replicate pm.mNumPieces false
  mCurrentPiece := none
  mCurrentPieceExclusive := false
  mBytesDownloaded := 0
  mBytesUploaded := 0
  mBlocksUploaded := 0
  sent := []

def sendMessage (io : Io) (msg : PeerMessage) (world : World) : Outcome :=
  if io.accepts world.conn.sent.length then
    ({ world with conn := { world.conn with sent := world.conn.sent ++ [msg] } }, .ok ())
  else (world, .error io.refusal)

def sendInterested (io : Io) (world : World) : Outcome :=
  if world.conn.mAmInterested then (world, .ok ())
  else
    (sendMessage io ⟨.interested, []⟩ world).andThen fun world =>
      ({ world with conn := { world.conn with mAmInterested := true } }, .ok ())

def sendUnchoke (io : Io) (world : World) : Outcome :=
  if !world.conn.mAmChoking then (world, .ok ())
  else
    (sendMessage io ⟨.unchoke, []⟩ world).andThen fun world =>
      ({ world with conn := { world.conn with mAmChoking := false } }, .ok ())

/-- The bytes of `send_bitfield`, with bit 7 of the first for piece 0. -/
def packBitfield (have_ : List Bool) : Bytes :=
  (List.range have_.length).foldl
    (fun bitfield i => if have_.getD i false then bitfield.modify (i / 8) (· ||| 1 <<< (7 - i % 8).toUInt8) else bitfield)
    (List.replicate ((have_.length + 7) / 8) 0)

/-- `send_bitfield`, the end of `connect`. -/
def sendBitfield (pm : PieceManager) (io : Io) (world : World) : Outcome :=
  let have_ := pm.currentBitfield world.pieces
  if have_.all not then (world, .ok ())
  else sendMessage io (BitfieldMessage.toPeerMessage ⟨packBitfield have_⟩) world

/-- `m_current_piece.reset()` and the flag that goes with it. -/
def resetPiece (conn : PeerConnection) : PeerConnection :=
  { conn with mCurrentPiece := none, mCurrentPieceExclusive := false }

variable (pm : PieceManager) (w : DiskWriter) (sha1 : Bytes → Sha1Hash)

/-- `abort_piece` on the current piece if this connection claimed it, the
destructor's body. -/
def releaseClaim (world : World) : Pieces :=
  match world.conn.mCurrentPiece with
  | some ifp => if world.conn.mCurrentPieceExclusive then pm.abortPiece ifp.pieceIndex world.pieces else world.pieces
  | none => world.pieces

def newInFlight (index : Nat) : InFlightPiece :=
  let pieceLength := pm.pieceLength index
  let numBlocks := u32 (pieceLength + blockSize - 1) / blockSize
  { pieceIndex := index, pieceLength := pieceLength, nextBlockOffset := 0, requestsInFlight := 0,
    data := List.replicate pieceLength 0, blocksReceived := List.replicate numBlocks false,
    blocksDone := 0, blocksTotal := numBlocks }

/-- The request loop of `fill_requests`. Each round adds one request, so it
takes at most `maxPipeline` rounds. -/
def requestLoop (io : Io) : (rounds : Nat) → InFlightPiece → World → Outcome
  | 0, _, world => (world, .ok ())
  | rounds + 1, ifp, world =>
    if ifp.requestsInFlight < maxPipeline ∧ ifp.nextBlockOffset < ifp.pieceLength then
      let blockLen := min blockSize (ifp.pieceLength - ifp.nextBlockOffset)
      (sendMessage io (RequestMessage.toPeerMessage ⟨ifp.pieceIndex, ifp.nextBlockOffset, blockLen⟩) world).andThen
        fun world =>
          let asked : InFlightPiece := { ifp with
            nextBlockOffset := u32 (ifp.nextBlockOffset + blockLen)
            requestsInFlight := u32 (ifp.requestsInFlight + 1) }
          requestLoop io rounds asked { world with conn := { world.conn with mCurrentPiece := some asked } }
    else (world, .ok ())

/-- A current piece that another peer has finished is let go. -/
def dropFinished (world : World) : World :=
  match world.conn.mCurrentPiece with
  | some ifp =>
    if pm.havePiece ifp.pieceIndex world.pieces then { world with conn := world.conn.resetPiece } else world
  | none => world

/-- The current piece, or one that `next_needed` picks. -/
def pickPiece (world : World) : World :=
  match world.conn.mCurrentPiece with
  | some _ => world
  | none =>
    match pm.nextNeeded world.conn.mPeerBitfield world.pieces with
    | (none, pieces) => { world with pieces := pieces }
    | (some pick, pieces) =>
      { world with
        pieces := pieces
        conn := { world.conn with
          mCurrentPiece := some (newInFlight pm pick.index), mCurrentPieceExclusive := pick.exclusive } }

def fillRequests (io : Io) (world : World) : Outcome :=
  if world.conn.mPeerChoking then (world, .ok ())
  else if !world.conn.mAmInterested then (world, .ok ())
  else
    let picked := pickPiece pm (dropFinished pm world)
    match picked.conn.mCurrentPiece with
    | none => (picked, .ok ())
    | some ifp => requestLoop io maxPipeline ifp picked

def handleChoke (world : World) : Outcome :=
  let choked : World := { world with conn := { world.conn with mPeerChoking := true } }
  match choked.conn.mCurrentPiece with
  | none => (choked, .ok ())
  | some _ => ({ choked with pieces := releaseClaim pm choked, conn := choked.conn.resetPiece }, .ok ())

def handleUnchoke (world : World) : Outcome :=
  ({ world with conn := { world.conn with mPeerChoking := false } }, .ok ())

def handleInterested (io : Io) (world : World) : Outcome :=
  sendUnchoke io { world with conn := { world.conn with mPeerInterested := true } }

def handleNotInterested (world : World) : Outcome :=
  ({ world with conn := { world.conn with mPeerInterested := false } }, .ok ())

def handleHave (io : Io) (msg : PeerMessage) (world : World) : Outcome :=
  match HaveMessage.fromPeerMessage msg with
  | .error error => (world, .error (.message error))
  | .ok announced =>
    if world.conn.mPeerBitfield.length ≤ announced.pieceIndex then
      (world, .error (.haveOutOfRange announced.pieceIndex))
    else
      let marked : World := { world with
        conn := { world.conn with mPeerBitfield := world.conn.mPeerBitfield.set announced.pieceIndex true } }
      if !pm.havePiece announced.pieceIndex marked.pieces then sendInterested io marked else (marked, .ok ())

/-- The first loop of `handle_bitfield`, over the indices that are left. -/
def copyBitfield (bf : BitfieldMessage) : List Nat → World → Outcome
  | [], world => (world, .ok ())
  | i :: rest, world =>
    match bf.hasPiece i with
    | .error error => (world, .error (.message error))
    | .ok true =>
      copyBitfield bf rest { world with
        conn := { world.conn with mPeerBitfield := world.conn.mPeerBitfield.set i true } }
    | .ok false => copyBitfield bf rest world

def handleBitfield (io : Io) (msg : PeerMessage) (world : World) : Outcome :=
  match BitfieldMessage.fromPeerMessage msg with
  | .error error => (world, .error (.message error))
  | .ok bf =>
    if world.conn.mPeerBitfield.length ≠ pm.mNumPieces then
      (world, .error (.bitfieldSizeMismatch world.conn.mPeerBitfield.length pm.mNumPieces))
    else
      (copyBitfield bf (List.range pm.mNumPieces) world).andThen fun world =>
        if (List.range pm.mNumPieces).any (fun i =>
            world.conn.mPeerBitfield.getD i false && !pm.havePiece i world.pieces) then
          sendInterested io world
        else (world, .ok ())

/-- The end of `handle_piece`, once every block has arrived. -/
def handOff (io : Io) (ifp : InFlightPiece) (world : World) : Outcome :=
  match pm.completePiece w sha1 io.faults ifp.pieceIndex ifp.data world.pieces world.disk with
  | ((pieces, disk), .error error) => ({ world with pieces := pieces, disk := disk }, .error (.piece error))
  | ((pieces, disk), .ok ok) =>
    let returned : World := { world with pieces := pieces, disk := disk }
    let released : Pieces :=
      if !ok && world.conn.mCurrentPieceExclusive then pm.abortPiece ifp.pieceIndex pieces else pieces
    ({ returned with pieces := released, conn := world.conn.resetPiece }, .ok ())

def handlePiece (io : Io) (msg : PeerMessage) (world : World) : Outcome :=
  match PieceMessage.fromPeerMessage msg with
  | .error error => (world, .error (.message error))
  | .ok piece =>
    match world.conn.mCurrentPiece with
    | none => (world, .ok ())
    | some current =>
      if piece.index ≠ current.pieceIndex then (world, .ok ())
      else
        let ifp : InFlightPiece := { current with requestsInFlight := u32 (current.requestsInFlight + 2 ^ 32 - 1) }
        let answered : World := { world with conn := { world.conn with mCurrentPiece := some ifp } }
        let blockIdx := piece.begin_ / blockSize
        if ifp.data.length < u64 (piece.begin_ + piece.block.length) then (answered, .ok ())
        else if ifp.blocksReceived.length ≤ blockIdx ∨ ifp.blocksReceived.getD blockIdx false = true then
          (answered, .ok ())
        else
          let stored : InFlightPiece := { ifp with
            data := overwrite ifp.data piece.begin_ piece.block
            blocksReceived := ifp.blocksReceived.set blockIdx true
            blocksDone := u32 (ifp.blocksDone + 1) }
          let received : World := { world with conn := { world.conn with
            mCurrentPiece := some stored
            mBytesDownloaded := u64 (world.conn.mBytesDownloaded + piece.block.length) } }
          if stored.blocksDone < stored.blocksTotal then (received, .ok ())
          else handOff pm w sha1 io stored received

/-- A block that cannot be read is not served; the connection stays. A copy past the
end of what was read is no exception that could be caught. -/
def handleRequest (io : Io) (msg : PeerMessage) (world : World) : Outcome :=
  match RequestMessage.fromPeerMessage msg with
  | .error error => (world, .error (.message error))
  | .ok req =>
    if world.conn.mAmChoking then (world, .ok ())
    else if req.length = 0 ∨ blockSize < req.length then (world, .ok ())
    else
      match pm.readBlock w io.faults req.index req.begin_ req.length world.pieces world.disk with
      | .error error => (world, if error.isUndefined then .error .undefined else .ok ())
      | .ok block =>
        (sendMessage io (PieceMessage.toPeerMessage ⟨req.index, req.begin_, block⟩) world).andThen fun world =>
          ({ world with conn := { world.conn with
            mBytesUploaded := u64 (world.conn.mBytesUploaded + req.length)
            mBlocksUploaded := u64 (world.conn.mBlocksUploaded + 1) } }, .ok ())

def handleCancel (msg : PeerMessage) (world : World) : Outcome :=
  match CancelMessage.fromPeerMessage msg with
  | .error error => (world, .error (.message error))
  | .ok _ => (world, .ok ())

/-- The switch of `run`. An id it does not name falls through. -/
def handleMessage (io : Io) (msg : PeerMessage) (world : World) : Outcome :=
  match msg.id with
  | .choke => handleChoke pm world
  | .unchoke => handleUnchoke world
  | .interested => handleInterested io world
  | .notInterested => handleNotInterested world
  | .have => handleHave pm io msg world
  | .bitfield => handleBitfield pm io msg world
  | .piece => handlePiece pm w sha1 io msg world
  | .request => handleRequest pm w io msg world
  | .cancel => handleCancel msg world
  | .unnamed _ => (world, .ok ())

/-- One round of the loop of `run` for a message other than a keep-alive. -/
def handleThenFill (io : Io) (msg : PeerMessage) (world : World) : Outcome :=
  (handleMessage pm w sha1 io msg world).andThen (fillRequests pm io)

end PeerConnection

end BittorrentClient
