import BittorrentClient.Library.Reach
import BittorrentClient.Peer.Connection

namespace BittorrentClient
open Cpp Splice

namespace InFlightPiece

/-- Whether a block passes the checks of `handle_piece`. -/
def accepts (ifp : InFlightPiece) (piece : PieceMessage) : Bool :=
  u64 (piece.begin_ + piece.block.length) ≤ ifp.data.length &&
    piece.begin_ / blockSize < ifp.blocksReceived.length && !ifp.blocksReceived.getD (piece.begin_ / blockSize) false

/-- A block of the piece has come, whatever is in it. -/
def answered (ifp : InFlightPiece) : InFlightPiece :=
  { ifp with requestsInFlight := u32 (ifp.requestsInFlight + 2 ^ 32 - 1) }

/-- The block is written to the buffer. -/
def stored (ifp : InFlightPiece) (piece : PieceMessage) : InFlightPiece :=
  { ifp with
    requestsInFlight := u32 (ifp.requestsInFlight + 2 ^ 32 - 1)
    data := overwrite ifp.data piece.begin_ piece.block
    blocksReceived := ifp.blocksReceived.set (piece.begin_ / blockSize) true
    blocksDone := u32 (ifp.blocksDone + 1) }

/-- What is left of a piece when one of its blocks arrives. -/
structure Arrived (ifp after : InFlightPiece) : Prop where
  index : after.pieceIndex = ifp.pieceIndex
  length : after.pieceLength = ifp.pieceLength
  offset : after.nextBlockOffset = ifp.nextBlockOffset
  total : after.blocksTotal = ifp.blocksTotal
  inFlight : after.requestsInFlight = u32 (ifp.requestsInFlight + 2 ^ 32 - 1)

theorem arrived_answered (ifp : InFlightPiece) : Arrived ifp ifp.answered := by
  cases ifp
  constructor <;> rfl

theorem arrived_stored (ifp : InFlightPiece) (piece : PieceMessage) : Arrived ifp (ifp.stored piece) := by
  cases ifp
  constructor <;> rfl

/-- The request of the next block. -/
def nextRequest (ifp : InFlightPiece) : PeerMessage :=
  RequestMessage.toPeerMessage
    ⟨ifp.pieceIndex, ifp.nextBlockOffset, min blockSize (ifp.pieceLength - ifp.nextBlockOffset)⟩

/-- The next block is requested. -/
def asked (ifp : InFlightPiece) : InFlightPiece :=
  { ifp with
    nextBlockOffset := u32 (ifp.nextBlockOffset + min blockSize (ifp.pieceLength - ifp.nextBlockOffset))
    requestsInFlight := u32 (ifp.requestsInFlight + 1) }

end InFlightPiece

namespace PeerConnection

/-- The block of the current piece that a message carries. -/
def answer (conn : PeerConnection) (msg : PeerMessage) : Option PieceMessage :=
  match conn.mCurrentPiece, PieceMessage.fromPeerMessage msg with
  | some ifp, .ok piece => if piece.index = ifp.pieceIndex then some piece else none
  | _, _ => none

/-- The connection after a block that it accepts. -/
def received (conn : PeerConnection) (ifp : InFlightPiece) (piece : PieceMessage) : PeerConnection :=
  { conn with
    mCurrentPiece := some (ifp.stored piece)
    mBytesDownloaded := u64 (conn.mBytesDownloaded + piece.block.length) }

/-- The connection after one round of the request loop. -/
def ask (conn : PeerConnection) (ifp : InFlightPiece) : PeerConnection :=
  { conn with mCurrentPiece := some ifp.asked, sent := conn.sent ++ [ifp.nextRequest] }

/-- The requests among the messages sent after the first `mark`. -/
def requestsSince (conn : PeerConnection) (mark : Nat) : List PeerMessage :=
  (conn.sent.drop mark).filter (·.id = .request)

/-- Nothing happens to the current piece: what is sent is no request. -/
structure Quiet (before after : PeerConnection) : Prop where
  piece : after.mCurrentPiece = before.mCurrentPiece
  downloaded : after.mBytesDownloaded = before.mBytesDownloaded
  sent : ∃ others : List PeerMessage, after.sent = before.sent ++ others ∧ ∀ msg ∈ others, msg.id ≠ .request

/-- There is no current piece any more. -/
structure Released (before after : PeerConnection) : Prop where
  piece : after.mCurrentPiece = none
  downloaded : after.mBytesDownloaded = before.mBytesDownloaded
  sent : after.sent = before.sent

namespace Quiet

theorem of_eq {before after : PeerConnection} (piece : after.mCurrentPiece = before.mCurrentPiece)
    (downloaded : after.mBytesDownloaded = before.mBytesDownloaded) (sent : after.sent = before.sent) :
    Quiet before after :=
  ⟨piece, downloaded, [], by rw [sent, List.append_nil], fun _ member => nomatch member⟩

theorem refl (conn : PeerConnection) : Quiet conn conn := of_eq rfl rfl rfl

theorem trans {a b c : PeerConnection} (first : Quiet a b) (second : Quiet b c) : Quiet a c := by
  obtain ⟨others, sent, none⟩ := first.sent
  obtain ⟨others', sent', none'⟩ := second.sent
  refine ⟨second.piece.trans first.piece, second.downloaded.trans first.downloaded, others ++ others', ?_, ?_⟩
  · rw [sent', sent, List.append_assoc]
  · intro msg member
    rcases List.mem_append.mp member with old | new
    · exact none msg old
    · exact none' msg new

theorem since {before middle after : PeerConnection} (later : Quiet middle after)
    (piece : middle.mCurrentPiece = before.mCurrentPiece)
    (downloaded : middle.mBytesDownloaded = before.mBytesDownloaded) (sent : middle.sent = before.sent) :
    Quiet before after :=
  (of_eq piece downloaded sent).trans later

end Quiet

section Quiet
variable {pm : PieceManager} {w : DiskWriter} {io : Io}

theorem andThen_quiet {conn : PeerConnection} {first : Outcome} {next : World → Outcome} (quiet : Quiet conn first.1.conn)
    (later : ∀ world, Quiet conn world.conn → Quiet conn (next world).1.conn) :
    Quiet conn (first.andThen next).1.conn := by
  rcases first with ⟨world, result⟩
  cases result with
  | ok => exact later world quiet
  | error => exact quiet

theorem sendMessage_quiet {msg : PeerMessage} (other : msg.id ≠ .request) (world : World) :
    Quiet world.conn (sendMessage io msg world).1.conn := by
  unfold sendMessage
  split
  · refine ⟨rfl, rfl, [msg], rfl, fun sent member => ?_⟩
    rw [List.mem_singleton.mp member]
    exact other
  · exact .refl _

theorem sendInterested_quiet (world : World) : Quiet world.conn (sendInterested io world).1.conn := by
  unfold sendInterested
  split
  · exact .refl _
  · exact andThen_quiet (sendMessage_quiet (by decide) world) fun _ quiet => quiet.trans (.of_eq rfl rfl rfl)

theorem sendUnchoke_quiet (world : World) : Quiet world.conn (sendUnchoke io world).1.conn := by
  unfold sendUnchoke
  split
  · exact .refl _
  · exact andThen_quiet (sendMessage_quiet (by decide) world) fun _ quiet => quiet.trans (.of_eq rfl rfl rfl)

theorem sendBitfield_quiet (pm : PieceManager) (io : Io) (world : World) : Quiet world.conn (sendBitfield pm io world).1.conn := by
  unfold sendBitfield
  simp only
  split
  · exact .refl _
  · exact sendMessage_quiet (by simp [BitfieldMessage.toPeerMessage]) world

theorem handleHave_quiet (msg : PeerMessage) (world : World) : Quiet world.conn (handleHave pm io msg world).1.conn := by
  unfold handleHave
  split
  · exact .refl _
  · split
    · exact .refl _
    · simp only
      split
      · exact (sendInterested_quiet _).since rfl rfl rfl
      · exact .of_eq rfl rfl rfl

theorem copyBitfield_quiet (bf : BitfieldMessage) (indices : List Nat) (world : World) :
    Quiet world.conn (copyBitfield bf indices world).1.conn := by
  induction indices generalizing world with
  | nil => exact .refl _
  | cons i rest ih =>
    unfold copyBitfield
    split
    · exact .refl _
    · exact (ih _).since rfl rfl rfl
    · exact ih world

theorem handleBitfield_quiet (msg : PeerMessage) (world : World) :
    Quiet world.conn (handleBitfield pm io msg world).1.conn := by
  unfold handleBitfield
  split
  · exact .refl _
  · split
    · exact .refl _
    · refine andThen_quiet (copyBitfield_quiet _ _ world) fun copied quiet => ?_
      split
      · exact quiet.trans (sendInterested_quiet copied)
      · exact quiet

theorem handleRequest_quiet (msg : PeerMessage) (world : World) :
    Quiet world.conn (handleRequest pm w io msg world).1.conn := by
  unfold handleRequest
  split
  · exact .refl _
  · split
    · exact .refl _
    · split
      · exact .refl _
      · split
        · exact .refl _
        · exact andThen_quiet (sendMessage_quiet (by simp [PieceMessage.toPeerMessage]) world)
            fun _ quiet => quiet.trans (.of_eq rfl rfl rfl)

theorem handleCancel_quiet (msg : PeerMessage) (world : World) : Quiet world.conn (handleCancel msg world).1.conn := by
  unfold handleCancel
  split <;> exact .refl _

end Quiet

section Pieces

theorem answer_of_other {conn : PeerConnection} {msg : PeerMessage} (other : msg.id ≠ .piece) : conn.answer msg = none := by
  have refused : PieceMessage.fromPeerMessage msg = .error (.expected .piece) := by
    rw [PieceMessage.fromPeerMessage, if_pos other]
  unfold answer
  rw [refused]
  split
  case h_1 _ impossible => cases impossible
  case h_2 => rfl

theorem handOff_conn (pm : PieceManager) (w : DiskWriter) (sha1 : Bytes → Sha1Hash) (io : Io) (ifp : InFlightPiece)
    (world : World) :
    (handOff pm w sha1 io ifp world).1.conn = world.conn ∨ (handOff pm w sha1 io ifp world).1.conn = world.conn.resetPiece := by
  unfold handOff
  split
  · exact Or.inl rfl
  · exact Or.inr rfl

/-- `handle_piece`: the message is of no use, its block is refused, or it is
stored and, once every block has arrived, the piece handed to the manager. -/
theorem handlePiece_cases (pm : PieceManager) (w : DiskWriter) (sha1 : Bytes → Sha1Hash) (io : Io) (msg : PeerMessage)
    (world : World) :
    (world.conn.answer msg = none ∧ (handlePiece pm w sha1 io msg world).1 = world) ∨
    ∃ ifp piece, world.conn.mCurrentPiece = some ifp ∧ world.conn.answer msg = some piece ∧
      ((ifp.accepts piece = false ∧ (handlePiece pm w sha1 io msg world).1 =
          { world with conn := { world.conn with mCurrentPiece := some ifp.answered } }) ∨
        (ifp.accepts piece = true ∧ handlePiece pm w sha1 io msg world =
          if u32 (ifp.blocksDone + 1) < ifp.blocksTotal then
            ({ world with conn := world.conn.received ifp piece }, .ok ())
          else handOff pm w sha1 io (ifp.stored piece) { world with conn := world.conn.received ifp piece })) := by
  unfold handlePiece answer
  cases parsed : PieceMessage.fromPeerMessage msg with
  | error error =>
    refine Or.inl ⟨?_, rfl⟩
    cases world.conn.mCurrentPiece <;> rfl
  | ok piece =>
    cases current : world.conn.mCurrentPiece with
    | none => exact Or.inl ⟨rfl, rfl⟩
    | some ifp =>
      simp only
      by_cases same : piece.index = ifp.pieceIndex
      · rw [if_pos same, if_neg (not_not_intro same)]
        refine Or.inr ⟨ifp, piece, rfl, rfl, ?_⟩
        by_cases beyond : ifp.data.length < u64 (piece.begin_ + piece.block.length)
        · rw [if_pos beyond]
          refine Or.inl ⟨?_, rfl⟩
          simp only [InFlightPiece.accepts, decide_eq_false (Nat.not_le.mpr beyond), Bool.false_and]
        · rw [if_neg beyond]
          split
          case isTrue duplicate =>
            refine Or.inl ⟨?_, rfl⟩
            rcases duplicate with outside | taken
            · simp only [InFlightPiece.accepts, decide_eq_false (Nat.not_lt.mpr outside), Bool.and_false, Bool.false_and]
            · simp only [InFlightPiece.accepts, taken, Bool.not_true, Bool.and_false]
          case isFalse fresh =>
            rw [not_or, Nat.not_le, Bool.not_eq_true] at fresh
            refine Or.inr ⟨?_, rfl⟩
            simp only [InFlightPiece.accepts, decide_eq_true (Nat.not_lt.mp beyond), decide_eq_true fresh.1, fresh.2,
              Bool.not_false, Bool.and_true]
      · rw [if_neg same, if_pos same]
        exact Or.inl ⟨rfl, rfl⟩

/-- The handlers of the other messages. -/
theorem handleMessage_other (pm : PieceManager) (w : DiskWriter) (sha1 : Bytes → Sha1Hash) (io : Io) (world : World)
    {msg : PeerMessage} (other : msg.id ≠ .piece) :
    Quiet world.conn (handleMessage pm w sha1 io msg world).1.conn ∨
    Released world.conn (handleMessage pm w sha1 io msg world).1.conn := by
  unfold handleMessage
  cases id : msg.id with
  | choke =>
    simp only [handleChoke]
    split
    case h_1 none => exact Or.inr ⟨none, rfl, rfl⟩
    case h_2 => exact Or.inr ⟨rfl, rfl, rfl⟩
  | unchoke => exact Or.inl (.of_eq rfl rfl rfl)
  | interested => exact Or.inl ((sendUnchoke_quiet _).since rfl rfl rfl)
  | notInterested => exact Or.inl (.of_eq rfl rfl rfl)
  | «have» => exact Or.inl (handleHave_quiet msg world)
  | bitfield => exact Or.inl (handleBitfield_quiet msg world)
  | request => exact Or.inl (handleRequest_quiet msg world)
  | piece => exact absurd id other
  | cancel => exact Or.inl (handleCancel_quiet msg world)
  | unnamed => exact Or.inl (.refl _)

end Pieces

section Fill
variable {pm : PieceManager} {io : Io} {world : World}

/-- Rounds of the request loop. -/
inductive Asks : PeerConnection → PeerConnection → Prop
  | done (conn : PeerConnection) : Asks conn conn
  | next {conn after : PeerConnection} {ifp : InFlightPiece} (current : conn.mCurrentPiece = some ifp)
      (room : ifp.requestsInFlight < maxPipeline) (more : ifp.nextBlockOffset < ifp.pieceLength)
      (later : Asks (conn.ask ifp) after) : Asks conn after

theorem requestLoop_asks (rounds : Nat) (ifp : InFlightPiece) (world : World)
    (current : world.conn.mCurrentPiece = some ifp) : Asks world.conn (requestLoop io rounds ifp world).1.conn := by
  induction rounds generalizing ifp world with
  | zero => exact .done _
  | succ rounds ih =>
    unfold requestLoop
    split
    case isFalse => exact .done _
    case isTrue more =>
      simp only [sendMessage]
      split
      case isFalse => exact .done _
      case isTrue =>
        exact .next current more.1 more.2 (ih ifp.asked { world with conn := world.conn.ask ifp } rfl)

/-- Whether `fill_requests` looks for a new piece. -/
def picks (pm : PieceManager) (world : World) : Bool :=
  !world.conn.mPeerChoking && world.conn.mAmInterested && (dropFinished pm world).conn.mCurrentPiece.isNone

/-- Where the request loop starts: with the current piece, or with a new one. -/
structure Starts (pm : PieceManager) (fresh : Bool) (before after : PeerConnection) (ifp : InFlightPiece) : Prop where
  current : after.mCurrentPiece = some ifp
  sent : after.sent = before.sent
  downloaded : after.mBytesDownloaded = before.mBytesDownloaded
  piece : (fresh = false ∧ after = before) ∨ (fresh = true ∧ ∃ index, ifp = newInFlight pm index)

/-- A piece is let go or everything stays. -/
theorem dropFinished_cases (pm : PieceManager) (world : World) :
    dropFinished pm world = world ∨ dropFinished pm world = { world with conn := world.conn.resetPiece } := by
  unfold dropFinished
  split
  · split
    · exact Or.inr rfl
    · exact Or.inl rfl
  · exact Or.inl rfl

/-- `fill_requests`: it waits, finds no piece, or asks for blocks. -/
theorem fillRequests_cases (pm : PieceManager) (io : Io) (world : World) :
    (picks pm world = false ∧ (fillRequests pm io world).1.conn = world.conn) ∨
    world.conn.mPeerChoking = false ∧ world.conn.mAmInterested = true ∧
      ((picks pm world = true ∧ Released world.conn (fillRequests pm io world).1.conn) ∨
        ∃ conn ifp, Starts pm (picks pm world) world.conn conn ifp ∧ Asks conn (fillRequests pm io world).1.conn) := by
  unfold fillRequests picks
  cases choking : world.conn.mPeerChoking with
  | true => exact Or.inl ⟨rfl, rfl⟩
  | false =>
    cases interested : world.conn.mAmInterested with
    | false => exact Or.inl ⟨rfl, rfl⟩
    | true =>
      refine Or.inr ⟨rfl, rfl, ?_⟩
      have dropped := dropFinished_cases pm world
      generalize dropFinished pm world = left at dropped ⊢
      have sent : left.conn.sent = world.conn.sent := by rcases dropped with rfl | rfl <;> rfl
      have downloaded : left.conn.mBytesDownloaded = world.conn.mBytesDownloaded := by
        rcases dropped with rfl | rfl <;> rfl
      simp only [Bool.false_eq_true, if_false, Bool.not_true, Bool.not_false, Bool.true_and]
      cases current : left.conn.mCurrentPiece with
      | some ifp =>
        have same : left = world := by
          rcases dropped with rfl | rfl
          · rfl
          · cases current
        subst same
        have picked : pickPiece pm left = left := by simp only [pickPiece, current]
        rw [picked, current]
        exact Or.inr ⟨left.conn, ifp, ⟨current, rfl, rfl, Or.inl ⟨rfl, rfl⟩⟩, requestLoop_asks maxPipeline _ _ current⟩
      | none =>
        rcases found : pm.nextNeeded left.conn.mPeerBitfield left.pieces with ⟨none | pick, pieces⟩
        · have picked : pickPiece pm left = { left with pieces := pieces } := by simp only [pickPiece, current, found]
          rw [picked]
          simp only [current]
          exact Or.inl ⟨rfl, current, downloaded, sent⟩
        · obtain ⟨next, picked, fresh, sent', downloaded'⟩ : ∃ next, pickPiece pm left = next ∧
              next.conn.mCurrentPiece = some (newInFlight pm pick.index) ∧ next.conn.sent = left.conn.sent ∧
              next.conn.mBytesDownloaded = left.conn.mBytesDownloaded := by
            simp only [pickPiece, current, found]
            exact ⟨_, rfl, rfl, rfl, rfl⟩
          rw [picked, fresh]
          exact Or.inr ⟨next.conn, _, ⟨fresh, sent'.trans sent, downloaded'.trans downloaded, Or.inr ⟨rfl, pick.index, rfl⟩⟩,
            requestLoop_asks maxPipeline _ _ fresh⟩

end Fill

end PeerConnection

/-- A call of `complete_piece`: the piece with its buffer, the blocks that were
accepted for it, and `m_bytes_downloaded` when it was picked and at the call. -/
structure Assembly where
  piece : InFlightPiece
  blocks : List PieceMessage
  bytesBefore : Nat
  bytesAfter : Nat

/-- What has happened since the current piece was picked: after how many
messages it was, the blocks that were accepted and the offsets of all that came.
`assembled` lists the calls of `complete_piece` in the whole run. -/
structure TransferLog where
  mark : Nat
  bytesBefore : Nat
  blocks : List PieceMessage
  answers : List Nat
  assembled : List Assembly

namespace TransferLog

def start : TransferLog := ⟨0, 0, [], [], []⟩

/-- A new piece is picked. -/
def repick (log : TransferLog) (conn : PeerConnection) : TransferLog :=
  { log with mark := conn.sent.length, bytesBefore := conn.mBytesDownloaded, blocks := [], answers := [] }

/-- A block of the current piece arrives. -/
def note (log : TransferLog) (conn : PeerConnection) (ifp : InFlightPiece) (piece : PieceMessage) : TransferLog :=
  let answered := { log with answers := log.answers ++ [piece.begin_] }
  if ifp.accepts piece then
    let stored := { answered with blocks := log.blocks ++ [piece] }
    if u32 (ifp.blocksDone + 1) < ifp.blocksTotal then stored
    else { stored with assembled := log.assembled ++
      [⟨ifp.stored piece, stored.blocks, log.bytesBefore, (conn.received ifp piece).mBytesDownloaded⟩] }
  else answered

section Note
variable (log : TransferLog) (conn : PeerConnection) (ifp : InFlightPiece) (piece : PieceMessage)

theorem note_mark : (log.note conn ifp piece).mark = log.mark := by
  unfold note
  simp only
  split
  · split <;> rfl
  · rfl

theorem note_answers : (log.note conn ifp piece).answers = log.answers ++ [piece.begin_] := by
  unfold note
  simp only
  split
  · split <;> rfl
  · rfl

theorem note_refused (refused : ifp.accepts piece = false) :
    log.note conn ifp piece = { log with answers := log.answers ++ [piece.begin_] } := by
  simp only [note, refused, Bool.false_eq_true, if_false]

theorem note_accepted (accepted : ifp.accepts piece = true) :
    (log.note conn ifp piece).blocks = log.blocks ++ [piece] ∧ (log.note conn ifp piece).bytesBefore = log.bytesBefore ∧
      ((log.note conn ifp piece).assembled = log.assembled ∨
        (¬ u32 (ifp.blocksDone + 1) < ifp.blocksTotal ∧ (log.note conn ifp piece).assembled = log.assembled ++
          [⟨ifp.stored piece, log.blocks ++ [piece], log.bytesBefore, (conn.received ifp piece).mBytesDownloaded⟩])) := by
  simp only [note, accepted, if_true]
  split
  case isTrue => exact ⟨rfl, rfl, Or.inl rfl⟩
  case isFalse last => exact ⟨rfl, rfl, Or.inr ⟨last, rfl⟩⟩

end Note

/-- A message is handled. -/
def noteMessage (log : TransferLog) (conn : PeerConnection) (msg : PeerMessage) : TransferLog :=
  match conn.mCurrentPiece, conn.answer msg with
  | some ifp, some piece => log.note conn ifp piece
  | _, _ => log

theorem noteMessage_none (log : TransferLog) {conn : PeerConnection} {msg : PeerMessage} (none : conn.answer msg = none) :
    log.noteMessage conn msg = log := by
  unfold noteMessage
  rw [none]
  cases conn.mCurrentPiece <;> rfl

end TransferLog

/-- Where `run` is: before a message, between a handler and `fill_requests`, or
left by an exception. -/
inductive TransferPhase
  | receiving
  | filling
  | ended

/-- One connection in its loop, and what it has done so far. -/
structure Transfer where
  conn : PeerConnection
  phase : TransferPhase
  log : TransferLog

namespace Transfer
open PeerConnection

/-- The two halves of a round of `run`, each with what the other connections
have made of the shared state by then. -/
inductive Label
  | message (msg : PeerMessage) (io : Io) (pieces : Pieces) (disk : Disk)
  | fill (io : Io) (pieces : Pieces) (disk : Disk)

def phaseAfter (next : TransferPhase) (result : Except PeerError Unit) : TransferPhase :=
  match result with
  | .ok _ => next
  | .error _ => .ended

variable (pm : PieceManager) (w : DiskWriter) (sha1 : Bytes → Sha1Hash)

def step (s : Transfer) : Label → Option Transfer
  | .message msg io pieces disk =>
    match s.phase with
    | .receiving =>
      let (world, result) := handleMessage pm w sha1 io msg ⟨s.conn, pieces, disk⟩
      some ⟨world.conn, phaseAfter .filling result, s.log.noteMessage s.conn msg⟩
    | _ => none
  | .fill io pieces disk =>
    match s.phase with
    | .filling =>
      let (world, result) := fillRequests pm io ⟨s.conn, pieces, disk⟩
      let log := if picks pm ⟨s.conn, pieces, disk⟩ then s.log.repick s.conn else s.log
      some ⟨world.conn, phaseAfter .receiving result, log⟩
    | _ => none

/-- After `connect`, which ends with `send_bitfield`. -/
def Initial (s : Transfer) : Prop :=
  ∃ io pieces disk, s = ⟨(sendBitfield pm io ⟨.make pm, pieces, disk⟩).1.conn, .receiving, .start⟩

/-- The requests sent since the current piece was picked. -/
def requests (s : Transfer) : List PeerMessage := s.conn.requestsSince s.log.mark

section Steps
variable {pm : PieceManager} {w : DiskWriter} {sha1 : Bytes → Sha1Hash} {s s' : Transfer}

/-- An entry is written exactly where `handle_piece` calls `complete_piece`, and it
is about the piece of that call; elsewhere what the connections share stays. -/
theorem completePiece_logged (pm : PieceManager) (w : DiskWriter) (sha1 : Bytes → Sha1Hash) (io : Io)
    (log : TransferLog) (msg : PeerMessage) (world : World) :
    ((log.noteMessage world.conn msg).assembled = log.assembled ∧
      (handlePiece pm w sha1 io msg world).1.pieces = world.pieces ∧
      (handlePiece pm w sha1 io msg world).1.disk = world.disk) ∨
    ∃ ifp piece entry, world.conn.mCurrentPiece = some ifp ∧ world.conn.answer msg = some piece ∧
      (log.noteMessage world.conn msg).assembled = log.assembled ++ [entry] ∧ entry.piece = ifp.stored piece ∧
      entry.bytesAfter = (world.conn.received ifp piece).mBytesDownloaded ∧
      handlePiece pm w sha1 io msg world =
        handOff pm w sha1 io entry.piece { world with conn := world.conn.received ifp piece } := by
  rcases handlePiece_cases pm w sha1 io msg world with ⟨none, same⟩ | ⟨ifp, piece, current, answered, outcome⟩
  · rw [TransferLog.noteMessage_none log none, same]
    exact Or.inl ⟨rfl, rfl, rfl⟩
  have noted : log.noteMessage world.conn msg = log.note world.conn ifp piece := by
    rw [TransferLog.noteMessage, current, answered]
  rw [noted]
  rcases outcome with ⟨refused, whole⟩ | ⟨accepted, whole⟩
  · rw [TransferLog.note_refused _ _ _ _ refused, whole]
    exact Or.inl ⟨rfl, rfl, rfl⟩
  · simp only [TransferLog.note, accepted, if_true]
    split
    case isTrue more =>
      rw [whole, if_pos more]
      exact Or.inl ⟨rfl, rfl, rfl⟩
    case isFalse last =>
      rw [if_neg last] at whole
      exact Or.inr ⟨ifp, piece, _, current, answered, rfl, rfl, rfl, whole⟩

/-- What a message does to the current piece: nothing, a choke ends it, or a
block of it arrives. -/
theorem message_cases {msg : PeerMessage} {io : Io} {pieces : Pieces} {disk : Disk}
    (run : step pm w sha1 s (.message msg io pieces disk) = some s') :
    (Quiet s.conn s'.conn ∧ s'.log = s.log) ∨
    (Released s.conn s'.conn ∧ s'.log = s.log) ∨
    ∃ ifp piece, s.conn.mCurrentPiece = some ifp ∧ s.conn.answer msg = some piece ∧ s'.log = s.log.note s.conn ifp piece ∧
      ((ifp.accepts piece = false ∧ s'.conn = { s.conn with mCurrentPiece := some ifp.answered }) ∨
        (ifp.accepts piece = true ∧
          (s'.conn = s.conn.received ifp piece ∨ s'.conn = (s.conn.received ifp piece).resetPiece))) := by
  simp only [step] at run
  split at run
  case h_2 => cases run
  case h_1 =>
    cases Option.some.inj run
    simp only
    by_cases carries : msg.id = .piece
    · have handled : handleMessage pm w sha1 io msg ⟨s.conn, pieces, disk⟩ =
          handlePiece pm w sha1 io msg ⟨s.conn, pieces, disk⟩ := by simp only [handleMessage, carries]
      rw [handled]
      rcases handlePiece_cases pm w sha1 io msg ⟨s.conn, pieces, disk⟩ with
        ⟨none, same⟩ | ⟨ifp, piece, current, answered, outcome⟩
      · rw [same, TransferLog.noteMessage_none s.log none]
        exact Or.inl ⟨.refl _, rfl⟩
      · change s.conn.mCurrentPiece = some ifp at current
        refine Or.inr (Or.inr ⟨ifp, piece, current, answered, ?_, ?_⟩)
        · rw [TransferLog.noteMessage, current, answered]
        · rcases outcome with ⟨refused, whole⟩ | ⟨accepted, whole⟩
          · exact Or.inl ⟨refused, congrArg World.conn whole⟩
          · refine Or.inr ⟨accepted, ?_⟩
            rw [whole]
            split
            · exact Or.inl rfl
            · exact handOff_conn pm w sha1 io (ifp.stored piece) _
    · rw [TransferLog.noteMessage_none s.log (answer_of_other carries)]
      rcases handleMessage_other pm w sha1 io ⟨s.conn, pieces, disk⟩ carries with quiet | released
      · exact Or.inl ⟨quiet, rfl⟩
      · exact Or.inr (Or.inl ⟨released, rfl⟩)

/-- What `fill_requests` does: nothing, it looks for a piece in vain, or it asks
for blocks of the current piece or of a new one. -/
theorem fill_cases {io : Io} {pieces : Pieces} {disk : Disk} (run : step pm w sha1 s (.fill io pieces disk) = some s') :
    (s'.conn = s.conn ∧ s'.log = s.log) ∨
    s.conn.mPeerChoking = false ∧ s.conn.mAmInterested = true ∧
      ((Released s.conn s'.conn ∧ s'.log = s.log.repick s.conn) ∨
        ∃ conn ifp fresh, Starts pm fresh s.conn conn ifp ∧ Asks conn s'.conn ∧
          s'.log = if fresh then s.log.repick s.conn else s.log) := by
  simp only [step] at run
  split at run
  case h_2 => cases run
  case h_1 =>
    cases Option.some.inj run
    rcases fillRequests_cases pm io ⟨s.conn, pieces, disk⟩ with
      ⟨waits, same⟩ | ⟨choking, interested, ⟨looked, released⟩ | ⟨conn, ifp, starts, asks⟩⟩
    · refine Or.inl ⟨same, ?_⟩
      simp only [waits, Bool.false_eq_true, if_false]
    · refine Or.inr ⟨choking, interested, Or.inl ⟨released, ?_⟩⟩
      simp only [looked, if_true]
    · exact Or.inr ⟨choking, interested, Or.inr ⟨conn, ifp, _, starts, asks, rfl⟩⟩

end Steps

end Transfer

end BittorrentClient
