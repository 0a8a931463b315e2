import BittorrentClient.Peer.Conduct
import BittorrentClient.Library.Outcome
import BittorrentClient.Peer.Claims
import BittorrentClient.Peer.FailedWrite
import BittorrentClient.Pieces.OnDisk

namespace BittorrentClient
open Cpp Splice

section ReadBlock
variable {pm : PieceManager} {w : DiskWriter} {pieces : Pieces} {disk : Disk} {faults : IoFaults}
  {index begin_ length : Nat} {block : Bytes}

/-- What is behind a block that `read_block` returns. -/
theorem PieceManager.readBlock_ok (read : pm.readBlock w faults index begin_ length pieces disk = .ok block) :
    index < pm.mNumPieces ∧ pieces.mHave index = true ∧ begin_ + length ≤ pm.pieceLength index ∧
      ∃ piece, w.readPiece faults index disk = .ok piece ∧ begin_ + length ≤ piece.length ∧ block = slice piece begin_ length := by
  rw [readBlock] at read
  split at read
  case isTrue => cases read
  case isFalse available =>
    have have_ : pm.havePiece index pieces = true := by simpa using available
    simp only [havePiece, Bool.and_eq_true, decide_eq_true_eq] at have_
    obtain ⟨_, checked, read⟩ := bind_eq_ok.mp read
    have inside : begin_ + length ≤ pm.pieceLength index := by
      simp only [checkRange] at checked
      split at checked
      case isTrue => cases checked
      case isFalse inside =>
        obtain ⟨first, second⟩ := not_or.mp inside
        omega
    split at read
    case h_1 => cases read
    case h_2 piece found =>
      rw [copyBlock] at read
      split at read
      case isTrue fits =>
        cases read
        exact ⟨have_.1, have_.2, inside, piece, found, fits, rfl⟩
      case isFalse => cases read

theorem length_slice_of_le {xs : Bytes} (fits : begin_ + length ≤ xs.length) : (slice xs begin_ length).length = length := by
  rw [slice, List.length_take, List.length_drop]
  omega

end ReadBlock

/-- A block that lies within its piece, of a size that a peer may ask for. -/
def PieceMessage.Within (pm : PieceManager) (piece : PieceMessage) : Prop :=
  piece.index < pm.mNumPieces ∧ 0 < piece.block.length ∧ piece.block.length ≤ blockSize ∧
    piece.begin_ + piece.block.length ≤ pm.pieceLength piece.index

theorem PieceMessage.Within.small {pm : PieceManager} {piece : PieceMessage} (within : piece.Within pm) :
    piece.index < 2 ^ 32 ∧ piece.begin_ < 2 ^ 32 := by
  obtain ⟨index, _, _, inside⟩ := within
  have first := pm.numPieces_lt
  have second := pm.pieceLength_lt piece.index
  omega

namespace PeerConnection
variable {pm : PieceManager} {w : DiskWriter} {sha1 : Bytes → Sha1Hash} {io : Io}

theorem serves_within (pieces : Pieces) (disk : Disk) (msg : PeerMessage) :
    Serves (PieceMessage.Within pm) pm w pieces disk msg := by
  intro faults req block _ positive bounded read
  obtain ⟨below, _, inside, piece, _, fits, rfl⟩ := PieceManager.readBlock_ok read
  have size := length_slice_of_le fits
  refine ⟨size, below, ?_, ?_, ?_⟩
  · rw [size]
    exact positive
  · rw [size]
    exact bounded
  · rw [size]
    exact inside

end PeerConnection

/-- What the handlers of all connections share and rely on: the flags and the files. -/
def World.store (world : World) : (Nat → Bool) × Disk := (world.pieces.mHave, world.disk)

/-- What may have become of the flags and the files: they are as before, or a piece was
handed to the manager. -/
def Stores (pm : PieceManager) (w : DiskWriter) (sha1 : Bytes → Sha1Hash) (faults : IoFaults) (world : World) (outcome : Outcome) :
    Prop :=
  outcome.1.store = world.store ∨
    ∃ index data, outcome.1.store = ((pm.completePiece w sha1 faults index data world.pieces world.disk).1.1.mHave,
      (pm.completePiece w sha1 faults index data world.pieces world.disk).1.2)

section Store
variable {pm : PieceManager} {w : DiskWriter} {sha1 : Bytes → Sha1Hash} {io : Io} {world : World}

namespace PeerConnection

theorem abortPiece_mHave (index : Nat) (pieces : Pieces) : (pm.abortPiece index pieces).mHave = pieces.mHave := by
  unfold PieceManager.abortPiece
  split
  case isTrue => rfl
  case isFalse =>
    split
    case isTrue => rfl
    case isFalse => rfl

theorem releaseClaim_mHave (world : World) : (releaseClaim pm world).mHave = world.pieces.mHave := by
  unfold releaseClaim
  split
  case h_1 =>
    split
    case isTrue => exact abortPiece_mHave _ _
    case isFalse => rfl
  case h_2 => rfl

theorem sendMessage_store (msg : PeerMessage) (world : World) : (sendMessage io msg world).1.store = world.store := by
  unfold sendMessage
  split
  case isTrue => rfl
  case isFalse => rfl

theorem andThen_store {store : (Nat → Bool) × Disk} {first : Outcome} {next : World → Outcome} (same : first.1.store = store)
    (later : ∀ world, world.store = store → (next world).1.store = store) : (first.andThen next).1.store = store := by
  obtain ⟨middle, result⟩ := first
  cases result with
  | ok => exact later middle same
  | error => exact same

theorem sendInterested_store (world : World) : (sendInterested io world).1.store = world.store := by
  unfold sendInterested
  split
  case isTrue => rfl
  case isFalse => exact andThen_store (sendMessage_store _ world) fun _ same => same

theorem sendUnchoke_store (world : World) : (sendUnchoke io world).1.store = world.store := by
  unfold sendUnchoke
  split
  case isTrue => rfl
  case isFalse => exact andThen_store (sendMessage_store _ world) fun _ same => same

theorem handleChoke_store (world : World) : (handleChoke pm world).1.store = world.store := by
  unfold handleChoke
  simp only
  split
  case h_1 => rfl
  case h_2 => exact congrArg (·, world.disk) (releaseClaim_mHave _)

theorem handleHave_store (msg : PeerMessage) (world : World) : (handleHave pm io msg world).1.store = world.store := by
  unfold handleHave
  split
  case h_1 => rfl
  case h_2 =>
    split
    case isTrue => rfl
    case isFalse =>
      simp only
      split
      case isTrue => exact sendInterested_store _
      case isFalse => rfl

theorem copyBitfield_store (bf : BitfieldMessage) (indices : List Nat) (world : World) :
    (copyBitfield bf indices world).1.store = world.store := by
  induction indices generalizing world with
  | nil => rfl
  | cons i rest ih =>
    unfold copyBitfield
    split
    case h_1 => rfl
    case h_2 => exact ih _
    case h_3 => exact ih world

theorem handleBitfield_store (msg : PeerMessage) (world : World) : (handleBitfield pm io msg world).1.store = world.store := by
  unfold handleBitfield
  split
  case h_1 => rfl
  case h_2 =>
    split
    case isTrue => rfl
    case isFalse =>
      refine andThen_store (copyBitfield_store _ _ world) fun copied same => ?_
      split
      case isTrue => exact (sendInterested_store copied).trans same
      case isFalse => exact same

theorem handleRequest_store (msg : PeerMessage) (world : World) : (handleRequest pm w io msg world).1.store = world.store := by
  unfold handleRequest
  split
  case h_1 => rfl
  case h_2 =>
    split
    case isTrue => rfl
    case isFalse =>
      split
      case isTrue => rfl
      case isFalse =>
        split
        case h_1 => rfl
        case h_2 => exact andThen_store (sendMessage_store _ world) fun _ same => same

theorem handleCancel_store (msg : PeerMessage) (world : World) : (handleCancel msg world).1.store = world.store := by
  unfold handleCancel
  split
  case h_1 => rfl
  case h_2 => rfl

theorem handOff_store (ifp : InFlightPiece) (world : World) : (handOff pm w sha1 io ifp world).1.store =
    ((pm.completePiece w sha1 io.faults ifp.pieceIndex ifp.data world.pieces world.disk).1.1.mHave,
      (pm.completePiece w sha1 io.faults ifp.pieceIndex ifp.data world.pieces world.disk).1.2) := by
  unfold handOff
  split
  case h_1 pieces disk error outcome =>
    rw [outcome]
    rfl
  case h_2 pieces disk ok outcome =>
    rw [outcome]
    simp only [World.store]
    split
    case isTrue => rw [abortPiece_mHave]
    case isFalse => rfl

theorem handlePiece_stores (msg : PeerMessage) (world : World) : Stores pm w sha1 io.faults world (handlePiece pm w sha1 io msg world) := by
  unfold handlePiece
  split
  case h_1 => exact Or.inl rfl
  case h_2 =>
    split
    case h_1 => exact Or.inl rfl
    case h_2 =>
      split
      case isTrue => exact Or.inl rfl
      case isFalse =>
        simp only
        split
        case isTrue => exact Or.inl rfl
        case isFalse =>
          split
          case isTrue => exact Or.inl rfl
          case isFalse =>
            split
            case isTrue => exact Or.inl rfl
            case isFalse => exact Or.inr ⟨_, _, handOff_store _ { world with conn := _ }⟩

/-- A message that brings no block leaves the flags and the files alone. -/
theorem handleMessage_store {msg : PeerMessage} (other : msg.id ≠ .piece) (world : World) :
    (handleMessage pm w sha1 io msg world).1.store = world.store := by
  unfold handleMessage
  split
  case h_1 => exact handleChoke_store world
  case h_2 => rfl
  case h_3 => exact sendUnchoke_store _
  case h_4 => rfl
  case h_5 => exact handleHave_store msg world
  case h_6 => exact handleBitfield_store msg world
  case h_7 named => exact absurd named other
  case h_8 => exact handleRequest_store msg world
  case h_9 => exact handleCancel_store msg world
  case h_10 => rfl

theorem handleMessage_stores (msg : PeerMessage) (world : World) :
    Stores pm w sha1 io.faults world (handleMessage pm w sha1 io msg world) := by
  by_cases named : msg.id = .piece
  · rw [handleMessage, named]
    exact handlePiece_stores msg world
  · exact Or.inl (handleMessage_store named world)

theorem requestLoop_store (rounds : Nat) (ifp : InFlightPiece) (world : World) :
    (requestLoop io rounds ifp world).1.store = world.store := by
  induction rounds generalizing ifp world with
  | zero => rfl
  | succ rounds ih =>
    unfold requestLoop
    split
    case isTrue => exact andThen_store (sendMessage_store _ world) fun _ same => (ih _ _).trans same
    case isFalse => rfl

theorem pickPiece_store (world : World) : (pickPiece pm world).store = world.store := by
  unfold pickPiece
  split
  case h_1 => rfl
  case h_2 =>
    rcases pm.nextNeeded_cases world.conn.mPeerBitfield world.pieces with none_ | ⟨i, endgame⟩ | ⟨i, _, _, claim⟩
    · rw [none_]
    · rw [endgame]
      rfl
    · rw [claim]
      rfl

theorem fillRequests_store (world : World) : (fillRequests pm io world).1.store = world.store := by
  unfold fillRequests
  split
  case isTrue => rfl
  case isFalse =>
    split
    case isTrue => rfl
    case isFalse =>
      have same : (pickPiece pm (dropFinished pm world)).store = world.store := by
        rw [pickPiece_store]
        rcases dropFinished_cases pm world with kept | dropped
        · rw [kept]
        · rw [dropped]
          rfl
      simp only
      split
      case h_1 => exact same
      case h_2 => exact (requestLoop_store maxPipeline _ _).trans same

theorem handleThenFill_stores (msg : PeerMessage) (world : World) :
    Stores pm w sha1 io.faults world (handleThenFill pm w sha1 io msg world) := by
  have handled := @handleMessage_stores pm w sha1 io msg world
  unfold handleThenFill
  generalize handleMessage pm w sha1 io msg world = outcome at handled ⊢
  obtain ⟨middle, result⟩ := outcome
  cases result with
  | error error => exact handled
  | ok =>
    have filled := @fillRequests_store pm io middle
    rcases handled with same | ⟨index, data, same⟩
    · exact Or.inl (filled.trans same)
    · exact Or.inr ⟨index, data, filled.trans same⟩

end PeerConnection

end Store

/-- Nothing goes wrong on the disk or on the line. -/
def calmIo : Io := ⟨.none, fun _ => true, false⟩

namespace Swarm
open Machine PeerConnection Talk

variable {pm : PieceManager} {w : DiskWriter} {sha1 : Bytes → Sha1Hash} {s s' : Swarm} {P : PieceMessage → Prop}

/-- Every live connection has kept to the protocol. -/
def Courteous (P : PieceMessage → Prop) (s : Swarm) : Prop := ∀ id conn, s.conns id = some conn → Conduct P conn.talk

theorem Courteous.update {s : Swarm} (courteous : Courteous P s) {pieces : Pieces} {disk : Disk} {id : Nat}
    {conn : Option PeerConnection} (good : ∀ live, conn = some live → Conduct P live.talk) :
    Courteous P ⟨pieces, disk, Function.update s.conns id conn⟩ := by
  intro other live found
  by_cases same : other = id
  · subst same
    simp only [Function.update_self] at found
    exact good live found
  · simp only [Function.update_of_ne same] at found
    exact courteous other live found

theorem Courteous.step {label : Label} (courteous : Courteous P s)
    (small : ∀ piece, P piece → piece.index < 2 ^ 32 ∧ piece.begin_ < 2 ^ 32)
    (serves : ∀ id msg io, label = .message id msg io → Serves P pm w s.pieces s.disk msg)
    (run : step pm w sha1 s label = some s') : Courteous P s' := by
  cases label with
  | open_ id =>
    rw [Swarm.step] at run
    split at run
    case h_1 => cases run
    case h_2 =>
      cases run
      refine courteous.update fun live found => ?_
      cases found
      exact .fresh pm
  | message id msg io =>
    obtain ⟨conn, live, went⟩ := step_message run
    have spoken := @handleThenFill_speaks P pm w sha1 io msg ⟨conn, s.pieces, s.disk⟩ (serves id msg io rfl)
    have conduct := (courteous id conn live).speaks small spoken
    rcases went with ⟨world, outcome, rfl⟩ | ⟨world, error, outcome, _, rfl⟩
    · rw [outcome] at conduct
      refine courteous.update fun live' found => ?_
      cases found
      exact conduct
    · exact courteous.update fun _ found => by cases found
  | drop id =>
    rw [Swarm.step] at run
    split at run
    case h_1 => cases run
    case h_2 =>
      cases run
      exact courteous.update fun _ found => by cases found

/-- Whatever a peer sends, and however its connection ends, that connection has kept to the
protocol, unless a copy ran past the end of a piece that was read: blocks of data only
after the one unchoke, requests only after the one interested, blocks only from within
their piece and of a size that may be asked for, and counters that count just these
blocks. -/
theorem uploads_conducted (reach : Reach Initial (step pm w sha1) unguarded s) {id : Nat} {conn : PeerConnection}
    (live : s.conns id = some conn) (msg : PeerMessage) (io : Io) :
    Conduct (PieceMessage.Within pm) conn.talk ∧
      ((handleThenFill pm w sha1 io msg ⟨conn, s.pieces, s.disk⟩).2 ≠ .error .undefined →
        Conduct (PieceMessage.Within pm) (handleThenFill pm w sha1 io msg ⟨conn, s.pieces, s.disk⟩).1.conn.talk) := by
  have small : ∀ piece, PieceMessage.Within pm piece → piece.index < 2 ^ 32 ∧ piece.begin_ < 2 ^ 32 := fun _ within => within.small
  have courteous : Courteous (PieceMessage.Within pm) s := by
    refine reach.invariant (fun s initial id conn live => ?_) fun s s' label courteous _ run =>
      courteous.step small (fun _ msg _ _ => serves_within s.pieces s.disk msg) run
    rw [initial.2 id] at live
    cases live
  have spoken := @handleThenFill_speaks _ pm w sha1 io msg ⟨conn, s.pieces, s.disk⟩ (serves_within s.pieces s.disk msg)
  exact ⟨courteous id conn live, fun _ => (courteous id conn live).speaks small spoken⟩

/-- One peer sends us the only piece, and another one says that it is interested. -/
def seedingLabels : List Label :=
  [.open_ 0, .message 0 ⟨.have, [0, 0, 0, 0]⟩ calmIo, .message 0 ⟨.unchoke, []⟩ calmIo,
    .message 0 (PieceMessage.toPeerMessage ⟨0, 0, [1]⟩) calmIo, .open_ 1, .message 1 ⟨.interested, []⟩ calmIo]

def seedingStart : Swarm := ⟨.fresh, Threads.oneByteStart.disk, fun _ => none⟩

theorem seedingStart_initial : Initial seedingStart := ⟨rfl, fun _ => rfl⟩

theorem seeding_runs : (exec (step oneByte oneByteWriter oneByteSha1) unguarded seedingStart seedingLabels).isSome = true := by
  decide +kernel

theorem seeding_up : ((Option.get _ seeding_runs).conns 1).isSome = true := by decide +kernel

/-- The second peer asks for the byte and gets it. -/
theorem uploads_conducted_seeding :
    ∃ s conn, exec (step oneByte oneByteWriter oneByteSha1) unguarded seedingStart seedingLabels = some s ∧
      s.conns 1 = some conn ∧ ∃ talk, talk = (handleThenFill oneByte oneByteWriter oneByteSha1 calmIo
        (RequestMessage.toPeerMessage ⟨0, 0, 1⟩) ⟨conn, s.pieces, s.disk⟩).1.conn.talk ∧
      Conduct (PieceMessage.Within oneByte) talk ∧ talk.served.length = 1 := by
  have run := (Option.some_get seeding_runs).symm
  have reach := (Reach.start seedingStart_initial).exec run
  have live := (Option.some_get seeding_up).symm
  refine ⟨_, _, run, live, _, rfl, (uploads_conducted reach live _ _).2 (by decide +kernel), ?_⟩
  decide +kernel

end Swarm

end BittorrentClient
