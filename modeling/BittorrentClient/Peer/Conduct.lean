import BittorrentClient.Peer.Framing
import BittorrentClient.Peer.Swarm
import BittorrentClient.Peer.Transfer
import Mathlib.Logic.Relation

namespace BittorrentClient
open Cpp Splice

/-- The side of a connection that its peer gets to see, and the counters that go with it. -/
structure Talk where
  amChoking : Bool
  amInterested : Bool
  bytesUploaded : Nat
  blocksUploaded : Nat
  sent : List PeerMessage

def PeerConnection.talk (conn : PeerConnection) : Talk :=
  ⟨conn.mAmChoking, conn.mAmInterested, conn.mBytesUploaded, conn.mBlocksUploaded, conn.sent⟩

namespace Talk

/-- All that a connection can say, with what it takes to say it. -/
inductive Utters (P : PieceMessage → Prop) : Talk → Talk → Prop
  | interested {t} : t.amInterested = false →
      Utters P t { t with amInterested := true, sent := t.sent ++ [⟨.interested, []⟩] }
  | unchoke {t} : t.amChoking = true → Utters P t { t with amChoking := false, sent := t.sent ++ [⟨.unchoke, []⟩] }
  | request {t} (range : BlockRange) : t.amInterested = true →
      Utters P t { t with sent := t.sent ++ [RequestMessage.toPeerMessage range] }
  | block {t} (piece : PieceMessage) : t.amChoking = false → P piece →
      Utters P t { t with
        bytesUploaded := u64 (t.bytesUploaded + piece.block.length)
        blocksUploaded := u64 (t.blocksUploaded + 1)
        sent := t.sent ++ [piece.toPeerMessage] }

/-- One thing after another. -/
def Speaks (P : PieceMessage → Prop) : Talk → Talk → Prop := Relation.ReflTransGen (Utters P)

end Talk

namespace PeerConnection
open Talk

variable {P : PieceMessage → Prop} {pm : PieceManager} {w : DiskWriter} {sha1 : Bytes → Sha1Hash} {io : Io}

/-- A statement after a call, when both say what may be said. -/
theorem andThen_speaks {t : Talk} {first : Outcome} {next : World → Outcome} (spoken : Speaks P t first.1.conn.talk)
    (later : ∀ world, first = (world, .ok ()) → Speaks P world.conn.talk (next world).1.conn.talk) :
    Speaks P t (first.andThen next).1.conn.talk := by
  rcases first with ⟨world, result⟩
  cases result with
  | ok => exact spoken.trans (later world rfl)
  | error => exact spoken

theorem sendInterested_speaks (world : World) : Speaks P world.conn.talk (sendInterested io world).1.conn.talk := by
  unfold sendInterested
  split
  case isTrue => exact .refl
  case isFalse fresh =>
    unfold sendMessage
    split
    case isTrue => exact .single (.interested (Bool.eq_false_iff.mpr fresh))
    case isFalse => exact .refl

theorem sendUnchoke_speaks (world : World) : Speaks P world.conn.talk (sendUnchoke io world).1.conn.talk := by
  unfold sendUnchoke
  split
  case isTrue => exact .refl
  case isFalse fresh =>
    unfold sendMessage
    split
    case isTrue =>
      have choking : world.conn.mAmChoking = true := by simpa using fresh
      exact .single (.unchoke choking)
    case isFalse => exact .refl

theorem handleHave_speaks (msg : PeerMessage) (world : World) :
    Speaks P world.conn.talk (handleHave pm io msg world).1.conn.talk := by
  unfold handleHave
  split
  case h_1 => exact .refl
  case h_2 announced _ =>
    split
    case isTrue => exact .refl
    case isFalse =>
      simp only
      split
      case isTrue =>
        exact sendInterested_speaks { world with
          conn := { world.conn with mPeerBitfield := world.conn.mPeerBitfield.set announced.pieceIndex true } }
      case isFalse => exact .refl

theorem copyBitfield_talk (bf : BitfieldMessage) (indices : List Nat) (world : World) :
    (copyBitfield bf indices world).1.conn.talk = world.conn.talk := by
  induction indices generalizing world with
  | nil => rfl
  | cons i rest ih =>
    unfold copyBitfield
    split
    case h_1 => rfl
    case h_2 => exact ih _
    case h_3 => exact ih world

theorem handleBitfield_speaks (msg : PeerMessage) (world : World) :
    Speaks P world.conn.talk (handleBitfield pm io msg world).1.conn.talk := by
  unfold handleBitfield
  split
  case h_1 => exact .refl
  case h_2 bf _ =>
    split
    case isTrue => exact .refl
    case isFalse =>
      refine andThen_speaks ?_ fun copied _ => ?_
      · rw [copyBitfield_talk]
        exact .refl
      · split
        case isTrue => exact sendInterested_speaks copied
        case isFalse => exact .refl

theorem handleChoke_talk (world : World) : (handleChoke pm world).1.conn.talk = world.conn.talk := by
  unfold handleChoke
  simp only
  split
  case h_1 => rfl
  case h_2 => rfl

theorem handOff_talk (ifp : InFlightPiece) (world : World) : (handOff pm w sha1 io ifp world).1.conn.talk = world.conn.talk := by
  unfold handOff
  split
  case h_1 => rfl
  case h_2 => rfl

theorem handlePiece_talk (msg : PeerMessage) (world : World) :
    (handlePiece pm w sha1 io msg world).1.conn.talk = world.conn.talk := by
  unfold handlePiece
  split
  case h_1 => rfl
  case h_2 =>
    split
    case h_1 => rfl
    case h_2 =>
      split
      case isTrue => rfl
      case isFalse =>
        simp only
        split
        case isTrue => rfl
        case isFalse =>
          split
          case isTrue => rfl
          case isFalse =>
            split
            case isTrue => rfl
            case isFalse => exact handOff_talk _ _

theorem handleCancel_talk (msg : PeerMessage) (world : World) : (handleCancel msg world).1.conn.talk = world.conn.talk := by
  unfold handleCancel
  split
  case h_1 => rfl
  case h_2 => rfl

/-- What `read_block` returns to a request has the property that every block served is to have. -/
def Serves (P : PieceMessage → Prop) (pm : PieceManager) (w : DiskWriter) (pieces : Pieces) (disk : Disk) (msg : PeerMessage) : Prop :=
  ∀ faults req block, RequestMessage.fromPeerMessage msg = .ok req → 0 < req.length → req.length ≤ blockSize →
    pm.readBlock w faults req.index req.begin_ req.length pieces disk = .ok block →
      block.length = req.length ∧ P ⟨req.index, req.begin_, block⟩

theorem handleRequest_speaks (msg : PeerMessage) (world : World) (serves : Serves P pm w world.pieces world.disk msg) :
    Speaks P world.conn.talk (handleRequest pm w io msg world).1.conn.talk := by
  unfold handleRequest
  split
  case h_1 => exact .refl
  case h_2 req parsed =>
    split
    case isTrue => exact .refl
    case isFalse unchoked =>
      split
      case isTrue => exact .refl
      case isFalse sized =>
        obtain ⟨positive, bounded⟩ := not_or.mp sized
        split
        case h_1 => exact .refl
        case h_2 block read =>
          obtain ⟨length, served⟩ := serves io.faults req block parsed (Nat.pos_of_ne_zero positive)
            (Nat.not_lt.mp bounded) read
          unfold sendMessage
          split
          case isTrue =>
            have said : Utters P world.conn.talk _ := .block ⟨req.index, req.begin_, block⟩ (Bool.eq_false_iff.mpr unchoked) served
            rw [length] at said
            exact .single said
          case isFalse => exact .refl

theorem handleMessage_speaks (msg : PeerMessage) (world : World) (serves : Serves P pm w world.pieces world.disk msg) :
    Speaks P world.conn.talk (handleMessage pm w sha1 io msg world).1.conn.talk := by
  unfold handleMessage
  split
  case h_1 => exact (handleChoke_talk world).symm ▸ .refl
  case h_2 => exact .refl
  case h_3 => exact sendUnchoke_speaks { world with conn := { world.conn with mPeerInterested := true } }
  case h_4 => exact .refl
  case h_5 => exact handleHave_speaks msg world
  case h_6 => exact handleBitfield_speaks msg world
  case h_7 => exact (handlePiece_talk msg world).symm ▸ .refl
  case h_8 => exact handleRequest_speaks msg world serves
  case h_9 => exact (handleCancel_talk msg world).symm ▸ .refl
  case h_10 => exact .refl

theorem requestLoop_speaks (rounds : Nat) (ifp : InFlightPiece) (world : World) (interested : world.conn.mAmInterested = true) :
    Speaks P world.conn.talk (requestLoop io rounds ifp world).1.conn.talk := by
  induction rounds generalizing ifp world with
  | zero => exact .refl
  | succ rounds ih =>
    unfold requestLoop
    split
    case isTrue =>
      simp only [sendMessage]
      split
      case isTrue =>
        have later := ih ifp.asked { world with conn := world.conn.ask ifp } interested
        exact .head (.request _ interested) later
      case isFalse => exact .refl
    case isFalse => exact .refl

theorem dropFinished_talk (world : World) : (dropFinished pm world).conn.talk = world.conn.talk := by
  unfold dropFinished
  split
  case h_1 =>
    split
    case isTrue => rfl
    case isFalse => rfl
  case h_2 => rfl

theorem pickPiece_talk (world : World) : (pickPiece pm world).conn.talk = world.conn.talk := by
  unfold pickPiece
  split
  case h_1 => rfl
  case h_2 =>
    split
    case h_1 => rfl
    case h_2 => rfl

theorem fillRequests_speaks (world : World) : Speaks P world.conn.talk (fillRequests pm io world).1.conn.talk := by
  unfold fillRequests
  split
  case isTrue => exact .refl
  case isFalse =>
    split
    case isTrue => exact .refl
    case isFalse interested =>
      have same : (pickPiece pm (dropFinished pm world)).conn.talk = world.conn.talk :=
        (pickPiece_talk _).trans (dropFinished_talk world)
      have before : world.conn.mAmInterested = true := by simpa using interested
      have still : (pickPiece pm (dropFinished pm world)).conn.mAmInterested = true :=
        (congrArg Talk.amInterested same).trans before
      simp only
      rw [← same]
      split
      case h_1 => exact .refl
      case h_2 ifp _ => exact requestLoop_speaks maxPipeline ifp _ still

theorem handleThenFill_speaks (msg : PeerMessage) (world : World) (serves : Serves P pm w world.pieces world.disk msg) :
    Speaks P world.conn.talk (handleThenFill pm w sha1 io msg world).1.conn.talk :=
  andThen_speaks (handleMessage_speaks msg world serves) fun next _ => fillRequests_speaks next

end PeerConnection

namespace Talk
variable {P : PieceMessage → Prop} {t t' : Talk}

/-- The blocks of data among the messages, as the peer reads them. -/
def served (t : Talk) : List PieceMessage := t.sent.filterMap fun msg => (PieceMessage.fromPeerMessage msg).toOption

/-- How a connection behaves towards its peer. -/
structure Conduct (P : PieceMessage → Prop) (t : Talk) : Prop where
  unchoke : t.sent.count ⟨.unchoke, []⟩ = if t.amChoking then 0 else 1
  interested : t.sent.count ⟨.interested, []⟩ = if t.amInterested then 1 else 0
  afterUnchoke : ∀ before msg after, t.sent = before ++ msg :: after → msg.id = .piece → ⟨.unchoke, []⟩ ∈ before
  afterInterested : ∀ before msg after, t.sent = before ++ msg :: after → msg.id = .request → ⟨.interested, []⟩ ∈ before
  blocks : ∀ piece ∈ t.served, P piece
  bytesUploaded : t.bytesUploaded = u64 (t.served.map fun piece => piece.block.length).sum
  blocksUploaded : t.blocksUploaded = u64 t.served.length

/-- A message at the end of a list, or somewhere before it. -/
theorem split_append {sent before after : List PeerMessage} {last msg : PeerMessage}
    (split : sent ++ [last] = before ++ msg :: after) :
    (before = sent ∧ msg = last) ∨ ∃ rest, sent = before ++ msg :: rest := by
  rcases List.eq_nil_or_concat after with rfl | ⟨rest, other, rfl⟩
  · obtain ⟨same, last⟩ := List.append_inj' split rfl
    exact Or.inl ⟨same.symm, (List.head_eq_of_cons_eq last).symm⟩
  · rw [List.concat_eq_append, ← List.cons_append, ← List.append_assoc] at split
    exact Or.inr ⟨rest, (List.append_inj' split rfl).1⟩

theorem after_append {sent : List PeerMessage} {last first : PeerMessage} {id : MessageId}
    (old : ∀ before msg after, sent = before ++ msg :: after → msg.id = id → first ∈ before)
    (new : last.id = id → first ∈ sent) :
    ∀ before msg after, sent ++ [last] = before ++ msg :: after → msg.id = id → first ∈ before := by
  intro before msg after split named
  rcases split_append split with ⟨rfl, rfl⟩ | ⟨rest, same⟩
  · exact new named
  · exact old before msg rest same named

theorem served_append (sent : List PeerMessage) (msg : PeerMessage) :
    (sent ++ [msg]).filterMap (fun msg => (PieceMessage.fromPeerMessage msg).toOption) =
      sent.filterMap (fun msg => (PieceMessage.fromPeerMessage msg).toOption) ++
        (PieceMessage.fromPeerMessage msg).toOption.toList := by
  rw [List.filterMap_append, List.filterMap_cons, List.filterMap_nil]
  cases PieceMessage.fromPeerMessage msg with
  | ok piece => rfl
  | error error => rfl

theorem notServed {msg : PeerMessage} (other : msg.id ≠ .piece) : (PieceMessage.fromPeerMessage msg).toOption = none := by
  rw [PieceMessage.fromPeerMessage, if_pos other]
  rfl

namespace Conduct

theorem fresh (pm : PieceManager) : Conduct P (PeerConnection.make pm).talk where
  unchoke := rfl
  interested := rfl
  afterUnchoke := fun before msg after split =>
    absurd split (List.append_ne_nil_of_right_ne_nil before (List.cons_ne_nil msg after)).symm
  afterInterested := fun before msg after split =>
    absurd split (List.append_ne_nil_of_right_ne_nil before (List.cons_ne_nil msg after)).symm
  blocks := fun _ member => absurd member List.not_mem_nil
  bytesUploaded := rfl
  blocksUploaded := rfl

/-- A message that is no block of data. -/
theorem plain (conduct : Conduct P t) {msg : PeerMessage} (other : msg.id ≠ .piece) (amChoking amInterested : Bool)
    (unchoke : (t.sent ++ [msg]).count ⟨.unchoke, []⟩ = if amChoking then 0 else 1)
    (interested : (t.sent ++ [msg]).count ⟨.interested, []⟩ = if amInterested then 1 else 0)
    (request : msg.id = .request → ⟨.interested, []⟩ ∈ t.sent) :
    Conduct P { t with amChoking := amChoking, amInterested := amInterested, sent := t.sent ++ [msg] } := by
  have same : Talk.served { t with amChoking := amChoking, amInterested := amInterested, sent := t.sent ++ [msg] } = t.served := by
    rw [served, served_append, notServed other, Option.toList_none, List.append_nil]
    rfl
  exact ⟨unchoke, interested, after_append conduct.afterUnchoke fun named => absurd named other,
    after_append conduct.afterInterested request, same ▸ conduct.blocks, same ▸ conduct.bytesUploaded, same ▸ conduct.blocksUploaded⟩

theorem count_last (sent : List PeerMessage) {msg last : PeerMessage} (other : last ≠ msg) :
    (sent ++ [last]).count msg = sent.count msg := by
  rw [List.count_append, List.count_singleton, beq_eq_false_iff_ne.mpr other]
  rfl

theorem count_self (sent : List PeerMessage) (msg : PeerMessage) : (sent ++ [msg]).count msg = sent.count msg + 1 := by
  rw [List.count_append, List.count_singleton_self]

/-- What is counted once has been said. -/
theorem mem_of_count {sent : List PeerMessage} {msg : PeerMessage} (once : sent.count msg = 1) : msg ∈ sent :=
  List.count_pos_iff.mp (once ▸ Nat.one_pos)

theorem utters (conduct : Conduct P t) (small : ∀ piece, P piece → piece.index < 2 ^ 32 ∧ piece.begin_ < 2 ^ 32)
    (uttered : Utters P t t') : Conduct P t' := by
  have unchoked := conduct.unchoke
  have wanted := conduct.interested
  cases uttered with
  | interested quiet =>
    rw [quiet, if_neg Bool.false_ne_true] at wanted
    refine conduct.plain (MessageId.noConfusion) t.amChoking true ?_ ?_ fun named => MessageId.noConfusion named
    · rw [count_last _ (by decide), unchoked]
    · rw [count_self, wanted, if_pos rfl]
  | unchoke choking =>
    rw [choking, if_pos rfl] at unchoked
    refine conduct.plain (MessageId.noConfusion) false t.amInterested ?_ ?_ fun named => MessageId.noConfusion named
    · rw [count_self, unchoked, if_neg Bool.false_ne_true]
    · rw [count_last _ (by decide), wanted]
  | request range interested =>
    rw [interested, if_pos rfl] at wanted
    refine conduct.plain (MessageId.noConfusion) t.amChoking t.amInterested ?_ ?_ fun _ => mem_of_count wanted
    · rw [count_last _ fun same => MessageId.noConfusion (congrArg PeerMessage.id same), unchoked]
    · rw [count_last _ fun same => MessageId.noConfusion (congrArg PeerMessage.id same), wanted, interested, if_pos rfl]
  | block piece unchoke holds =>
    obtain ⟨index, begin_⟩ := small piece holds
    have read := PieceMessage.fromPeerMessage_toPeerMessage (.ofNat piece.index) (.ofNat piece.begin_) piece.block
    rw [UInt32.toNat_ofNat_of_lt' index, UInt32.toNat_ofNat_of_lt' begin_] at read
    have more : (t.sent ++ [piece.toPeerMessage]).filterMap (fun msg => (PieceMessage.fromPeerMessage msg).toOption) =
        t.served ++ [piece] := by
      rw [served_append, read]
      rfl
    rw [unchoke, if_neg Bool.false_ne_true] at unchoked
    refine ⟨?_, ?_, after_append conduct.afterUnchoke fun _ => mem_of_count unchoked,
      after_append conduct.afterInterested fun named => MessageId.noConfusion named, ?_, ?_, ?_⟩
    · rw [count_last _ fun same => MessageId.noConfusion (congrArg PeerMessage.id same), unchoked, unchoke,
        if_neg Bool.false_ne_true]
    · rw [count_last _ fun same => MessageId.noConfusion (congrArg PeerMessage.id same), wanted]
    · intro other member
      rw [served, more] at member
      rcases List.mem_append.mp member with old | new
      · exact conduct.blocks other old
      · rw [List.mem_singleton.mp new]
        exact holds
    · rw [served, more, List.map_append, List.sum_append, conduct.bytesUploaded]
      simp only [List.map_cons, List.map_nil, List.sum_cons, List.sum_nil, Nat.add_zero, u64, Nat.mod_add_mod]
    · rw [served, more, List.length_append, conduct.blocksUploaded]
      simp only [List.length_cons, List.length_nil, Nat.zero_add, u64, Nat.mod_add_mod]

theorem speaks (conduct : Conduct P t) (small : ∀ piece, P piece → piece.index < 2 ^ 32 ∧ piece.begin_ < 2 ^ 32)
    (spoken : Speaks P t t') : Conduct P t' := by
  induction spoken with
  | refl => exact conduct
  | tail _ uttered ih => exact ih.utters small uttered

end Conduct

end Talk

end BittorrentClient
