import BittorrentClient.Peer.Assembled
import BittorrentClient.Peer.Framing
import BittorrentClient.Peer.Progress
import Mathlib.Algebra.BigOperators.Fin
import Mathlib.Algebra.Order.BigOperators.Group.Finset

namespace BittorrentClient
open Cpp Machine Splice

namespace InFlightPiece

/-- The piece after `asked` of its blocks have been asked for and the first `done` have come. -/
def fed (index : Nat) (content : Bytes) (asked done : Nat) : InFlightPiece where
  pieceIndex := index
  pieceLength := content.length
  nextBlockOffset := min (asked * blockSize) content.length
  requestsInFlight := asked - done
  data := content.take (done * blockSize) ++ List.replicate (content.length - done * blockSize) 0
  blocksReceived := List.replicate done true ++ List.replicate (Tiling.count blockSize content.length - done) false
  blocksDone := done
  blocksTotal := Tiling.count blockSize content.length

end InFlightPiece

/-- The request of a block by its number. -/
def requestOf (index : Nat) (content : Bytes) (k : Nat) : PeerMessage :=
  RequestMessage.toPeerMessage ⟨index, k * blockSize, min blockSize (content.length - k * blockSize)⟩

/-- The block with that number. -/
def blockOf (index : Nat) (content : Bytes) (k : Nat) : PieceMessage :=
  ⟨index, k * blockSize, slice content (k * blockSize) (min blockSize (content.length - k * blockSize))⟩

/-- What a peer that has the data of the pieces answers to a request. -/
def answerTo (content : Nat → Bytes) (request : PeerMessage) : Option PeerMessage :=
  match RequestMessage.fromPeerMessage request with
  | .ok range =>
    some (PieceMessage.toPeerMessage ⟨range.index, range.begin_, slice (content range.index) range.begin_ range.length⟩)
  | .error _ => none

section Fed
variable {index m a : Nat} {content : Bytes}

theorem blockSize_pos : 0 < blockSize := by decide

theorem block_inside (below : a < Tiling.count blockSize content.length) : a * blockSize < content.length :=
  (Tiling.lt_count_iff blockSize_pos).mp below

theorem blockOf_length (below : a < Tiling.count blockSize content.length) :
    (blockOf index content a).block.length = min blockSize (content.length - a * blockSize) :=
  slice_length (by have inside := block_inside below; omega)

theorem blockOf_number : (blockOf index content a).begin_ / blockSize = a := Nat.mul_div_cancel a blockSize_pos

theorem fed_data_length : (InFlightPiece.fed index content m a).data.length = content.length := by
  rw [InFlightPiece.fed, List.length_append, List.length_take, List.length_replicate]
  omega

/-- Once all blocks have come, the buffer holds the piece. -/
theorem fed_complete (all : Tiling.count blockSize content.length ≤ a) : (InFlightPiece.fed index content m a).data = content := by
  have reached : content.length ≤ a * blockSize :=
    Nat.le_trans (Tiling.count_spec blockSize_pos) (Nat.mul_le_mul_right blockSize all)
  rw [InFlightPiece.fed, List.take_of_length_le reached, Nat.sub_eq_zero_of_le reached]
  exact List.append_nil content

theorem newInFlight_fed {pm : PieceManager} (sized : content.length = pm.pieceLength index)
    (narrow : content.length + blockSize ≤ 2 ^ 32) : PeerConnection.newInFlight pm index = .fed index content 0 0 := by
  have total : u32 (content.length + blockSize - 1) / blockSize = Tiling.count blockSize content.length := by
    rw [u32, Nat.mod_eq_of_lt (by omega), Tiling.count]
  rw [PeerConnection.newInFlight, ← sized, InFlightPiece.fed, total, Nat.zero_mul, Nat.zero_min, Nat.sub_zero, Nat.sub_zero,
    Nat.sub_zero, List.take_zero, List.replicate_zero, List.nil_append, List.nil_append]

/-- A round of the request loop asks for the next block. -/
theorem asked_fed (more : m < Tiling.count blockSize content.length) (narrow : content.length + blockSize ≤ 2 ^ 32)
    (known : a ≤ m) (room : m - a < maxPipeline) :
    (InFlightPiece.fed index content m a).asked = .fed index content (m + 1) a ∧
      (InFlightPiece.fed index content m a).nextRequest = requestOf index content m := by
  have inside := block_inside more
  have here : min (m * blockSize) content.length = m * blockSize := Nat.min_eq_left (Nat.le_of_lt inside)
  have next : u32 (m * blockSize + min blockSize (content.length - m * blockSize)) = min ((m + 1) * blockSize) content.length := by
    rw [Tiling.cell_end inside]
    exact Nat.mod_eq_of_lt (Nat.lt_of_le_of_lt (Nat.min_le_right _ _)
      (Nat.lt_of_lt_of_le (Nat.lt_add_of_pos_right blockSize_pos) narrow))
  have flight : u32 (m - a + 1) = m + 1 - a := by
    rw [u32, Nat.mod_eq_of_lt (Nat.lt_of_le_of_lt room (by decide)), Nat.sub_add_comm known]
  constructor
  · simp only [InFlightPiece.asked, InFlightPiece.fed, here, next, flight]
  · simp only [InFlightPiece.nextRequest, InFlightPiece.fed, here, requestOf]

/-- The next block that comes is accepted. -/
theorem accepts_fed (below : a < Tiling.count blockSize content.length) (narrow : content.length + blockSize ≤ 2 ^ 32) :
    (InFlightPiece.fed index content m a).accepts (blockOf index content a) = true := by
  have inside := block_inside below
  have length := @blockOf_length index a content below
  have start : (blockOf index content a).begin_ = a * blockSize := rfl
  have flags : (InFlightPiece.fed index content m a).blocksReceived =
      List.replicate a true ++ List.replicate (Tiling.count blockSize content.length - a) false := rfl
  refine accepts_iff.mpr ⟨?_, ?_, ?_⟩
  · rw [fed_data_length, length, start, u64, Nat.mod_eq_of_lt (by omega)]
    omega
  · rw [PieceMessage.number, blockOf_number, flags, List.length_append, List.length_replicate, List.length_replicate]
    omega
  · rw [PieceMessage.number, blockOf_number, flags, List.getD_eq_getElem?_getD,
      List.getElem?_append_right (List.length_replicate.le), List.length_replicate, Nat.sub_self, List.getElem?_replicate,
      if_pos (by omega)]
    rfl

theorem set_next {total : Nat} (below : a < total) :
    (List.replicate a true ++ List.replicate (total - a) false).set a true =
      List.replicate (a + 1) true ++ List.replicate (total - (a + 1)) false := by
  have left : total - a = total - (a + 1) + 1 := by omega
  rw [List.set_append_right _ _ List.length_replicate.le, List.length_replicate, Nat.sub_self, left, List.replicate_succ,
    List.set_cons_zero, List.replicate_succ', List.append_assoc]
  rfl

/-- A counter goes down by one, as the wrapping subtraction computes it. -/
theorem u32_pred {n k : Nat} (less : k < n) (small : n < 2 ^ 32) : u32 (n - k + 2 ^ 32 - 1) = n - (k + 1) := by
  rw [u32]
  omega

theorem stored_fed (below : a < Tiling.count blockSize content.length) (narrow : content.length + blockSize ≤ 2 ^ 32)
    (known : a < m) (asked : m ≤ Tiling.count blockSize content.length) :
    (InFlightPiece.fed index content m a).stored (blockOf index content a) = .fed index content m (a + 1) := by
  have inside := block_inside below
  have small : content.length < 2 ^ 32 := Nat.lt_of_lt_of_le (Nat.lt_add_of_pos_right blockSize_pos) narrow
  have width : m < 2 ^ 32 := by
    have last := block_inside (Nat.lt_of_lt_of_le (Nat.sub_lt (Nat.zero_lt_of_lt known) Nat.one_pos) asked)
    have grows := Nat.le_mul_of_pos_right (m - 1) blockSize_pos
    omega
  have done : u32 (a + 1) = a + 1 := Nat.mod_eq_of_lt (Nat.lt_of_le_of_lt known width)
  have place : (blockOf index content a).begin_ = a * blockSize := rfl
  have fits : a * blockSize + min blockSize (content.length - a * blockSize) ≤ content.length :=
    Tiling.cell_end inside ▸ Nat.min_le_right _ _
  have data : overwrite (content.take (a * blockSize) ++ List.replicate (content.length - a * blockSize) 0) (a * blockSize)
      (blockOf index content a).block =
      content.take ((a + 1) * blockSize) ++ List.replicate (content.length - (a + 1) * blockSize) 0 := by
    rw [blockOf, overwrite_fill fits, Tiling.cell_end inside, ← List.take_eq_take_min, Nat.min_comm, ← Nat.sub_eq_sub_min]
  simp only [InFlightPiece.stored, InFlightPiece.fed, u32_pred known width, done, place, Nat.mul_div_cancel a blockSize_pos,
    set_next below, data]

/-- A connection that waits for a block has asked for one. -/
theorem fed_waiting (full : (InFlightPiece.fed index content m a).Full)
    (below : a < Tiling.count blockSize content.length) : a < m := by
  rcases full with room | blocks
  · have few : maxPipeline = 15 := rfl
    change maxPipeline ≤ m - a at room
    omega
  · change content.length ≤ min (m * blockSize) content.length at blocks
    have inside := block_inside below
    by_contra none
    have grows := Nat.mul_le_mul_right blockSize (Nat.not_lt.mp none)
    omega

theorem answerTo_requestOf {contents : Nat → Bytes} {k : Nat} (small : index < 2 ^ 32)
    (below : k < Tiling.count blockSize (contents index).length) (narrow : (contents index).length + blockSize ≤ 2 ^ 32) :
    answerTo contents (requestOf index (contents index) k) =
      some (PieceMessage.toPeerMessage (blockOf index (contents index) k)) := by
  have inside := block_inside below
  have positive := blockSize_pos
  have back := BlockRange.fromPeerMessage_toPeerMessage .request (UInt32.ofNat index) (UInt32.ofNat (k * blockSize))
    (UInt32.ofNat (min blockSize ((contents index).length - k * blockSize)))
  rw [UInt32.toNat_ofNat_of_lt' small, UInt32.toNat_ofNat_of_lt' (show k * blockSize < UInt32.size by change _ < 4294967296; omega),
    UInt32.toNat_ofNat_of_lt' (show _ < UInt32.size by change _ < 4294967296; omega)] at back
  rw [answerTo, requestOf, RequestMessage.fromPeerMessage, RequestMessage.toPeerMessage, back]
  rfl

theorem fromPeerMessage_blockOf {k : Nat} (small : index < 2 ^ 32) (below : k < Tiling.count blockSize content.length)
    (narrow : content.length + blockSize ≤ 2 ^ 32) :
    PieceMessage.fromPeerMessage (PieceMessage.toPeerMessage (blockOf index content k)) = .ok (blockOf index content k) := by
  have inside := block_inside below
  have back := PieceMessage.fromPeerMessage_toPeerMessage (UInt32.ofNat index) (UInt32.ofNat (k * blockSize))
    (blockOf index content k).block
  rw [UInt32.toNat_ofNat_of_lt' small,
    UInt32.toNat_ofNat_of_lt' (show k * blockSize < UInt32.size by change _ < 4294967296; omega)] at back
  exact back

end Fed

/-- A peer that has some pieces, with their data, and a layout on disk that has the same pieces. -/
structure Supply (pm : PieceManager) (w : DiskWriter) (sha1 : Bytes → Sha1Hash) (bits : List Bool) (contents : Nat → Bytes) :
    Prop where
  sound : w.Sound
  narrow : w.pieceSize + blockSize ≤ 2 ^ 32
  inRange : ∀ i < pm.mNumPieces, bits.getD i false = true → w.InRange i
  bytes : ∀ i < pm.mNumPieces, bits.getD i false = true → w.pieceBytes i = pm.pieceLength i
  sized : ∀ i < pm.mNumPieces, bits.getD i false = true → (contents i).length = pm.pieceLength i
  verified : ∀ i < pm.mNumPieces, bits.getD i false = true → pm.verifies sha1 i (contents i) = true

/-- The number of blocks of a piece. -/
def blocksOf (contents : Nat → Bytes) (i : Nat) : Nat := Tiling.count blockSize (contents i).length

namespace Supply
variable {pm : PieceManager} {w : DiskWriter} {sha1 : Bytes → Sha1Hash} {bits : List Bool} {contents : Nat → Bytes} {i : Nat}

theorem small (supply : Supply pm w sha1 bits contents) (inside : i < pm.mNumPieces) (offered : bits.getD i false = true) :
    (contents i).length + blockSize ≤ 2 ^ 32 := by
  have narrow := supply.narrow
  have least : w.pieceBytes i ≤ w.pieceSize := Nat.min_le_left _ _
  rw [supply.sized i inside offered, ← supply.bytes i inside offered]
  omega

theorem positive (supply : Supply pm w sha1 bits contents) (inside : i < pm.mNumPieces) (offered : bits.getD i false = true) :
    0 < blocksOf contents i := by
  have size := supply.sound.pieceSize_pos
  have here := (supply.inRange i inside offered).2
  rw [blocksOf, Tiling.lt_count_iff blockSize_pos, supply.sized i inside offered, ← supply.bytes i inside offered,
    DiskWriter.pieceBytes]
  omega

end Supply

namespace PeerConnection
variable {pm : PieceManager} {w : DiskWriter} {sha1 : Bytes → Sha1Hash} {bits : List Bool} {contents : Nat → Bytes}
  {mHave : Nat → Bool} {mark answered : Nat} {conn : PeerConnection} {past : List Nat} {old : List PeerMessage}

/-- What has become of the requests since the mark: the old ones are for pieces that we have by
now, the others are the first of the current piece, and the answers came in the
order of the requests. -/
structure Ledger (pm : PieceManager) (bits : List Bool) (contents : Nat → Bytes) (mHave : Nat → Bool) (mark answered : Nat)
    (conn : PeerConnection) (past : List Nat) (old : List PeerMessage) : Prop where
  marked : mark ≤ conn.sent.length
  unchoked : conn.mPeerChoking = false
  same : conn.mPeerBitfield = bits
  distinct : past.Nodup
  finished : ∀ i ∈ past, i < pm.mNumPieces ∧ bits.getD i false = true ∧ mHave i = true
  stale : ∀ msg ∈ old, ∃ i ∈ past, ∃ k < blocksOf contents i, msg = requestOf i (contents i) k
  short : old.length ≤ (past.map (blocksOf contents)).sum
  idle : conn.mCurrentPiece = none → conn.requestsSince mark = old ∧ answered ≤ old.length
  working : ∀ ifp, conn.mCurrentPiece = some ifp → ∃ i m, i < pm.mNumPieces ∧ bits.getD i false = true ∧ i ∉ past ∧
    ifp = .fed i (contents i) m (answered - old.length) ∧ answered - old.length ≤ m ∧ m ≤ blocksOf contents i ∧
    answered - old.length < blocksOf contents i ∧
    conn.requestsSince mark = old ++ (List.range m).map (requestOf i (contents i))

theorem requestsSince_ask {ifp : InFlightPiece} (marked : mark ≤ conn.sent.length) :
    (conn.ask ifp).requestsSince mark = conn.requestsSince mark ++ [ifp.nextRequest] := by
  have asks : [ifp.nextRequest].filter (·.id = .request) = [ifp.nextRequest] := rfl
  rw [requestsSince, ask, List.drop_append_of_le_length marked, List.filter_append, asks]
  rfl

namespace Ledger

/-- What other connections do only adds to what we have. -/
theorem more {mHave' : Nat → Bool} (ledger : Ledger pm bits contents mHave mark answered conn past old)
    (more : ∀ i, mHave i = true → mHave' i = true) : Ledger pm bits contents mHave' mark answered conn past old :=
  { ledger with
    finished := fun i member => ⟨(ledger.finished i member).1, (ledger.finished i member).2.1, more i (ledger.finished i member).2.2⟩ }

/-- The current piece is one that we have by now. -/
theorem close {i m : Nat} (ledger : Ledger pm bits contents mHave mark answered conn past old) (after : PeerConnection)
    (sent : after.sent = conn.sent) (choking : after.mPeerChoking = conn.mPeerChoking)
    (bitfield : after.mPeerBitfield = conn.mPeerBitfield) (none : after.mCurrentPiece = none) (inside : i < pm.mNumPieces)
    (offered : bits.getD i false = true) (new : i ∉ past) (had : mHave i = true) (few : m ≤ blocksOf contents i)
    {answered' : Nat} (answers : answered' ≤ old.length + m)
    (requests : conn.requestsSince mark = old ++ (List.range m).map (requestOf i (contents i))) :
    Ledger pm bits contents mHave mark answered' after (past ++ [i]) (old ++ (List.range m).map (requestOf i (contents i))) where
  marked := sent ▸ ledger.marked
  unchoked := choking.trans ledger.unchoked
  same := bitfield.trans ledger.same
  distinct := by
    refine List.nodup_append.mpr ⟨ledger.distinct, List.nodup_singleton i, fun j member last same equal => ?_⟩
    exact new (List.mem_singleton.mp same ▸ equal ▸ member)
  finished := by
    intro j member
    rcases List.mem_append.mp member with before | last
    · exact ledger.finished j before
    · rw [List.mem_singleton.mp last]
      exact ⟨inside, offered, had⟩
  stale := by
    intro msg member
    rcases List.mem_append.mp member with before | last
    · obtain ⟨j, member, found⟩ := ledger.stale msg before
      exact ⟨j, List.mem_append_left _ member, found⟩
    · obtain ⟨k, below, rfl⟩ := List.mem_map.mp last
      exact ⟨i, List.mem_append_right _ (List.mem_singleton_self i), k,
        Nat.lt_of_lt_of_le (List.mem_range.mp below) few, rfl⟩
  short := by
    have short := ledger.short
    rw [List.length_append, List.length_map, List.length_range, List.map_append, List.sum_append, List.map_singleton,
      List.sum_singleton]
    omega
  idle := by
    intro _
    rw [requestsSince, sent, ← requestsSince, List.length_append, List.length_map, List.length_range]
    exact ⟨requests, answers⟩
  working := fun _ current => nomatch none.symm.trans current

/-- A piece is picked that we have not. -/
theorem pick {i : Nat} (ledger : Ledger pm bits contents mHave mark answered conn past old) (supply : Supply pm w sha1 bits contents)
    (none : conn.mCurrentPiece = none) (inside : i < pm.mNumPieces) (offered : bits.getD i false = true) (missing : mHave i = false)
    {after : PeerConnection} (sent : after.sent = conn.sent) (choking : after.mPeerChoking = conn.mPeerChoking)
    (bitfield : after.mPeerBitfield = conn.mPeerBitfield) (current : after.mCurrentPiece = some (newInFlight pm i)) :
    Ledger pm bits contents mHave mark answered after past old :=
  { ledger with
    marked := sent ▸ ledger.marked
    unchoked := choking.trans ledger.unchoked
    same := bitfield.trans ledger.same
    idle := fun idle => nomatch idle.symm.trans current
    working := by
      intro ifp current'
      obtain ⟨requests, answers⟩ := ledger.idle none
      have fresh : i ∉ past := by
        intro member
        cases missing.symm.trans (ledger.finished i member).2.2
      have positive := supply.positive inside offered
      refine ⟨i, 0, inside, offered, fresh, ?_, ?_, ?_, ?_, ?_⟩
      · rw [← Option.some.inj (current.symm.trans current'), Nat.sub_eq_zero_of_le answers]
        exact newInFlight_fed (supply.sized i inside offered) (supply.small inside offered)
      · exact (Nat.sub_eq_zero_of_le answers).le
      · exact Nat.zero_le _
      · omega
      · rw [requestsSince, sent, ← requestsSince, requests]
        exact (List.append_nil old).symm }

/-- One more block of the current piece is asked for. -/
theorem ask {ifp : InFlightPiece} (ledger : Ledger pm bits contents mHave mark answered conn past old)
    (supply : Supply pm w sha1 bits contents) (current : conn.mCurrentPiece = some ifp) (room : ifp.requestsInFlight < maxPipeline)
    (more : ifp.nextBlockOffset < ifp.pieceLength) : Ledger pm bits contents mHave mark answered (conn.ask ifp) past old := by
  obtain ⟨i, m, inside, offered, new, rfl, known, few, left, requests⟩ := ledger.working ifp current
  have below : m < blocksOf contents i := by
    refine (Tiling.lt_count_iff blockSize_pos).mpr ?_
    change min (m * blockSize) (contents i).length < (contents i).length at more
    omega
  obtain ⟨asked, request⟩ := @asked_fed i m (answered - old.length) (contents i) below (supply.small inside offered) known room
  refine { ledger with marked := ?_, idle := fun none => (nomatch none), working := fun ifp' current' => ?_ }
  · rw [PeerConnection.ask, List.length_append]
    exact Nat.le_trans ledger.marked (Nat.le_add_right _ _)
  · refine ⟨i, m + 1, inside, offered, new, ?_, Nat.le_succ_of_le known, below, left, ?_⟩
    · rw [← Option.some.inj current']
      exact asked
    · rw [requestsSince_ask ledger.marked, request, requests, List.range_succ, List.map_append, List.append_assoc]
      rfl

end Ledger

section Fill
variable {io : Io} {world : World}

theorem requestLoop_ledger (calm : ∀ n, io.accepts n = true) (supply : Supply pm w sha1 bits contents) (rounds : Nat)
    {ifp : InFlightPiece} (ledger : Ledger pm bits contents mHave mark answered world.conn past old)
    (current : world.conn.mCurrentPiece = some ifp) :
    ∃ next, requestLoop io rounds ifp world = (next, .ok ()) ∧ Ledger pm bits contents mHave mark answered next.conn past old := by
  induction rounds generalizing ifp world with
  | zero => exact ⟨world, rfl, ledger⟩
  | succ rounds ih =>
    unfold requestLoop
    split
    case isTrue more =>
      unfold sendMessage
      split
      case isTrue => exact @ih { world with conn := world.conn.ask ifp } ifp.asked (ledger.ask supply current more.1 more.2) rfl
      case isFalse refused => exact absurd (calm _) refused
    case isFalse => exact ⟨world, rfl, ledger⟩

theorem dropFinished_ledger (ledger : Ledger pm bits contents world.pieces.mHave mark answered world.conn past old) :
    ∃ past old, Ledger pm bits contents world.pieces.mHave mark answered (dropFinished pm world).conn past old := by
  unfold dropFinished
  split
  case h_1 ifp current =>
    split
    case isTrue had =>
      obtain ⟨i, m, inside, offered, new, rfl, known, few, left, requests⟩ := ledger.working ifp current
      simp only [PieceManager.havePiece, Bool.and_eq_true] at had
      exact ⟨_, _, ledger.close world.conn.resetPiece rfl rfl rfl rfl inside offered new had.2 few
        (Nat.sub_le_iff_le_add'.mp known) requests⟩
    case isFalse => exact ⟨past, old, ledger⟩
  case h_2 => exact ⟨past, old, ledger⟩

theorem pickPiece_ledger (supply : Supply pm w sha1 bits contents) (sized : bits.length = pm.mNumPieces)
    (ledger : Ledger pm bits contents world.pieces.mHave mark answered world.conn past old) :
    Ledger pm bits contents world.pieces.mHave mark answered (pickPiece pm world).conn past old := by
  unfold pickPiece
  split
  case h_1 => exact ledger
  case h_2 none =>
    split
    case h_1 => exact ledger
    case h_2 pick pieces found =>
      have needed := nextNeeded_needs (congrArg Prod.fst found)
      rw [ledger.same] at needed
      simp only [PieceManager.needs, Bool.and_eq_true, Bool.not_eq_true'] at needed
      have inside : pick.index < pm.mNumPieces := by
        by_contra beyond
        have offered := needed.1
        rw [List.getD_eq_getElem?_getD, List.getElem?_eq_none (sized.trans_le (Nat.not_lt.mp beyond))] at offered
        cases offered
      exact ledger.pick supply none inside needed.1 needed.2 rfl rfl rfl rfl

theorem fillRequests_ledger (calm : ∀ n, io.accepts n = true) (supply : Supply pm w sha1 bits contents)
    (sized : bits.length = pm.mNumPieces)
    (ledger : Ledger pm bits contents world.pieces.mHave mark answered world.conn past old) :
    ∃ next past old, fillRequests pm io world = (next, .ok ()) ∧
      Ledger pm bits contents world.pieces.mHave mark answered next.conn past old := by
  unfold fillRequests
  split
  case isTrue => exact ⟨world, past, old, rfl, ledger⟩
  case isFalse =>
    split
    case isTrue => exact ⟨world, past, old, rfl, ledger⟩
    case isFalse =>
      obtain ⟨past, old, dropped⟩ := dropFinished_ledger ledger
      have flags : (dropFinished pm world).pieces = world.pieces := by
        rcases dropFinished_cases pm world with kept | reset
        · rw [kept]
        · rw [reset]
      rw [← flags] at dropped
      have picked := pickPiece_ledger supply sized dropped
      rw [flags] at picked
      simp only
      split
      case h_1 => exact ⟨_, past, old, rfl, picked⟩
      case h_2 ifp current =>
        obtain ⟨next, ran, ledger⟩ := requestLoop_ledger calm supply maxPipeline picked current
        exact ⟨next, past, old, ran, ledger⟩

end Fill

section Answer
variable {io : Io} {world : World}

/-- A call of `complete_piece` leaves the files in place, whatever comes of it. -/
theorem completePiece_ready (sound : w.Sound) {faults : IoFaults} {index : Nat} {data : Bytes} {pieces : Pieces} {disk : Disk}
    (ready : w.Ready disk) : w.Ready (pm.completePiece w sha1 faults index data pieces disk).1.2 := by
  unfold PieceManager.completePiece
  split
  case isTrue => exact ready
  case isFalse inRange =>
    split
    case isTrue => exact ready
    case isFalse =>
      split
      case isTrue => exact ready
      case isFalse =>
        have small : index < 2 ^ 32 := Nat.lt_trans (Nat.not_le.mp inRange) pm.numPieces_lt
        have written : w.Ready (w.writePiece faults index data disk).1 := by
          by_cases passes : disk.preallocated = true ∧ w.InRange index ∧ data.length = w.pieceBytes index
          · exact (DiskWriter.writePiece_spec sound ready faults passes.2.1 passes.2.2).1
          · obtain ⟨error, refused⟩ := DiskWriter.writePiece_refused sound faults small passes
            rw [refused]
            exact ready
        simp only
        split
        case h_1 outcome =>
          rw [outcome] at written
          exact written
        case h_2 outcome =>
          rw [outcome] at written
          exact written

/-- The data of a piece is taken. -/
theorem completePiece_supplied (supply : Supply pm w sha1 bits contents) {i : Nat} (inside : i < pm.mNumPieces)
    (offered : bits.getD i false = true) {pieces : Pieces} {disk : Disk} (ready : w.Ready disk) :
    (pm.completePiece w sha1 .none i (contents i) pieces disk).2 = .ok true := by
  unfold PieceManager.completePiece
  rw [if_neg (Nat.not_le.mpr inside)]
  split
  case isTrue => rfl
  case isFalse =>
    rw [if_neg (by rw [supply.verified i inside offered]; decide)]
    have sized : (contents i).length = w.pieceBytes i := by
      rw [supply.sized i inside offered, supply.bytes i inside offered]
    obtain ⟨_, _, ⟨written, _⟩ | ⟨_, hits⟩⟩ := DiskWriter.writePiece_spec supply.sound ready .none (supply.inRange i inside offered) sized
    · simp only
      split
      case h_1 outcome =>
        rw [outcome] at written
        cases written
      case h_2 => rfl
    · exact absurd hits (DiskWriter.none_not_hits w w.files)

theorem handOff_taken {ifp : InFlightPiece}
    (taken : (pm.completePiece w sha1 io.faults ifp.pieceIndex ifp.data world.pieces world.disk).2 = .ok true) :
    handOff pm w sha1 io ifp world =
      (⟨world.conn.resetPiece, (pm.completePiece w sha1 io.faults ifp.pieceIndex ifp.data world.pieces world.disk).1.1,
        (pm.completePiece w sha1 io.faults ifp.pieceIndex ifp.data world.pieces world.disk).1.2⟩, .ok ()) := by
  unfold handOff
  split
  case h_1 outcome =>
    rw [outcome] at taken
    cases taken
  case h_2 outcome =>
    rw [outcome] at taken ⊢
    cases taken
    rfl

/-- A block of another piece than the current one is of no use, and of no harm. -/
theorem handlePiece_stale {msg : PeerMessage} {piece : PieceMessage} (parsed : PieceMessage.fromPeerMessage msg = .ok piece)
    (other : ∀ ifp, world.conn.mCurrentPiece = some ifp → piece.index ≠ ifp.pieceIndex) :
    handlePiece pm w sha1 io msg world = (world, .ok ()) := by
  unfold handlePiece
  rw [parsed]
  simp only
  split
  case h_1 => rfl
  case h_2 ifp current => rw [if_pos (other ifp current)]

theorem handlePiece_next {i m a : Nat} {msg : PeerMessage} (supply : Supply pm w sha1 bits contents) (inside : i < pm.mNumPieces)
    (offered : bits.getD i false = true) (parsed : PieceMessage.fromPeerMessage msg = .ok (blockOf i (contents i) a))
    (current : world.conn.mCurrentPiece = some (.fed i (contents i) m a)) (below : a < blocksOf contents i) (known : a < m)
    (few : m ≤ blocksOf contents i) :
    handlePiece pm w sha1 io msg world =
      if a + 1 < blocksOf contents i then
        ({ world with conn := world.conn.received (.fed i (contents i) m a) (blockOf i (contents i) a) }, .ok ())
      else handOff pm w sha1 io (.fed i (contents i) m (a + 1))
        { world with conn := world.conn.received (.fed i (contents i) m a) (blockOf i (contents i) a) } := by
  have small := supply.small inside offered
  have accepted := @accepts_fed i m a (contents i) below small
  have answers : world.conn.answer msg = some (blockOf i (contents i) a) := by
    rw [answer, current, parsed]
    exact if_pos rfl
  have counted : u32 ((InFlightPiece.fed i (contents i) m a).blocksDone + 1) = a + 1 := by
    have first := block_inside below
    have grows := Nat.le_mul_of_pos_right a blockSize_pos
    have positive := blockSize_pos
    exact Nat.mod_eq_of_lt (show a + 1 < 2 ^ 32 by omega)
  rcases handlePiece_cases pm w sha1 io msg world with ⟨none, _⟩ | ⟨ifp, piece, current', answers', ⟨refused, _⟩ | ⟨_, taken⟩⟩
  · cases none.symm.trans answers
  · cases Option.some.inj (current.symm.trans current')
    cases Option.some.inj (answers.symm.trans answers')
    cases refused.symm.trans accepted
  · cases Option.some.inj (current.symm.trans current')
    cases Option.some.inj (answers.symm.trans answers')
    rw [taken, counted, stored_fed below small known few]
    rfl

/-- An answer in its turn either goes to a piece that is done with, or brings the next block of
the current piece. -/
theorem handleMessage_ledger (calm : io.faults = .none) (supply : Supply pm w sha1 bits contents) (ready : w.Ready world.disk)
    (ledger : Ledger pm bits contents world.pieces.mHave mark answered world.conn past old) {request msg : PeerMessage}
    (turn : (world.conn.requestsSince mark)[answered]? = some request) (said : answerTo contents request = some msg) :
    ∃ next past old, handleMessage pm w sha1 io msg world = (next, .ok ()) ∧
      Ledger pm bits contents next.pieces.mHave mark (answered + 1) next.conn past old := by
  have late : ∀ {i k : Nat}, i < pm.mNumPieces → bits.getD i false = true → k < blocksOf contents i →
      request = requestOf i (contents i) k → msg = PieceMessage.toPeerMessage (blockOf i (contents i) k) ∧
        PieceMessage.fromPeerMessage msg = .ok (blockOf i (contents i) k) := by
    intro i k inside offered below same
    have width := Nat.lt_trans inside pm.numPieces_lt
    have small := supply.small inside offered
    rw [same, answerTo_requestOf width below small] at said
    cases said
    exact ⟨rfl, fromPeerMessage_blockOf width below small⟩
  have behind : ∀ {past : List Nat}, (∃ i ∈ past, ∃ k < blocksOf contents i, request = requestOf i (contents i) k) →
      (∀ i ∈ past, i < pm.mNumPieces ∧ bits.getD i false = true ∧ world.pieces.mHave i = true) →
      (∀ ifp, world.conn.mCurrentPiece = some ifp → ifp.pieceIndex ∉ past) →
      handleMessage pm w sha1 io msg world = (world, .ok ()) := by
    rintro past ⟨i, member, k, below, same⟩ finished new
    obtain ⟨inside, offered, _⟩ := finished i member
    obtain ⟨rfl, parsed⟩ := late inside offered below same
    refine handlePiece_stale parsed fun ifp current equal => new ifp current ?_
    exact equal ▸ member
  cases current : world.conn.mCurrentPiece with
  | none =>
    obtain ⟨requests, answers⟩ := ledger.idle current
    rw [requests] at turn
    refine ⟨world, past, old, behind (ledger.stale request (List.mem_of_getElem? turn)) ledger.finished ?_, ?_⟩
    · intro ifp current'
      cases current.symm.trans current'
    · have next : answered + 1 ≤ old.length := (List.getElem?_eq_some_iff.mp turn).1
      exact { ledger with
        idle := fun _ => ⟨requests, next⟩
        working := fun _ current' => nomatch current.symm.trans current' }
  | some ifp =>
    obtain ⟨i, m, inside, offered, new, rfl, known, few, left, requests⟩ := ledger.working ifp current
    rw [requests] at turn
    by_cases before : answered < old.length
    · rw [List.getElem?_append_left before] at turn
      refine ⟨world, past, old, behind (ledger.stale request (List.mem_of_getElem? turn)) ledger.finished ?_, ?_⟩
      · intro ifp current'
        rw [← Option.some.inj (current.symm.trans current')]
        exact new
      · have none : answered + 1 - old.length = answered - old.length := by omega
        refine { ledger with idle := fun idle => (nomatch current.symm.trans idle), working := fun ifp current' => ?_ }
        rw [none, ← Option.some.inj (current.symm.trans current')]
        exact ⟨i, m, inside, offered, new, rfl, known, few, left, requests⟩
    · have next : answered + 1 - old.length = answered - old.length + 1 := by omega
      rw [List.getElem?_append_right (Nat.not_lt.mp before)] at turn
      generalize here : answered - old.length = a at turn current known left next
      obtain ⟨below, same⟩ := List.getElem?_eq_some_iff.mp turn
      rw [List.length_map, List.length_range] at below
      rw [List.getElem_map, List.getElem_range] at same
      obtain ⟨rfl, parsed⟩ := late inside offered left same.symm
      have taken := @handlePiece_next pm w sha1 bits contents io world i m a _ supply inside offered parsed current left below few
      by_cases more : a + 1 < blocksOf contents i
      · rw [if_pos more] at taken
        refine ⟨_, past, old, taken, { ledger with idle := fun idle => (nomatch idle), working := fun ifp current' => ?_ }⟩
        refine ⟨i, m, inside, offered, new, ?_, ?_, few, ?_, requests⟩
        · rw [next, ← Option.some.inj current']
          exact stored_fed left (supply.small inside offered) below few
        · rw [next]
          exact below
        · rw [next]
          exact more
      · rw [if_neg more] at taken
        have data : (InFlightPiece.fed i (contents i) m (a + 1)).data = contents i := fed_complete (Nat.not_lt.mp more)
        have ended := @completePiece_supplied pm w sha1 bits contents supply i inside offered world.pieces world.disk ready
        obtain ⟨_, kept, own⟩ := pm.completePiece_flags w sha1 .none i (contents i) world.pieces world.disk
        rw [handOff_taken (by rw [data, calm]; exact ended), data, calm] at taken
        refine ⟨_, _, _, taken, (ledger.more kept).close
          (world.conn.received (.fed i (contents i) m a) (blockOf i (contents i) a)).resetPiece
          rfl rfl rfl rfl inside offered new (own ended) few ?_ requests⟩
        omega

/-- A whole round of the loop of `run` for an answer in its turn. -/
theorem handleThenFill_ledger (supply : Supply pm w sha1 bits contents) (sized : bits.length = pm.mNumPieces)
    (ready : w.Ready world.disk) (ledger : Ledger pm bits contents world.pieces.mHave mark answered world.conn past old)
    {request msg : PeerMessage} (turn : (world.conn.requestsSince mark)[answered]? = some request)
    (said : answerTo contents request = some msg) :
    ∃ next past old, handleThenFill pm w sha1 calmIo msg world = (next, .ok ()) ∧
      Ledger pm bits contents next.pieces.mHave mark (answered + 1) next.conn past old := by
  obtain ⟨middle, past, old, handled, ledger⟩ := @handleMessage_ledger pm w sha1 bits contents mark answered past old calmIo world
    rfl supply ready ledger request msg turn said
  obtain ⟨next, past, old, filled, ledger⟩ := @fillRequests_ledger pm w sha1 bits contents mark _ past old calmIo middle
    (fun _ => rfl) supply sized ledger
  have store := @fillRequests_store pm calmIo middle
  rw [filled] at store
  have flags : next.pieces.mHave = middle.pieces.mHave := congrArg Prod.fst store
  refine ⟨next, past, old, ?_, flags ▸ ledger⟩
  rw [handleThenFill, handled]
  exact filled

end Answer

end PeerConnection

namespace Swarm
open PeerConnection Talk

variable {pm : PieceManager} {w : DiskWriter} {sha1 : Bytes → Sha1Hash} {s s' : Swarm}

/-- The connection that a step is about. -/
def Label.conn : Label → Nat
  | .open_ id => id
  | .message id _ _ => id
  | .drop id => id

theorem step_others {label : Label} {id : Nat} (run : step pm w sha1 s label = some s') (other : label.conn ≠ id) :
    s'.conns id = s.conns id := by
  cases label with
  | open_ opened =>
    rw [Swarm.step] at run
    split at run
    case h_1 => cases run
    case h_2 =>
      cases run
      exact Function.update_of_ne (Ne.symm other) ..
  | message sender msg io =>
    obtain ⟨conn, _, ⟨world, _, rfl⟩ | ⟨world, error, _, _, rfl⟩⟩ := step_message run
    · exact Function.update_of_ne (Ne.symm other) ..
    · exact Function.update_of_ne (Ne.symm other) ..
  | drop dropped =>
    rw [Swarm.step] at run
    split at run
    case h_1 => cases run
    case h_2 =>
      cases run
      exact Function.update_of_ne (Ne.symm other) ..

/-- Whatever a step does, the flags only grow and the files stay in place. -/
theorem step_keeps (sound : w.Sound) {label : Label} (ready : w.Ready s.disk) (run : step pm w sha1 s label = some s') :
    w.Ready s'.disk ∧ ∀ i, s.pieces.mHave i = true → s'.pieces.mHave i = true := by
  have destroyed : ∀ id (world : World), w.Ready world.disk ∧ (∀ i, s.pieces.mHave i = true → world.pieces.mHave i = true) →
      w.Ready (destroy pm s id world).disk ∧ ∀ i, s.pieces.mHave i = true → (destroy pm s id world).pieces.mHave i = true := by
    intro id world kept
    rw [destroy, releaseClaim_mHave]
    exact kept
  cases label with
  | open_ id =>
    rw [Swarm.step] at run
    split at run
    case h_1 => cases run
    case h_2 =>
      cases run
      exact ⟨ready, fun _ had => had⟩
  | message id msg io =>
    obtain ⟨conn, live, went⟩ := step_message run
    have more := @handleThenFill_more pm w sha1 io msg ⟨conn, s.pieces, s.disk⟩
    have kept : w.Ready (handleThenFill pm w sha1 io msg ⟨conn, s.pieces, s.disk⟩).1.disk := by
      rcases @handleThenFill_stores pm w sha1 io msg ⟨conn, s.pieces, s.disk⟩ with same | ⟨index, data, same⟩
      · obtain ⟨_, files⟩ := Prod.mk.inj same
        rw [files]
        exact ready
      · obtain ⟨_, files⟩ := Prod.mk.inj same
        rw [files]
        exact completePiece_ready sound ready
    rcases went with ⟨world, outcome, rfl⟩ | ⟨world, error, outcome, _, rfl⟩
    · rw [outcome] at more kept
      exact ⟨kept, more⟩
    · rw [outcome] at more kept
      exact destroyed id _ ⟨kept, more⟩
  | drop id =>
    rw [Swarm.step] at run
    split at run
    case h_1 => cases run
    case h_2 =>
      cases run
      exact destroyed id _ ⟨ready, fun _ had => had⟩

end Swarm

/-- A swarm in which one peer answers the requests of its connection, and how many it has
answered. -/
structure Attended where
  swarm : Swarm
  answered : Nat

namespace Attended
open Swarm PeerConnection

/-- The peer answers the next request, or something happens at another connection. -/
inductive Label
  | answer
  | other (label : Swarm.Label)

variable (pm : PieceManager) (w : DiskWriter) (sha1 : Bytes → Sha1Hash) (peer mark : Nat) (contents : Nat → Bytes)

def step (s : Attended) : Label → Option Attended
  | .answer => do
    let conn ← s.swarm.conns peer
    let request ← (conn.requestsSince mark)[s.answered]?
    let msg ← answerTo contents request
    let swarm ← Swarm.step pm w sha1 s.swarm (.message peer msg calmIo)
    some ⟨swarm, s.answered + 1⟩
  | .other label =>
    if label.conn = peer then none else (Swarm.step pm w sha1 s.swarm label).map (⟨·, s.answered⟩)

/-- The peer unchokes us. -/
def Initial (before : Swarm) (s : Attended) : Prop :=
  s.answered = 0 ∧ Swarm.step pm w sha1 before (.message peer ⟨.unchoke, []⟩ calmIo) = some s.swarm

variable {pm w sha1 peer mark contents} {bits : List Bool} {s s' : Attended}

/-- The connection is alive, and its requests are in order. -/
structure Supplied (pm : PieceManager) (w : DiskWriter) (bits : List Bool) (contents : Nat → Bytes) (peer mark : Nat)
    (s : Attended) : Prop where
  busy : AllBusy pm s.swarm
  ready : w.Ready s.swarm.disk
  ledger : ∃ conn past old, s.swarm.conns peer = some conn ∧
    Ledger pm bits contents s.swarm.pieces.mHave mark s.answered conn past old

theorem Supplied.step (supply : Supply pm w sha1 bits contents) (sized : bits.length = pm.mNumPieces) {label : Label}
    (supplied : Supplied pm w bits contents peer mark s) (run : step pm w sha1 peer mark contents s label = some s') :
    Supplied pm w bits contents peer mark s' := by
  obtain ⟨conn, past, old, live, ledger⟩ := supplied.ledger
  cases label with
  | answer =>
    simp only [Attended.step, Option.bind_eq_bind, Option.bind_eq_some_iff] at run
    obtain ⟨conn', live', request, turn, msg, said, swarm, run, same⟩ := run
    cases Option.some.inj same
    cases Option.some.inj (live.symm.trans live')
    obtain ⟨ready, _⟩ := step_keeps supply.sound supplied.ready run
    refine ⟨supplied.busy.step run, ready, ?_⟩
    obtain ⟨next, past, old, ran, ledger⟩ := @handleThenFill_ledger pm w sha1 bits contents mark s.answered past old
      ⟨conn, s.swarm.pieces, s.swarm.disk⟩ supply sized supplied.ready ledger request msg turn said
    rw [Swarm.step, live] at run
    simp only [ran] at run
    cases run
    exact ⟨next.conn, past, old, Function.update_self .., ledger⟩
  | other label =>
    rw [Attended.step] at run
    split at run
    case isTrue => cases run
    case isFalse other =>
      obtain ⟨swarm, stepped, rfl⟩ := Option.map_eq_some_iff.mp run
      obtain ⟨ready, more⟩ := step_keeps supply.sound supplied.ready stepped
      exact ⟨supplied.busy.step stepped, ready, conn, past, old, (step_others stepped other).trans live, ledger.more more⟩

/-- The requests since the mark are for blocks that the peer has, each at most once. -/
theorem Supplied.bounded (supplied : Supplied pm w bits contents peer mark s) {conn : PeerConnection}
    (live : s.swarm.conns peer = some conn) : (conn.requestsSince mark).length ≤
      ∑ i ∈ (Finset.range pm.mNumPieces).filter (bits.getD · false = true), blocksOf contents i := by
  obtain ⟨conn', past, old, live', ledger⟩ := supplied.ledger
  cases Option.some.inj (live.symm.trans live')
  have bound : ∀ pieces : List Nat, pieces.Nodup → (∀ i ∈ pieces, i < pm.mNumPieces ∧ bits.getD i false = true) →
      (pieces.map (blocksOf contents)).sum ≤
        ∑ i ∈ (Finset.range pm.mNumPieces).filter (bits.getD · false = true), blocksOf contents i := by
    intro pieces distinct inside
    rw [← List.sum_toFinset _ distinct]
    refine Finset.sum_le_sum_of_subset fun i member => ?_
    obtain ⟨below, offered⟩ := inside i (List.mem_toFinset.mp member)
    exact Finset.mem_filter.mpr ⟨Finset.mem_range.mpr below, offered⟩
  have past_ : ∀ i ∈ past, i < pm.mNumPieces ∧ bits.getD i false = true :=
    fun i member => ⟨(ledger.finished i member).1, (ledger.finished i member).2.1⟩
  cases current : conn.mCurrentPiece with
  | none =>
    rw [(ledger.idle current).1]
    exact Nat.le_trans ledger.short (bound past ledger.distinct past_)
  | some ifp =>
    obtain ⟨i, m, inside, offered, new, _, _, few, _, requests⟩ := ledger.working ifp current
    have distinct : (i :: past).Nodup := List.nodup_cons.mpr ⟨new, ledger.distinct⟩
    have all := bound (i :: past) distinct fun j member => by
      rcases List.mem_cons.mp member with rfl | before
      · exact ⟨inside, offered⟩
      · exact past_ j before
    have short := ledger.short
    rw [List.map_cons, List.sum_cons] at all
    rw [requests, List.length_append, List.length_map, List.length_range]
    omega

/-- A connection whose requests are all answered has nothing more to ask for. -/
theorem Supplied.done (supplied : Supplied pm w bits contents peer mark s) {conn : PeerConnection}
    (live : s.swarm.conns peer = some conn) (all : (conn.requestsSince mark).length ≤ s.answered) {i : Nat}
    (offered : bits.getD i false = true) : s.swarm.pieces.mHave i = true := by
  obtain ⟨conn', past, old, live', ledger⟩ := supplied.ledger
  cases Option.some.inj (live.symm.trans live')
  have busy := supplied.busy peer conn live
  by_contra missing
  have offers : conn.Offers s.swarm.pieces.mHave i := ⟨ledger.same ▸ offered, Bool.eq_false_iff.mpr missing⟩
  rcases busy.fills ledger.unchoked (busy.interested i offers) with ⟨ifp, current, full⟩ | ⟨_, nothing⟩
  · obtain ⟨j, m, _, _, _, rfl, known, _, left, requests⟩ := ledger.working ifp current
    have waits := fed_waiting full left
    rw [requests, List.length_append, List.length_map, List.length_range] at all
    omega
  · exact nothing i offers

/-- The peer comes up and has the only piece, as has another one that we have asked already. -/
def announcedLabels : List Swarm.Label :=
  [.open_ 1, .message 1 ⟨.have, [0, 0, 0, 0]⟩ calmIo, .message 1 ⟨.unchoke, []⟩ calmIo,
    .open_ 0, .message 0 ⟨.have, [0, 0, 0, 0]⟩ calmIo]

theorem announced_runs : (Machine.exec (Swarm.step oneByte oneByteWriter oneByteSha1) Machine.unguarded seedingStart
    announcedLabels).isSome = true := by decide +kernel

def announced : Swarm := Option.get _ announced_runs

end Attended

end BittorrentClient
