import BittorrentClient.Library.BitString
import BittorrentClient.Peer.Connection

namespace BittorrentClient
open Cpp BitString

namespace BitfieldMessage
variable {bf : BitfieldMessage} {index : Nat}

theorem hasPiece_inside (inside : index / 8 < bf.bitfield.length) : bf.hasPiece index = .ok (bit bf.bitfield index) := by
  simp only [hasPiece, if_neg (Nat.not_le.mpr inside), bit, Nat.testBit_eq_decide_div_mod_eq, Nat.shiftRight_eq_div_pow]
  congr 1

theorem hasPiece_beyond (beyond : bf.bitfield.length ≤ index / 8) :
    bf.hasPiece index = .error (.bitfieldIndexOutOfRange index (index / 8) bf.bitfield.length) := by
  simp only [hasPiece, if_pos beyond]

end BitfieldMessage

namespace PeerConnection

section Pack
variable (have_ : List Bool)

/-- The packing loop up to an index. -/
def packUpTo (k : Nat) : Bytes :=
  (List.range k).foldl
    (fun bitfield i => if have_.getD i false then bitfield.modify (i / 8) (· ||| 1 <<< (7 - i % 8).toUInt8) else bitfield)
    (List.replicate ((have_.length + 7) / 8) 0)

theorem packUpTo_succ (k : Nat) :
    packUpTo have_ (k + 1) =
      if have_.getD k false then (packUpTo have_ k).modify (k / 8) (· ||| mask k) else packUpTo have_ k := by
  rw [packUpTo, List.range_succ, List.foldl_append]
  rfl

theorem length_packUpTo (k : Nat) : (packUpTo have_ k).length = (have_.length + 7) / 8 := by
  induction k with
  | zero => exact List.length_replicate
  | succ k ih =>
    rw [packUpTo_succ]
    split
    · rw [List.length_modify, ih]
    · exact ih

theorem bit_packUpTo {k : Nat} (inside : k ≤ have_.length) (i : Nat) :
    bit (packUpTo have_ k) i = (decide (i < k) && have_.getD i false) := by
  induction k with
  | zero =>
    rw [decide_eq_false (Nat.not_lt_zero i), Bool.false_and]
    exact bit_replicate_zero _ i
  | succ k ih =>
    have before := ih (Nat.le_of_succ_le inside)
    have place : k / 8 < (packUpTo have_ k).length := by
      rw [length_packUpTo]
      omega
    rw [packUpTo_succ]
    by_cases last : i = k
    · subst last
      rw [decide_eq_false (Nat.lt_irrefl i), Bool.false_and] at before
      rw [decide_eq_true (Nat.lt_succ_self i), Bool.true_and]
      cases present : have_.getD i false with
      | true =>
        rw [if_pos rfl, bit_or_mask place, decide_eq_true rfl, Bool.or_true]
      | false =>
        rw [if_neg Bool.false_ne_true]
        exact before
    · have same : decide (i < k + 1) = decide (i < k) := decide_eq_decide.mpr (by omega)
      rw [same]
      split
      · rw [bit_or_mask place, decide_eq_false last, Bool.or_false]
        exact before
      · exact before

/-- Every bit is where `has_piece` looks for it, and the spare ones are zero. -/
theorem bit_packBitfield (i : Nat) : bit (packBitfield have_) i = have_.getD i false := by
  refine (bit_packUpTo have_ (Nat.le_refl _) i).trans ?_
  by_cases inside : i < have_.length
  · rw [decide_eq_true inside, Bool.true_and]
  · rw [decide_eq_false inside, Bool.false_and, List.getD_eq_getElem?_getD,
      List.getElem?_eq_none (Nat.not_lt.mp inside), Option.getD_none]

theorem length_packBitfield : (packBitfield have_).length = (have_.length + 7) / 8 :=
  length_packUpTo have_ have_.length

end Pack

section Copy
variable {bf : BitfieldMessage}

/-- What the first loop of `handle_bitfield` writes. -/
def marked (bf : BitfieldMessage) (indices : List Nat) (bits : List Bool) : List Bool :=
  indices.foldl (fun bits i => if bit bf.bitfield i then bits.set i true else bits) bits

theorem copyBitfield_inside {indices : List Nat} (inside : ∀ i ∈ indices, i / 8 < bf.bitfield.length) (world : World) :
    copyBitfield bf indices world =
      ({ world with conn := { world.conn with mPeerBitfield := marked bf indices world.conn.mPeerBitfield } }, .ok ()) := by
  induction indices generalizing world with
  | nil => rfl
  | cons i rest ih =>
    have later := ih fun j member => inside j (List.mem_cons_of_mem i member)
    rw [copyBitfield, BitfieldMessage.hasPiece_inside (inside i List.mem_cons_self), marked, List.foldl_cons]
    cases bit bf.bitfield i with
    | true => exact later _
    | false => exact later _

/-- An index without a byte ends the loop. -/
theorem copyBitfield_beyond {indices : List Nat} {i : Nat} (member : i ∈ indices) (beyond : bf.bitfield.length ≤ i / 8)
    (world : World) : ∃ error, (copyBitfield bf indices world).2 = .error error := by
  induction indices generalizing world with
  | nil => cases member
  | cons j rest ih =>
    rw [copyBitfield]
    rcases Nat.lt_or_ge (j / 8) bf.bitfield.length with inside | outside
    · have other : i ∈ rest := by
        rcases List.mem_cons.mp member with rfl | later
        · exact absurd inside (Nat.not_lt.mpr beyond)
        · exact later
      rw [BitfieldMessage.hasPiece_inside inside]
      cases bit bf.bitfield j with
      | true => exact ih other _
      | false => exact ih other world
    · rw [BitfieldMessage.hasPiece_beyond outside]
      exact ⟨_, rfl⟩

/-- On a fresh connection the loop leaves the bits of the message. -/
theorem marked_range {n k : Nat} (inside : k ≤ n) :
    marked bf (List.range k) (List.replicate n false) = (List.range k).map (bit bf.bitfield) ++ List.replicate (n - k) false := by
  induction k with
  | zero => rfl
  | succ k ih =>
    have before := ih (Nat.le_of_succ_le inside)
    have rest : n - k = (n - (k + 1)) + 1 := by omega
    rw [rest, List.replicate_succ] at before
    rw [marked, List.range_succ, List.foldl_append, List.map_append, List.append_assoc]
    change (if bit bf.bitfield k then (marked bf (List.range k) _).set k true else marked bf (List.range k) _) = _
    have length : ((List.range k).map (bit bf.bitfield)).length = k := by rw [List.length_map, List.length_range]
    rw [before, List.set_append_right k true (Nat.le_of_eq length), length, Nat.sub_self, List.set_cons_zero]
    cases present : bit bf.bitfield k with
    | true => rw [if_pos rfl, List.map_singleton, present, List.singleton_append]
    | false => rw [if_neg Bool.false_ne_true, List.map_singleton, present, List.singleton_append]

end Copy

section RoundTrip
variable {pm pm' : PieceManager} {pieces pieces' : Pieces}

theorem length_currentBitfield (pm : PieceManager) (pieces : Pieces) :
    (pm.currentBitfield pieces).length = pm.mNumPieces := by
  rw [PieceManager.currentBitfield, List.length_map, List.length_range]

/-- A connection that has just begun takes the packed bits for the peer's. -/
theorem copyBitfield_fresh (have_ : List Bool) (disk : Disk) (pieces : Pieces) (pm : PieceManager)
    (size : have_.length = pm.mNumPieces) :
    copyBitfield ⟨packBitfield have_⟩ (List.range pm.mNumPieces) ⟨make pm, pieces, disk⟩ =
      (⟨{ make pm with mPeerBitfield := have_ }, pieces, disk⟩, .ok ()) := by
  have inside : ∀ i ∈ List.range pm.mNumPieces, i / 8 < (packBitfield have_).length := by
    intro i member
    have below := List.mem_range.mp member
    rw [length_packBitfield, size]
    omega
  have bits : (List.range pm.mNumPieces).map (bit (packBitfield have_)) = have_ := by
    refine List.ext_getElem (by rw [List.length_map, List.length_range, size]) fun i _ below => ?_
    rw [List.getElem_map, List.getElem_range, bit_packBitfield, List.getD_eq_getElem?_getD,
      List.getElem?_eq_getElem below, Option.getD_some]
  have written : marked ⟨packBitfield have_⟩ (List.range pm.mNumPieces) (make pm).mPeerBitfield = have_ := by
    refine (marked_range (Nat.le_refl _)).trans ?_
    rw [Nat.sub_self, List.replicate_zero, List.append_nil]
    exact bits
  rw [@copyBitfield_inside ⟨packBitfield have_⟩ _ inside, written]

/-- The second loop of `handle_bitfield`. -/
theorem lacks_iff {have_ : List Bool} :
    (List.range pm.mNumPieces).any (fun i => have_.getD i false && !pm.havePiece i pieces) = true ↔
      ∃ i < pm.mNumPieces, have_.getD i false = true ∧ pieces.mHave i = false := by
  rw [List.any_eq_true]
  constructor
  · rintro ⟨i, member, needed⟩
    have below := List.mem_range.mp member
    rw [Bool.and_eq_true, PieceManager.havePiece, decide_eq_true below, Bool.true_and, Bool.not_eq_true'] at needed
    exact ⟨i, below, needed⟩
  · rintro ⟨i, below, needed⟩
    refine ⟨i, List.mem_range.mpr below, ?_⟩
    rw [Bool.and_eq_true, PieceManager.havePiece, decide_eq_true below, Bool.true_and, Bool.not_eq_true']
    exact needed

/-- What `handle_bitfield` makes of a packed vector. -/
theorem handleBitfield_packed (io : Io) (have_ : List Bool) (pieces : Pieces) (disk : Disk)
    (size : have_.length = pm.mNumPieces) :
    handleBitfield pm io (BitfieldMessage.toPeerMessage ⟨packBitfield have_⟩) ⟨make pm, pieces, disk⟩ =
      if ∃ i < pm.mNumPieces, have_.getD i false = true ∧ pieces.mHave i = false then
        sendInterested io ⟨{ make pm with mPeerBitfield := have_ }, pieces, disk⟩
      else (⟨{ make pm with mPeerBitfield := have_ }, pieces, disk⟩, .ok ()) := by
  have decoded : BitfieldMessage.fromPeerMessage (BitfieldMessage.toPeerMessage ⟨packBitfield have_⟩) =
      .ok ⟨packBitfield have_⟩ := if_neg (not_not_intro rfl)
  have fresh : (make pm).mPeerBitfield.length = pm.mNumPieces := List.length_replicate
  simp only [handleBitfield, decoded, fresh, ne_eq, not_true_eq_false, if_false,
    copyBitfield_fresh have_ disk pieces pm size, Outcome.andThen]
  exact if_congr lacks_iff rfl rfl

/-- A bitfield that is too short is an error, on any connection. -/
theorem handleBitfield_short (io : Io) {payload : Bytes} (short : payload.length < (pm.mNumPieces + 7) / 8) (world : World) :
    ∃ error, (handleBitfield pm io ⟨.bitfield, payload⟩ world).2 = .error error := by
  have decoded : BitfieldMessage.fromPeerMessage ⟨.bitfield, payload⟩ = .ok ⟨payload⟩ := if_neg (not_not_intro rfl)
  simp only [handleBitfield, decoded]
  split
  case isTrue => exact ⟨_, rfl⟩
  case isFalse =>
    have last : pm.mNumPieces - 1 ∈ List.range pm.mNumPieces := List.mem_range.mpr (by omega)
    have beyond : payload.length ≤ (pm.mNumPieces - 1) / 8 := by omega
    obtain ⟨error, thrown⟩ := @copyBitfield_beyond ⟨payload⟩ _ _ last beyond world
    refine ⟨error, ?_⟩
    cases copied : copyBitfield ⟨payload⟩ (List.range pm.mNumPieces) world with
    | mk after result =>
      rw [copied] at thrown
      cases result with
      | ok => cases thrown
      | error => exact thrown

theorem sendBitfield_eq_sendMessage (some : ∃ i < pm.mNumPieces, pieces.mHave i = true) (io : Io) (conn : PeerConnection)
    (disk : Disk) :
    sendBitfield pm io ⟨conn, pieces, disk⟩ =
      sendMessage io (BitfieldMessage.toPeerMessage ⟨packBitfield (pm.currentBitfield pieces)⟩) ⟨conn, pieces, disk⟩ := by
  obtain ⟨i, below, present⟩ := some
  have member : true ∈ pm.currentBitfield pieces := List.mem_map.mpr ⟨i, List.mem_range.mpr below, present⟩
  refine if_neg fun none => ?_
  have absent := List.all_eq_true.mp none true member
  cases absent

/-- Interest on a connection that has shown none and sent nothing. -/
theorem sendInterested_first (io : Io) {world : World} (quiet : world.conn.mAmInterested = false) (first : world.conn.sent = []) :
    (sendInterested io world).1.conn.mPeerBitfield = world.conn.mPeerBitfield ∧
      (sendInterested io world).2 = (if io.accepts 0 = false then .error io.refusal else .ok ()) ∧
      (sendInterested io world).1.conn.sent = if io.accepts 0 = true then [⟨.interested, []⟩] else [] := by
  rw [sendInterested, if_neg (by rw [quiet]; exact Bool.false_ne_true), sendMessage, first, List.length_nil]
  cases io.accepts 0 with
  | true => exact ⟨rfl, rfl, rfl⟩
  | false => exact ⟨rfl, rfl, first⟩

/-- The have-vector of one side becomes the peer's bitfield on the other, bit by
bit, and tells it whether to be interested. -/
theorem bitfield_survives_wire (some : ∃ i < pm.mNumPieces, pieces.mHave i = true) (same : pm'.mNumPieces = pm.mNumPieces)
    (io io' : Io) (conn : PeerConnection) (disk disk' : Disk) :
    let vector := pm.currentBitfield pieces
    ∃ msg, sendBitfield pm io ⟨conn, pieces, disk⟩ = sendMessage io msg ⟨conn, pieces, disk⟩ ∧
      msg.payload.length = (pm.mNumPieces + 7) / 8 ∧ (∀ i, pm.mNumPieces ≤ i → bit msg.payload i = false) ∧
      (let outcome := handleBitfield pm' io' msg ⟨make pm', pieces', disk'⟩
      outcome.1.conn.mPeerBitfield = vector ∧
        outcome.2 = (if (∃ i < pm.mNumPieces, vector.getD i false = true ∧ pieces'.mHave i = false) ∧ io'.accepts 0 = false
          then .error io'.refusal else .ok ()) ∧
        outcome.1.conn.sent = if (∃ i < pm.mNumPieces, vector.getD i false = true ∧ pieces'.mHave i = false) ∧
          io'.accepts 0 = true then [⟨.interested, []⟩] else []) ∧
      ∀ payload : Bytes, payload.length < (pm.mNumPieces + 7) / 8 → ∀ world,
        ∃ error, (handleBitfield pm' io' ⟨.bitfield, payload⟩ world).2 = .error error := by
  intro vector
  have length : vector.length = pm.mNumPieces := length_currentBitfield pm pieces
  refine ⟨BitfieldMessage.toPeerMessage ⟨packBitfield vector⟩, sendBitfield_eq_sendMessage some io conn disk, ?size, ?spare,
    ?received, ?short⟩
  case size => exact (length_packBitfield vector).trans (by rw [length])
  case spare =>
    intro i beyond
    refine (bit_packBitfield vector i).trans ?_
    rw [List.getD_eq_getElem?_getD, List.getElem?_eq_none (length.trans_le beyond), Option.getD_none]
  case received =>
    intro outcome
    have result : outcome = _ := handleBitfield_packed io' vector pieces' disk' (length.trans same.symm)
    rw [same] at result
    by_cases lacks : ∃ i < pm.mNumPieces, vector.getD i false = true ∧ pieces'.mHave i = false
    · rw [if_pos lacks] at result
      have interested := @sendInterested_first io' ⟨{ make pm' with mPeerBitfield := vector }, pieces', disk'⟩ rfl rfl
      rw [← result] at interested
      simp only [lacks, true_and]
      exact interested
    · rw [if_neg lacks] at result
      simp only [lacks, false_and, if_false, result]
      exact ⟨trivial, trivial, rfl⟩
  case short =>
    intro payload short world
    rw [← same] at short
    exact handleBitfield_short io' short world

/-- A torrent of ten pieces of which one side has the second and the last. -/
def tenPieces : PieceManager where
  mTotalLengthBytes := 30
  mNumPieces := 10
  mNominalPieceLength := 3
  mPieceHashes := List.replicate 10 (oneByteSha1 [])
  totalLengthBytes_lt := by decide
  numPieces_lt := by decide
  nominalPieceLength_lt := by decide
  pieceHashes_length := rfl

def secondAndLast : Pieces := { Pieces.fresh with mHave := fun i => i == 1 || i == 9 }

theorem second_and_last_survive :
    ∃ msg, sendBitfield tenPieces ⟨.none, fun _ => true, false⟩ ⟨make tenPieces, secondAndLast, Disk.bare⟩ =
        sendMessage ⟨.none, fun _ => true, false⟩ msg ⟨make tenPieces, secondAndLast, Disk.bare⟩ ∧
      msg.payload.length = 2 ∧
      (handleBitfield tenPieces ⟨.none, fun _ => true, false⟩ msg
        ⟨make tenPieces, Pieces.fresh, Disk.bare⟩).1.conn.mPeerBitfield =
        [false, true, false, false, false, false, false, false, false, true] := by
  obtain ⟨msg, sent, size, _, received, _⟩ :=
    @bitfield_survives_wire tenPieces tenPieces secondAndLast Pieces.fresh ⟨1, by decide, rfl⟩ rfl ⟨.none, fun _ => true, false⟩
      ⟨.none, fun _ => true, false⟩ (make tenPieces) Disk.bare Disk.bare
  exact ⟨msg, sent, size, received.1⟩

end RoundTrip

end PeerConnection

end BittorrentClient
