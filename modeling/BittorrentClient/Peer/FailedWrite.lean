import BittorrentClient.Peer.Swarm
import BittorrentClient.Pieces.OnDisk

namespace BittorrentClient
open Cpp Machine

namespace PieceManager

variable {pm : PieceManager} {w : DiskWriter} {sha1 : Bytes → Sha1Hash} {faults : IoFaults} {index : Nat}
  {data : Bytes} {p : Pieces} {disk : Disk}

/-- `complete_piece` passes an exception of `write_piece` on exactly when it
gets as far as calling it and the call throws. -/
theorem completePiece_threw (inRange : index < pm.mNumPieces) :
    (∃ error, (pm.completePiece w sha1 faults index data p disk).2 = .error (.disk error)) ↔
      p.mHave index = false ∧ pm.verifies sha1 index data = true ∧
        (w.writePiece faults index data disk).2 ≠ .ok () := by
  unfold completePiece
  rw [if_neg (Nat.not_le.mpr inRange)]
  cases had : p.mHave index with
  | true => simp
  | false =>
    cases verified : pm.verifies sha1 index data with
    | false => simp
    | true =>
      cases outcome : w.writePiece faults index data disk with
      | mk after result =>
        cases result with
        | ok value => simp
        | error error => simp

/-- The flag is set before the write and not taken back. -/
theorem completePiece_threw_had (inRange : index < pm.mNumPieces) {error : DiskError}
    (threw : (pm.completePiece w sha1 faults index data p disk).2 = .error (.disk error)) :
    p.mHave index = false ∧ (pm.completePiece w sha1 faults index data p disk).1.1.mHave index = true := by
  obtain ⟨missing, verified, failed⟩ := (completePiece_threw inRange).mp ⟨error, threw⟩
  refine ⟨missing, ?_⟩
  unfold completePiece
  rw [if_neg (Nat.not_le.mpr inRange), missing, verified]
  cases outcome : w.writePiece faults index data disk with
  | mk after result =>
    cases result with
    | ok value => exact absurd (by rw [outcome]) failed
    | error error => exact Function.update_self ..

end PieceManager

/-- An exception of `write_piece` during the hand-off of the current piece
leaves the flags and counters alone, and when the destructor has run,
`next_needed` offers the piece to every peer that has it and nothing else we
lack. -/
def FailureAtomic (pm : PieceManager) (w : DiskWriter) (sha1 : Bytes → Sha1Hash) (io : Io) (ifp : InFlightPiece)
    (world : World) : Prop :=
  ∀ error, (PeerConnection.handOff pm w sha1 io ifp world).2 = .error (.piece (.disk error)) →
    let after := (PeerConnection.handOff pm w sha1 io ifp world).1
    after.pieces.mHave = world.pieces.mHave ∧
    after.pieces.mCompletedCount = world.pieces.mCompletedCount ∧
    after.pieces.mCurrDownloadedBytes = world.pieces.mCurrDownloadedBytes ∧
    ∀ peerBitfield : List Bool, peerBitfield.getD ifp.pieceIndex false = true →
      (∀ j < pm.mNumPieces, j ≠ ifp.pieceIndex → peerBitfield.getD j false = true → world.pieces.mHave j = true) →
      (pm.nextNeeded peerBitfield (PeerConnection.releaseClaim pm after)).1.map NeededPiece.index =
        some ifp.pieceIndex

variable {pm : PieceManager} {w : DiskWriter} {sha1 : Bytes → Sha1Hash} {io : Io} {ifp : InFlightPiece} {world : World}

/-- The hand-off reports what `complete_piece` reports. -/
theorem handOff_threw {error : PieceError} :
    (PeerConnection.handOff pm w sha1 io ifp world).2 = .error (.piece error) ↔
      (pm.completePiece w sha1 io.faults ifp.pieceIndex ifp.data world.pieces world.disk).2 = .error error := by
  unfold PeerConnection.handOff
  split
  case h_1 pieces disk thrown outcome => rw [outcome]; simp
  case h_2 pieces disk ok outcome => rw [outcome]; simp

theorem handOff_threw_pieces {error : PieceError}
    (threw : (pm.completePiece w sha1 io.faults ifp.pieceIndex ifp.data world.pieces world.disk).2 = .error error) :
    (PeerConnection.handOff pm w sha1 io ifp world).1.pieces =
      (pm.completePiece w sha1 io.faults ifp.pieceIndex ifp.data world.pieces world.disk).1.1 := by
  unfold PeerConnection.handOff
  split
  case h_1 pieces disk thrown outcome => rw [outcome]
  case h_2 pieces disk ok outcome =>
    rw [outcome] at threw
    cases threw

/-- A thrown write is never undone: the hand-off is failure-atomic exactly when
the write is not reached or does not throw; a write of a preallocated, sound
layout in range, of the right size and without an I/O fault does not throw,
and one that lacks any of the first three does; and once a write of a run has
thrown, the torrent is never complete. -/
theorem failed_write_keeps_flag (inRange : ifp.pieceIndex < pm.mNumPieces) :
    (FailureAtomic pm w sha1 io ifp world ↔
      world.pieces.mHave ifp.pieceIndex = true ∨ pm.verifies sha1 ifp.pieceIndex ifp.data = false ∨
        (w.writePiece io.faults ifp.pieceIndex ifp.data world.disk).2 = .ok ()) ∧
    (w.Sound → w.Prepared world.disk →
      (world.disk.preallocated = true ∧ w.InRange ifp.pieceIndex ∧ ifp.data.length = w.pieceBytes ifp.pieceIndex →
        ¬DiskWriter.IoFaults.Hits io.faults w w.files →
        (w.writePiece io.faults ifp.pieceIndex ifp.data world.disk).2 = .ok ()) ∧
      (¬(world.disk.preallocated = true ∧ w.InRange ifp.pieceIndex ∧
          ifp.data.length = w.pieceBytes ifp.pieceIndex) →
        (w.writePiece io.faults ifp.pieceIndex ifp.data world.disk).2 ≠ .ok ())) ∧
    ∀ s, Reach Threads.Initial (Threads.step pm w sha1) unguarded s →
      (∃ call ∈ s.writes, call.ok = false) → pm.isComplete s.pieces = false := by
  refine ⟨⟨?_, ?_⟩, ?_, ?_⟩
  · intro atomic
    by_contra broken
    simp only [not_or, Bool.not_eq_true, Bool.not_eq_false] at broken
    obtain ⟨error, threw⟩ := (PieceManager.completePiece_threw inRange).mpr broken
    obtain ⟨missing, set⟩ := PieceManager.completePiece_threw_had inRange threw
    have unchanged := (atomic error (handOff_threw.mpr threw)).1
    rw [handOff_threw_pieces threw] at unchanged
    rw [unchanged, missing] at set
    cases set
  · intro condition error threw
    obtain ⟨missing, verified, failed⟩ :=
      (PieceManager.completePiece_threw inRange).mp ⟨error, handOff_threw.mp threw⟩
    rcases condition with had | wrong | written
    · rw [had] at missing
      cases missing
    · rw [verified] at wrong
      cases wrong
    · exact absurd written failed
  · intro sound prepared
    refine ⟨?_, ?_⟩
    · rintro ⟨allocated, fits, sized⟩ calm
      rcases (DiskWriter.writePiece_spec sound ⟨allocated, prepared.apart, prepared.stored allocated⟩ io.faults fits sized).2.2 with
        ⟨done, _⟩ | ⟨_, hits⟩
      · exact done
      · exact absurd hits calm
    · intro refused
      have small := Nat.lt_trans inRange pm.numPieces_lt
      obtain ⟨error, thrown⟩ := DiskWriter.writePiece_refused sound io.faults small refused
      rw [thrown]
      rintro ⟨⟩
  · rintro s reach ⟨call, member, failed⟩
    by_contra complete
    rw [Bool.not_eq_false] at complete
    have below := ((Threads.owned_of_reach reach).verified call member).1
    have kept := (Threads.tally_of_reach reach).all_kept complete call.index below
    rw [(Threads.kept_iff.mp kept).2 call member rfl] at failed
    cases failed

/-- The only piece, assembled under its connection's claim. -/
def oneByteInFlight : InFlightPiece :=
  { PeerConnection.newInFlight oneByte 0 with data := [1], blocksReceived := [true], blocksDone := 1 }

def oneByteWorld : World where
  conn := { PeerConnection.make oneByte with mCurrentPiece := some oneByteInFlight, mCurrentPieceExclusive := true }
  pieces := { Pieces.fresh with mClaimed := fun _ => true }
  disk := Threads.oneByteStart.disk

theorem failed_write_keeps_flag_stored :
    FailureAtomic oneByte oneByteWriter oneByteSha1 ⟨.none, fun _ => true, false⟩ oneByteInFlight oneByteWorld :=
  (failed_write_keeps_flag (by decide)).1.mpr (Or.inr (Or.inr (by decide +kernel)))

/-- The file does not open: the piece counts as had and is offered to nobody
again. -/
theorem failed_write_loses_piece :
    ¬FailureAtomic oneByte oneByteWriter oneByteSha1 ⟨⟨fun _ => true, fun _ => none, fun _ => true⟩, fun _ => true, false⟩
      oneByteInFlight oneByteWorld ∧
    (oneByte.nextNeeded [true] (PeerConnection.releaseClaim oneByte (PeerConnection.handOff oneByte oneByteWriter
      oneByteSha1 ⟨⟨fun _ => true, fun _ => none, fun _ => true⟩, fun _ => true, false⟩ oneByteInFlight oneByteWorld).1)).1 = none := by
  refine ⟨?_, by decide +kernel⟩
  intro atomic
  have unchanged := (atomic (.writeOpenFailed ⟨text ['o', '/', 'a']⟩) (by decide +kernel)).1
  exact absurd (congrFun unchanged 0) (by decide +kernel)

end BittorrentClient
