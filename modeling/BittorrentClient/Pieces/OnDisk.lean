import BittorrentClient.Disk.Refinement
import BittorrentClient.Pieces.Counters

namespace BittorrentClient
open Cpp Splice

namespace DiskWriter

/-- The bytes the output files hold for one piece. -/
def pieceOnDisk (w : DiskWriter) (disk : Disk) (index : Nat) : Bytes :=
  slice (w.contents disk) (index * w.pieceSize) (w.pieceBytes index)

/-- A disk on which nothing was preallocated yet, or everything was, each file in a
place of its own. -/
structure Prepared (w : DiskWriter) (disk : Disk) : Prop where
  apart : w.Apart disk
  stored : disk.preallocated = true → Stored w w.files disk

theorem Sound.pieceLength_error {w : DiskWriter} (sound : w.Sound) {index : Nat} (small : index < 2 ^ 32)
    (past : ¬w.InRange index) : w.pieceLength index = .error (.indexOutOfRange index) := by
  have size := sound.pieceSize_lt
  have product : index * w.pieceSize ≤ (2 ^ 32 - 1) * (2 ^ 32 - 1) := Nat.mul_le_mul (by omega) (by omega)
  have beyond : w.totalSize ≤ index * w.pieceSize := Nat.le_of_not_lt fun inside => past ⟨small, inside⟩
  simp only [pieceLength, pieceGlobalOffset, u64_eq (by omega : index * w.pieceSize < 2 ^ 64), beyond, if_true]

/-- A call of `write_piece` that does not get as far as the files. -/
theorem writePiece_refused {w : DiskWriter} {disk : Disk} (sound : w.Sound) (faults : IoFaults) {index : Nat}
    (small : index < 2 ^ 32) {data : Bytes}
    (refused : ¬(disk.preallocated = true ∧ w.InRange index ∧ data.length = w.pieceBytes index)) :
    ∃ error, w.writePiece faults index data disk = (disk, .error error) := by
  unfold writePiece
  by_cases allocated : disk.preallocated = true
  swap
  · exact ⟨.notPreallocated, by simp only [allocated, Bool.not_false, if_true]⟩
  rw [allocated, Bool.not_true, if_neg (by decide)]
  by_cases inRange : w.InRange index
  · have sized : data.length ≠ w.pieceBytes index := fun same => refused ⟨allocated, inRange, same⟩
    exact ⟨.writeSizeMismatch index (w.pieceBytes index) data.length,
      by simp only [sound.pieceLength_eq inRange, ne_eq, sized, not_false_eq_true, if_true]⟩
  · exact ⟨.indexOutOfRange index, by rw [sound.pieceLength_error small inRange]⟩

/-- What any call of `write_piece` does to the pieces on disk: the others keep
their bytes, its own holds the data after success unless some of it got lost
unnoticed, and a piece that held the data before holds it after a failure too. -/
theorem writePiece_pieces {w : DiskWriter} {disk : Disk} (sound : w.Sound) (prepared : w.Prepared disk)
    (faults : IoFaults) {index : Nat} (small : index < 2 ^ 32) (data : Bytes) :
    w.Prepared (w.writePiece faults index data disk).1 ∧
    (∀ i ≠ index, w.pieceOnDisk (w.writePiece faults index data disk).1 i = w.pieceOnDisk disk i) ∧
    (w.Loud faults w.files → (w.writePiece faults index data disk).2 = .ok () →
      w.pieceOnDisk (w.writePiece faults index data disk).1 index = data) ∧
    (w.pieceOnDisk disk index = data → w.pieceOnDisk (w.writePiece faults index data disk).1 index = data) := by
  by_cases passes : disk.preallocated = true ∧ w.InRange index ∧ data.length = w.pieceBytes index
  swap
  · obtain ⟨error, refused⟩ := writePiece_refused sound faults small passes
    rw [refused]
    exact ⟨prepared, fun _ _ => rfl, by rintro _ ⟨⟩, id⟩
  obtain ⟨allocated, inRange, sized⟩ := passes
  have ready : w.Ready disk := ⟨allocated, prepared.apart, prepared.stored allocated⟩
  obtain ⟨after, patched, outcome⟩ := writePiece_spec sound ready faults inRange sized
  refine ⟨⟨after.apart, fun _ => after.stored⟩, ?_, ?_, ?_⟩
  · intro i different
    refine patched.slice_eq ?_
    rw [sized]
    exact pieces_apart w different
  · intro loud succeeded
    rcases outcome with ⟨_, written⟩ | ⟨⟨error, failed⟩, _⟩
    · rw [pieceOnDisk, written loud, ← sized]
      refine slice_overwrite_self ?_
      rw [ready.contents_length sound, sized]
      exact pieceBytes_bound inRange
    · rw [failed] at succeeded
      cases succeeded
  · intro holds
    rw [pieceOnDisk, ← sized] at holds ⊢
    exact patched.slice_self holds

theorem readPiece_pieceOnDisk {w : DiskWriter} {disk : Disk} (sound : w.Sound) (prepared : w.Prepared disk)
    {faults : IoFaults} {index : Nat} (small : index < 2 ^ 32) {piece : Bytes}
    (found : w.readPiece faults index disk = .ok piece) : piece = w.pieceOnDisk disk index := by
  by_cases allocated : disk.preallocated = true
  swap
  · simp only [readPiece, allocated, Bool.not_false, if_true, reduceCtorEq] at found
  by_cases inRange : w.InRange index
  · rcases readPiece_spec sound ⟨allocated, prepared.apart, prepared.stored allocated⟩ faults inRange with read | ⟨⟨error, failed⟩, _⟩
    · rw [read] at found
      exact (Except.ok.inj found).symm
    · rw [failed] at found
      cases found
  · simp only [readPiece, allocated, Bool.not_true, Bool.false_eq_true, if_false,
      sound.pieceLength_error small inRange, reduceCtorEq] at found

end DiskWriter

namespace Threads
open Machine

section
variable (pm : PieceManager) (w : DiskWriter) (sha1 : Bytes → Sha1Hash)

/-- The output files hold bytes with the digest the torrent lists for the piece. -/
def OnDisk (s : State) (index : Nat) : Prop := pm.verifies sha1 index (w.pieceOnDisk s.disk index) = true

/-- A set flag means that the piece is on disk. -/
def FlagsOnDisk (s : State) : Prop :=
  ∀ i < pm.mNumPieces, s.pieces.mHave i = true → OnDisk pm w sha1 s i

/-- Every block handed out is cut from data with the digest of its piece. -/
def BlocksVerified (s : State) : Prop :=
  ∀ index begin_ length bytes, .block index begin_ length bytes ∈ s.returned →
    ∃ data, pm.verifies sha1 index data = true ∧ begin_ + length ≤ data.length ∧ bytes = slice data begin_ length

/-- Every bitfield handed out names only pieces that are on disk. -/
def BitfieldsOnDisk (s : State) : Prop :=
  ∀ bf, .bitfield bf ∈ s.returned → ∀ i : Nat, bf[i]? = some true → OnDisk pm w sha1 s i

/-- The files hold the data of the piece whose flag the thread is about to
set, if that is what it is about to do. -/
def swapIsStored (s : State) (thread : Nat) : Bool :=
  match s.pc thread with
  | .casHave index data => s.pieces.mHave index || decide (w.pieceOnDisk s.disk index = data)
  | _ => true

/-- The guard of the runs in which a thread swaps a missing flag only when the
files already hold its data. -/
def SwapsOnlyStored (s : State) : Label → Prop
  | .advance thread _ => swapIsStored w s thread = true
  | _ => True

instance (s : State) : (label : Label) → Decidable (SwapsOnlyStored w s label)
  | .advance thread _ => inferInstanceAs (Decidable (swapIsStored w s thread = true))
  | .completePiece .. | .readBlock .. | .currentBitfield _ => inferInstanceAs (Decidable True)

/-- A fresh manager over files that were preallocated, or not touched yet. -/
def Fresh (s : State) : Prop := Initial s ∧ w.Prepared s.disk

/-- What the guarded runs keep: nothing that is on disk ever changes. -/
structure Stable (s : State) : Prop where
  prepared : w.Prepared s.disk
  valid : ∀ thread, (s.pc thread).Valid pm sha1 s.pieces.mHave
  flags : FlagsOnDisk pm w sha1 s
  writing : ∀ thread index data, s.pc thread = .write index data → w.pieceOnDisk s.disk index = data
  blocks : BlocksVerified pm sha1 s
  bitfields : ∀ bf, .bitfield bf ∈ s.returned → ∀ i : Nat, bf[i]? = some true →
    i < pm.mNumPieces ∧ s.pieces.mHave i = true

end

variable {pm : PieceManager} {w : DiskWriter} {sha1 : Bytes → Sha1Hash} {s s' : State}

theorem Fresh.stable (fresh : Fresh w s) : Stable pm w sha1 s := by
  obtain ⟨initial, prepared⟩ := fresh
  refine ⟨prepared, initial.valid, ?_, ?_, ?_, ?_⟩
  · intro i _ had
    rw [initial.1] at had
    cases had
  · intro thread index data located
    rw [initial.2.1] at located
    cases located
  · intro index begin_ length bytes member
    rw [initial.2.2.2] at member
    cases member
  · intro bf member
    rw [initial.2.2.2] at member
    cases member

/-- A block copied from a piece that is on disk is verified. -/
theorem Stable.block_verified (stable : Stable pm w sha1 s) (sound : w.Sound) {faults : IoFaults}
    {index begin_ length : Nat} {piece bytes : Bytes} (inRange : index < pm.mNumPieces)
    (had : s.pieces.mHave index = true) (found : w.readPiece faults index s.disk = .ok piece)
    (copied : PieceManager.copyBlock index begin_ length piece = .ok bytes) :
    ∃ data, pm.verifies sha1 index data = true ∧ begin_ + length ≤ data.length ∧
      bytes = slice data begin_ length := by
  have small := Nat.lt_trans inRange pm.numPieces_lt
  have stored := DiskWriter.readPiece_pieceOnDisk sound stable.prepared small found
  unfold PieceManager.copyBlock at copied
  split at copied
  case isTrue fits =>
    refine ⟨piece, ?_, fits, (Except.ok.inj copied).symm⟩
    rw [stored]
    exact stable.flags index inRange had
  case isFalse => cases copied

/-- Rewriting a piece with the bytes it has leaves all pieces as they are. -/
theorem Stable.write_keeps (stable : Stable pm w sha1 s) (sound : w.Sound) (faults : IoFaults) {thread index : Nat}
    {data : Bytes} (located : s.pc thread = .write index data) :
    w.Prepared (w.writePiece faults index data s.disk).1 ∧
      ∀ i, w.pieceOnDisk (w.writePiece faults index data s.disk).1 i = w.pieceOnDisk s.disk i := by
  have valid := stable.valid thread
  rw [located] at valid
  have small := Nat.lt_trans valid.1 pm.numPieces_lt
  obtain ⟨prepared, others, _, rewritten⟩ := DiskWriter.writePiece_pieces sound stable.prepared faults small data
  have holds := stable.writing thread index data located
  refine ⟨prepared, ?_⟩
  intro i
  by_cases same : i = index
  · subst same
    rw [rewritten holds, holds]
  · exact others i same

theorem Handed.verified {thread : Nat} {result : Return} (handed : Handed w s (s.pc thread) result)
    (stable : Stable pm w sha1 s) (sound : w.Sound) :
    (∀ index begin_ length bytes, result = .block index begin_ length bytes →
      ∃ data, pm.verifies sha1 index data = true ∧ begin_ + length ≤ data.length ∧
        bytes = slice data begin_ length) ∧
    ∀ bf, result = .bitfield bf → ∀ i : Nat, bf[i]? = some true → i < pm.mNumPieces ∧ s.pieces.mHave i = true := by
  have valid := stable.valid thread
  generalize s.pc thread = pc at handed valid
  cases handed with
  | block found copied =>
    refine ⟨?_, by rintro _ ⟨⟩⟩
    rintro _ _ _ _ ⟨⟩
    exact stable.block_verified sound valid.1 valid.2.1 found copied
  | bitfield =>
    refine ⟨by rintro _ _ _ _ ⟨⟩, ?_⟩
    rintro _ ⟨⟩
    exact valid.2
  | completed => exact ⟨by rintro _ _ _ _ ⟨⟩, by rintro _ ⟨⟩⟩
  | threw => exact ⟨by rintro _ _ _ _ ⟨⟩, by rintro _ ⟨⟩⟩

/-- A thread that moves anywhere but before a write, over files whose pieces
stay as they are. -/
theorem Stable.writing_move (stable : Stable pm w sha1 s) {thread : Nat} {pc : Pc} {disk : Disk}
    (elsewhere : ∀ index data, pc ≠ .write index data)
    (same : ∀ i, w.pieceOnDisk disk i = w.pieceOnDisk s.disk i) (other index : Nat) (data : Bytes)
    (located : Function.update s.pc thread pc other = .write index data) : w.pieceOnDisk disk index = data := by
  rcases write_update located with ⟨_, moved⟩ | ⟨_, before⟩
  · exact absurd moved (elsewhere index data)
  · rw [same]
    exact stable.writing other index data before

/-- What a thread hands out is as good as what was handed out before. -/
theorem Stable.hands (stable : Stable pm w sha1 s) (sound : w.Sound) {thread : Nat} {returned : List Return}
    (handed : ∀ r ∈ returned, r ∈ s.returned ∨ Handed w s (s.pc thread) r) :
    (∀ index begin_ length bytes, .block index begin_ length bytes ∈ returned →
      ∃ data, pm.verifies sha1 index data = true ∧ begin_ + length ≤ data.length ∧
        bytes = slice data begin_ length) ∧
    ∀ bf, .bitfield bf ∈ returned → ∀ i : Nat, bf[i]? = some true → i < pm.mNumPieces ∧ s.pieces.mHave i = true := by
  constructor
  · intro index begin_ length bytes member
    rcases handed _ member with before | given
    · exact stable.blocks index begin_ length bytes before
    · exact (given.verified stable sound).1 index begin_ length bytes rfl
  · intro bf member
    rcases handed _ member with before | given
    · exact stable.bitfields bf before
    · exact (given.verified stable sound).2 bf rfl

theorem Action.stable {label : Label} (action : Action pm w sha1 s label s') (sound : w.Sound)
    (allowed : SwapsOnlyStored w s label) (stable : Stable pm w sha1 s) : Stable pm w sha1 s' := by
  have valid := action.valid stable.valid
  have more := fun i => action.have_mono (i := i)
  cases action with
  | @move label thread pc failures returned outside stays moved handed =>
    obtain ⟨blocks, bitfields⟩ := stable.hands sound handed
    refine ⟨stable.prepared, valid, stable.flags, stable.writing_move ?_ fun _ => rfl, blocks, bitfields⟩
    rintro index data rfl
    cases stays
  | @win thread index data faults located missing =>
    have holds : w.pieceOnDisk s.disk index = data := by
      simpa only [SwapsOnlyStored, swapIsStored, located, missing, Bool.false_or, decide_eq_true_eq] using allowed
    have before := stable.valid thread
    rw [located] at before
    refine ⟨stable.prepared, valid, ?_, ?_, stable.blocks, ?_⟩
    · intro i below had
      by_cases same : i = index
      · subst same
        rw [OnDisk, holds]
        exact before.2
      · exact stable.flags i below ((Function.update_of_ne same ..).symm.trans had)
    · intro other i bytes found
      rcases write_update found with ⟨_, ⟨⟩⟩ | ⟨_, theirs⟩
      · exact holds
      · exact stable.writing other i bytes theirs
    · intro bf member i found
      obtain ⟨below, had⟩ := stable.bitfields bf member i found
      exact ⟨below, more i had⟩
  | @wrote thread index data faults located success =>
    obtain ⟨prepared, same⟩ := stable.write_keeps sound faults located
    refine ⟨prepared, valid, ?_, stable.writing_move nofun same, stable.blocks, stable.bitfields⟩
    intro i below had
    rw [OnDisk, same]
    exact stable.flags i below had
  | @failed thread index data faults error located failure =>
    obtain ⟨prepared, same⟩ := stable.write_keeps sound faults located
    obtain ⟨blocks, bitfields⟩ := stable.hands sound (handed_cons (.threw : Handed w s (s.pc thread) _))
    refine ⟨prepared, valid, ?_, stable.writing_move nofun same, blocks, bitfields⟩
    intro i below had
    rw [OnDisk, same]
    exact stable.flags i below had
  | @booked thread index faults located =>
    exact ⟨stable.prepared, valid, stable.flags, stable.writing_move nofun fun _ => rfl, stable.blocks,
      stable.bitfields⟩
  | @counted thread index faults located =>
    obtain ⟨blocks, bitfields⟩ := stable.hands sound (handed_cons (.completed : Handed w s (s.pc thread) _))
    exact ⟨stable.prepared, valid, stable.flags, stable.writing_move nofun fun _ => rfl, blocks, bitfields⟩

section
variable (pm : PieceManager) (w : DiskWriter) (sha1 : Bytes → Sha1Hash)

/-- The four ways a flag can be set: the piece is on disk, its write is still
to come, its write failed, or it went through and may have lost bytes unnoticed. -/
def Accounted (s : State) : Prop :=
  ∀ i < pm.mNumPieces, s.pieces.mHave i = true →
    OnDisk pm w sha1 s i ∨ (∃ thread data, s.pc thread = .write i data) ∨
      ∃ call ∈ s.writes, call.index = i ∧ (call.ok = false ∨ ¬w.Loud call.faults w.files)

end

/-- Threads other than the one that moves keep their place before a write. -/
theorem write_stays {pcs : Nat → Pc} {thread i : Nat} {pc : Pc} (elsewhere : ∀ data, pcs thread ≠ .write i data)
    (writing : ∃ other data, pcs other = .write i data) :
    ∃ other data, Function.update pcs thread pc other = .write i data := by
  obtain ⟨other, data, located⟩ := writing
  have different : other ≠ thread := by
    rintro rfl
    exact elsewhere data located
  exact ⟨other, data, by rw [Function.update_of_ne different, located]⟩

/-- A write of one piece, successful or not, leaves the others accounted for. -/
theorem Accounted.other_piece (accounted : Accounted pm w sha1 s) {thread index i : Nat} {data : Bytes} {pc : Pc}
    {disk : Disk} {call : WriteCall} (located : s.pc thread = .write index data)
    (others : ∀ j ≠ index, w.pieceOnDisk disk j = w.pieceOnDisk s.disk j) (below : i < pm.mNumPieces)
    (had : s.pieces.mHave i = true) (different : i ≠ index) :
    pm.verifies sha1 i (w.pieceOnDisk disk i) = true ∨
      (∃ other bytes, Function.update s.pc thread pc other = .write i bytes) ∨
      ∃ c ∈ call :: s.writes, c.index = i ∧ (c.ok = false ∨ ¬w.Loud c.faults w.files) := by
  rcases accounted i below had with stored | writing | ⟨c, member, failed⟩
  · left
    rw [others i different]
    exact stored
  · refine Or.inr (Or.inl (write_stays ?_ writing))
    rw [located]
    rintro _ ⟨⟩
    exact different rfl
  · exact Or.inr (Or.inr ⟨c, List.mem_cons_of_mem _ member, failed⟩)

theorem Action.accounted {label : Label} (action : Action pm w sha1 s label s') (sound : w.Sound)
    (prepared : w.Prepared s.disk) (owned : Owned pm sha1 s) (accounted : Accounted pm w sha1 s) :
    w.Prepared s'.disk ∧ Accounted pm w sha1 s' := by
  cases action with
  | @move label thread pc failures returned outside stays moved handed =>
    refine ⟨prepared, fun i below had => (accounted i below had).imp_right (Or.imp_left (write_stays ?_))⟩
    intro data located
    rw [located] at outside
    cases outside
  | @win thread index data faults located missing =>
    refine ⟨prepared, ?_⟩
    intro i below had
    by_cases same : i = index
    · subst same
      exact Or.inr (Or.inl ⟨thread, data, Function.update_self ..⟩)
    · refine (accounted i below ((Function.update_of_ne same ..).symm.trans had)).imp_right (Or.imp_left (write_stays ?_))
      rw [located]
      exact fun _ => Pc.noConfusion
  | @wrote thread index data faults located success =>
    have valid := owned.valid thread
    rw [located] at valid
    obtain ⟨prepared', others, written, _⟩ := DiskWriter.writePiece_pieces sound prepared faults
      (Nat.lt_trans valid.1 pm.numPieces_lt) data
    refine ⟨prepared', ?_⟩
    intro i below had
    by_cases same : i = index
    · subst same
      by_cases loud : w.Loud faults w.files
      · left
        rw [OnDisk, written loud success]
        exact valid.2.1
      · exact Or.inr (Or.inr ⟨_, List.mem_cons_self .., rfl, Or.inr loud⟩)
    · exact accounted.other_piece located others below had same
  | @failed thread index data faults error located failure =>
    have valid := owned.valid thread
    rw [located] at valid
    obtain ⟨prepared', others, _, _⟩ := DiskWriter.writePiece_pieces sound prepared faults
      (Nat.lt_trans valid.1 pm.numPieces_lt) data
    refine ⟨prepared', ?_⟩
    intro i below had
    by_cases same : i = index
    · subst same
      exact Or.inr (Or.inr ⟨_, List.mem_cons_self .., rfl, Or.inl rfl⟩)
    · exact accounted.other_piece located others below had same
  | @booked thread index faults located =>
    refine ⟨prepared, fun i below had => (accounted i below had).imp_right (Or.imp_left (write_stays ?_))⟩
    rw [located]
    exact fun _ => Pc.noConfusion
  | @counted thread index faults located =>
    refine ⟨prepared, fun i below had => (accounted i below had).imp_right (Or.imp_left (write_stays ?_))⟩
    rw [located]
    exact fun _ => Pc.noConfusion

theorem accounted_of_reach {guard : State → Label → Prop} (sound : w.Sound)
    (reach : Reach (Fresh w) (step pm w sha1) guard s) : Accounted pm w sha1 s := by
  refine (reach.invariant
    (P := fun s => Owned pm sha1 s ∧ w.Prepared s.disk ∧ Accounted pm w sha1 s) ?_ ?_).2.2
  · rintro s ⟨initial, prepared⟩
    refine ⟨initial.owned, prepared, ?_⟩
    intro i _ had
    rw [initial.1] at had
    cases had
  · rintro s s' label ⟨owned, prepared, accounted⟩ _ run
    exact ⟨(step_action run).owned owned, (step_action run).accounted sound prepared owned accounted⟩

/-- Setting a flag over a piece that is not on disk breaks the law at once. -/
theorem swap_unstored {thread index : Nat} {data : Bytes} (faults : IoFaults)
    (valid : ∀ thread, (s.pc thread).Valid pm sha1 s.pieces.mHave) (located : s.pc thread = .casHave index data)
    (missing : s.pieces.mHave index = false) (unstored : ¬OnDisk pm w sha1 s index) :
    ∃ s', step pm w sha1 s (.advance thread faults) = some s' ∧ ¬FlagsOnDisk pm w sha1 s' := by
  have before := valid thread
  rw [located] at before
  refine ⟨_, by simp only [step, advance, located, missing, Bool.false_eq_true, if_false]; rfl, ?_⟩
  intro flags
  exact unstored (flags index before.1 (Function.update_self ..))

/-- In every run whose threads swap a missing flag only over data the files
already hold, the flags, the blocks and the bitfields tell the truth in every
state reached; a swap over a piece that is not on disk breaks the law at once.
In any run at all, a flag that lies has its write still to come, had it fail,
or had it lose bytes unnoticed. -/
theorem flags_tell_the_truth (sound : w.Sound) :
    (∀ s, Reach (Fresh w) (step pm w sha1) (SwapsOnlyStored w) s →
      FlagsOnDisk pm w sha1 s ∧ BlocksVerified pm sha1 s ∧ BitfieldsOnDisk pm w sha1 s) ∧
    ∀ s, Reach (Fresh w) (step pm w sha1) unguarded s →
      (∀ thread index data faults, s.pc thread = .casHave index data → s.pieces.mHave index = false →
        ¬OnDisk pm w sha1 s index →
        ∃ s', step pm w sha1 s (.advance thread faults) = some s' ∧ ¬FlagsOnDisk pm w sha1 s') ∧
      Accounted pm w sha1 s := by
  constructor
  · intro s reach
    have stable : Stable pm w sha1 s := reach.invariant (fun _ fresh => fresh.stable)
      (fun _ _ _ stable allowed run => (step_action run).stable sound allowed stable)
    refine ⟨stable.flags, stable.blocks, ?_⟩
    intro bf member i found
    obtain ⟨below, had⟩ := stable.bitfields bf member i found
    exact stable.flags i below had
  · intro s reach
    have valid := reach.invariant (P := fun s => ∀ thread, (s.pc thread).Valid pm sha1 s.pieces.mHave)
      (fun _ fresh => fresh.1.valid) (fun _ _ _ valid _ run => (step_action run).valid valid)
    refine ⟨?_, accounted_of_reach sound reach⟩
    intro thread index data faults located missing unstored
    exact swap_unstored faults valid located missing unstored

theorem oneByteWriter_sound : oneByteWriter.Sound :=
  ⟨by decide, by decide, by decide, ⟨rfl, trivial⟩, rfl⟩

theorem oneByteStart_fresh : Fresh oneByteWriter oneByteStart := by
  refine ⟨oneByteStart_initial, by decide, fun _ file member => ?_⟩
  rw [List.mem_singleton.mp member]
  exact ⟨[0], rfl, rfl, by decide⟩

/-- A torrent whose one byte is the zero that preallocation leaves. -/
def zeroByte : PieceManager :=
  { oneByte with mPieceHashes := [oneByteSha1 [0]] }

theorem flags_tell_the_truth_zero_byte :
    ∃ s, exec (step zeroByte oneByteWriter oneByteSha1) (SwapsOnlyStored oneByteWriter) oneByteStart
        [.completePiece 0 0 [0], .advance 0 .none, .advance 0 .none, .advance 0 .none] = some s ∧
      s.pieces.mHave 0 = true ∧ OnDisk zeroByte oneByteWriter oneByteSha1 s 0 := by
  have enabled : (exec (step zeroByte oneByteWriter oneByteSha1) (SwapsOnlyStored oneByteWriter) oneByteStart
      [.completePiece 0 0 [0], .advance 0 .none, .advance 0 .none, .advance 0 .none]).isSome = true := by
    decide +kernel
  have run := (Option.some_get enabled).symm
  have truth := (flags_tell_the_truth oneByteWriter_sound).1 _ ((Reach.start oneByteStart_fresh).exec run)
  exact ⟨_, run, rfl, truth.1 0 (by decide) rfl⟩

theorem oneByte_verifies {data : Bytes} (verified : oneByte.verifies oneByteSha1 0 data = true) : data = [1] := by
  by_contra other
  have hashed : oneByte.mPieceHashes[0]? = some (oneByteSha1 data) := beq_iff_eq.mp verified
  rw [oneByteSha1, if_neg other] at hashed
  exact absurd hashed (by decide)

/-- One thread stops between its swap and its write. Another then reads the
preallocated zero as verified data, and a third advertises the piece. -/
theorem flags_ahead_of_disk : ∃ s, Reach (Fresh oneByteWriter) (step oneByte oneByteWriter oneByteSha1) unguarded s ∧
    ¬FlagsOnDisk oneByte oneByteWriter oneByteSha1 s ∧ ¬BlocksVerified oneByte oneByteSha1 s ∧
    ¬BitfieldsOnDisk oneByte oneByteWriter oneByteSha1 s := by
  have enabled : (exec (step oneByte oneByteWriter oneByteSha1) unguarded oneByteStart
      [.completePiece 0 0 [1], .advance 0 .none, .advance 0 .none, .advance 0 .none, .readBlock 1 0 0 1,
        .advance 1 .none, .advance 1 .none, .currentBitfield 2, .advance 2 .none, .advance 2 .none]).isSome = true := by
    decide +kernel
  have run := (Option.some_get enabled).symm
  have zero : oneByteWriter.pieceOnDisk (Option.get _ enabled).disk 0 = [0] := rfl
  have missing : ¬OnDisk oneByte oneByteWriter oneByteSha1 (Option.get _ enabled) 0 := by
    intro stored
    rw [OnDisk, zero] at stored
    exact absurd (oneByte_verifies stored) (by decide)
  refine ⟨_, (Reach.start oneByteStart_fresh).exec run, ?_, ?_, ?_⟩
  · intro flags
    exact missing (flags 0 (by decide) rfl)
  · intro blocks
    obtain ⟨data, verified, _, cut⟩ := blocks 0 0 1 [0] (List.mem_cons_of_mem _ (List.mem_cons_self ..))
    rw [oneByte_verifies verified] at cut
    exact absurd cut (by decide)
  · intro bitfields
    exact missing (bitfields [true] (List.mem_cons_self ..) 0 rfl)

end Threads

end BittorrentClient
