import BittorrentClient.Peer.Serving

namespace BittorrentClient
open Cpp Splice

namespace PieceManager
variable (pm : PieceManager) (w : DiskWriter) (sha1 : Bytes → Sha1Hash)

/-- Whether `complete_piece` comes to write the piece. -/
def wins (index : Nat) (data : Bytes) (p : Pieces) : Bool :=
  index < pm.mNumPieces && !p.mHave index && pm.verifies sha1 index data

/-- The compare-and-swap of `complete_piece`. -/
def swapHave (index : Nat) (p : Pieces) : Pieces := { p with mHave := Function.update p.mHave index true }

/-- What `complete_piece` does after the compare-and-swap. -/
def storePiece (faults : IoFaults) (index : Nat) (data : Bytes) (had : Pieces) (disk : Disk) :
    (Pieces × Disk) × Except PieceError Bool :=
  match w.writePiece faults index data disk with
  | (failed, .error error) => ((had, failed), .error (.disk error))
  | (written, .ok _) =>
    (({ had with
        mCurrDownloadedBytes := u64 (had.mCurrDownloadedBytes + pm.pieceLength index)
        mCompletedCount := u32 (had.mCompletedCount + 1) }, written), .ok true)

variable {pm w sha1} {faults : IoFaults} {index : Nat} {data : Bytes} {p : Pieces} {disk : Disk}

theorem wins_iff : pm.wins sha1 index data p = true ↔
    index < pm.mNumPieces ∧ p.mHave index = false ∧ pm.verifies sha1 index data = true := by
  simp only [wins, Bool.and_eq_true, decide_eq_true_eq, Bool.not_eq_true', and_assoc]

theorem completePiece_of_wins (wins : pm.wins sha1 index data p = true) :
    pm.completePiece w sha1 faults index data p disk = pm.storePiece w faults index data (swapHave index p) disk := by
  obtain ⟨below, missing, verified⟩ := wins_iff.mp wins
  rw [completePiece, if_neg (Nat.not_le.mpr below), missing, if_neg Bool.false_ne_true, verified, Bool.not_true,
    if_neg Bool.false_ne_true]
  rfl

/-- Without the swap nothing happens to the flags and the files. -/
theorem completePiece_of_loses (loses : pm.wins sha1 index data p = false) :
    (pm.completePiece w sha1 faults index data p disk).1.1.mHave = p.mHave ∧
      (pm.completePiece w sha1 faults index data p disk).1.2 = disk := by
  rw [completePiece]
  split
  case isTrue => exact ⟨rfl, rfl⟩
  case isFalse inRange =>
    split
    case isTrue => exact ⟨rfl, rfl⟩
    case isFalse missing =>
      split
      case isTrue => exact ⟨rfl, rfl⟩
      case isFalse verified =>
        have won := wins_iff.mpr ⟨Nat.not_le.mp inRange, Bool.eq_false_iff.mpr missing, by simpa using verified⟩
        rw [won] at loses
        cases loses

theorem storePiece_mHave : (pm.storePiece w faults index data p disk).1.1.mHave = p.mHave := by
  unfold storePiece
  split
  case h_1 => rfl
  case h_2 => rfl

theorem storePiece_disk : (pm.storePiece w faults index data p disk).1.2 = (w.writePiece faults index data disk).1 := by
  unfold storePiece
  split
  case h_1 outcome => rw [outcome]
  case h_2 outcome => rw [outcome]

end PieceManager

namespace PeerConnection
variable (pm : PieceManager) (w : DiskWriter)

/-- The piece that a message fills with its last block, and the connection then. -/
def filled (conn : PeerConnection) (msg : PeerMessage) : Option (InFlightPiece × PeerConnection) :=
  match conn.mCurrentPiece, conn.answer msg with
  | some ifp, some piece =>
    if ifp.accepts piece && !decide (u32 (ifp.blocksDone + 1) < ifp.blocksTotal) then
      some (ifp.stored piece, conn.received ifp piece)
    else none
  | _, _ => none

/-- The end of `handle_piece` once the flag of the piece is swapped. -/
def storeFilled (io : Io) (ifp : InFlightPiece) (world : World) : Outcome :=
  match pm.storePiece w io.faults ifp.pieceIndex ifp.data world.pieces world.disk with
  | ((pieces, disk), .error error) => ({ world with pieces := pieces, disk := disk }, .error (.piece error))
  | ((pieces, disk), .ok _) => ({ world with pieces := pieces, disk := disk, conn := world.conn.resetPiece }, .ok ())

variable {pm w} {sha1 : Bytes → Sha1Hash} {io : Io} {msg : PeerMessage} {ifp : InFlightPiece} {conn : PeerConnection}
  {world : World}

theorem storeFilled_store : (storeFilled pm w io ifp world).1.store =
    (world.pieces.mHave, (w.writePiece io.faults ifp.pieceIndex ifp.data world.disk).1) := by
  have flags := @PieceManager.storePiece_mHave pm w io.faults ifp.pieceIndex ifp.data world.pieces world.disk
  have files := @PieceManager.storePiece_disk pm w io.faults ifp.pieceIndex ifp.data world.pieces world.disk
  unfold storeFilled
  split
  case h_1 outcome =>
    rw [outcome] at flags files
    exact Prod.ext flags files
  case h_2 outcome =>
    rw [outcome] at flags files
    exact Prod.ext flags files

theorem storeFilled_talk : (storeFilled pm w io ifp world).1.conn.talk = world.conn.talk := by
  unfold storeFilled
  split
  case h_1 => rfl
  case h_2 => rfl

/-- Nothing is said while a block is taken in. -/
theorem filled_talk {received : PeerConnection} (fills : conn.filled msg = some (ifp, received)) : received.talk = conn.talk := by
  unfold filled at fills
  split at fills
  case h_1 =>
    split at fills
    case isTrue =>
      cases fills
      rfl
    case isFalse => cases fills
  case h_2 => cases fills

theorem handleMessage_of_filled (fills : world.conn.filled msg = some (ifp, conn)) :
    handleMessage pm w sha1 io msg world = handOff pm w sha1 io ifp { world with conn := conn } := by
  unfold filled at fills
  split at fills
  case h_1 current piece holds answers =>
    split at fills
    case isTrue accepted =>
      cases fills
      simp only [Bool.and_eq_true, Bool.not_eq_true', decide_eq_false_iff_not] at accepted
      have named : msg.id = .piece := by
        by_contra other
        rw [answer_of_other other] at answers
        cases answers
      rw [handleMessage, named]
      rcases handlePiece_cases pm w sha1 io msg world with ⟨none, _⟩ | ⟨ifp, block, holds', answers', refused | stored⟩
      · rw [answers] at none
        cases none
      · cases holds.symm.trans holds'
        cases answers.symm.trans answers'
        rw [accepted.1] at refused
        cases refused.1
      · cases holds.symm.trans holds'
        cases answers.symm.trans answers'
        rw [stored.2, if_neg accepted.2]
    case isFalse => cases fills
  case h_2 => cases fills

theorem handOff_of_wins (wins : pm.wins sha1 ifp.pieceIndex ifp.data world.pieces = true) :
    handOff pm w sha1 io ifp world =
      storeFilled pm w io ifp { world with pieces := PieceManager.swapHave ifp.pieceIndex world.pieces } := by
  rw [handOff, PieceManager.completePiece_of_wins wins, storeFilled, PieceManager.storePiece]
  cases w.writePiece io.faults ifp.pieceIndex ifp.data world.disk with
  | mk disk result =>
    cases result with
    | error error => rfl
    | ok => rfl

/-- A handler whose message fills a missing piece swaps the flag and goes on from there. -/
theorem handleThenFill_of_filled (fills : world.conn.filled msg = some (ifp, conn))
    (wins : pm.wins sha1 ifp.pieceIndex ifp.data world.pieces = true) :
    handleThenFill pm w sha1 io msg world =
      (storeFilled pm w io ifp ⟨conn, PieceManager.swapHave ifp.pieceIndex world.pieces, world.disk⟩).andThen
        (fillRequests pm io) := by
  rw [handleThenFill, handleMessage_of_filled fills]
  exact congrArg (Outcome.andThen · (fillRequests pm io)) (handOff_of_wins wins)

theorem handOff_store_of_loses (loses : pm.wins sha1 ifp.pieceIndex ifp.data world.pieces = false) :
    (handOff pm w sha1 io ifp world).1.store = world.store := by
  obtain ⟨flags, files⟩ := @PieceManager.completePiece_of_loses pm w sha1 io.faults ifp.pieceIndex ifp.data world.pieces world.disk loses
  rw [handOff_store, flags, files]
  rfl

/-- A handler whose message fills no missing piece leaves the flags and the files alone. -/
theorem handleThenFill_store_of_loses (loses : ∀ ifp conn, world.conn.filled msg = some (ifp, conn) →
    pm.wins sha1 ifp.pieceIndex ifp.data world.pieces = false) :
    (handleThenFill pm w sha1 io msg world).1.store = world.store := by
  have handled : (handleMessage pm w sha1 io msg world).1.store = world.store := by
    by_cases named : msg.id = .piece
    · cases fills : world.conn.filled msg with
      | some fills' =>
        rw [handleMessage_of_filled fills]
        exact handOff_store_of_loses (loses _ _ fills)
      | none =>
        rw [handleMessage, named]
        change (handlePiece pm w sha1 io msg world).1.store = world.store
        rcases handlePiece_cases pm w sha1 io msg world with ⟨_, same⟩ | ⟨ifp, block, holds, answers, ⟨_, same⟩ | ⟨accepted, same⟩⟩
        · rw [same]
        · rw [same]
          rfl
        · have more : u32 (ifp.blocksDone + 1) < ifp.blocksTotal := by
            by_contra full
            simp only [filled, holds, answers, accepted, full, decide_false, Bool.not_false, Bool.and_self, if_true,
              reduceCtorEq] at fills
          simp only [same, if_pos more]
          rfl
    · exact handleMessage_store named world
  exact andThen_store handled fun middle same => (@fillRequests_store pm io middle).trans same

end PeerConnection

namespace Swarm
open PeerConnection
variable {pm : PieceManager} {w : DiskWriter} {sha1 : Bytes → Sha1Hash} {s s' : Swarm} {id : Nat} {outcome : Outcome}

/-- How a swarm goes on after a handler. -/
def settle (pm : PieceManager) (s : Swarm) (id : Nat) : Outcome → Option Swarm
  | (world, .ok _) => some ⟨world.pieces, world.disk, Function.update s.conns id (some world.conn)⟩
  | (world, .error error) => if error.fatal then none else some (destroy pm s id world)

theorem step_eq_settle {conn : PeerConnection} (live : s.conns id = some conn) (msg : PeerMessage) (io : Io) :
    step pm w sha1 s (.message id msg io) = settle pm s id (handleThenFill pm w sha1 io msg ⟨conn, s.pieces, s.disk⟩) := by
  simp only [step, live]
  rfl

theorem settle_spec (run : settle pm s id outcome = some s') :
    s'.pieces.mHave = outcome.1.pieces.mHave ∧ s'.disk = outcome.1.disk ∧
      (s'.conns = Function.update s.conns id (some outcome.1.conn) ∨ s'.conns = Function.update s.conns id none) := by
  obtain ⟨world, result⟩ := outcome
  cases result with
  | ok =>
    cases run
    exact ⟨rfl, rfl, Or.inl rfl⟩
  | error error =>
    rw [settle] at run
    split at run
    case isTrue => cases run
    case isFalse =>
      cases run
      exact ⟨releaseClaim_mHave world, rfl, Or.inr rfl⟩

/-- What a handler changed of its own connection before does not matter any more. -/
theorem settle_update (conn : Option PeerConnection) (pieces : Pieces) (disk : Disk) :
    settle pm ⟨pieces, disk, Function.update s.conns id conn⟩ id outcome = settle pm s id outcome := by
  obtain ⟨world, result⟩ := outcome
  cases result with
  | ok => simp only [settle, Function.update_idem]
  | error error => simp only [settle, destroy, Function.update_idem]

end Swarm

/-- The connection that a step of a swarm is one of. -/
def Swarm.Label.id : Swarm.Label → Nat
  | .open_ id => id
  | .message id _ _ => id
  | .drop id => id

/-- A swarm in which some connections are between the compare-and-swap on the flag of
their piece and the end of its write. -/
structure Overlap extends Swarm where
  writing : Nat → Option InFlightPiece

namespace Overlap
open PeerConnection Talk Machine

/-- A connection that writes no piece takes a whole step, or it swaps the flag of the
piece that a message has filled and later comes to the end of its write. -/
inductive Label
  | whole (label : Swarm.Label)
  | swap (id : Nat) (msg : PeerMessage)
  | finish (id : Nat) (io : Io)

variable (pm : PieceManager) (w : DiskWriter) (sha1 : Bytes → Sha1Hash)

def step (o : Overlap) : Label → Option Overlap
  | .whole label =>
    match o.writing label.id with
    | some _ => none
    | none => (Swarm.step pm w sha1 o.toSwarm label).map fun s => ⟨s, o.writing⟩
  | .swap id msg =>
    match o.writing id, o.conns id with
    | none, some conn =>
      match conn.filled msg with
      | none => none
      | some (ifp, conn) =>
        if pm.wins sha1 ifp.pieceIndex ifp.data o.pieces then
          some ⟨⟨PieceManager.swapHave ifp.pieceIndex o.pieces, o.disk, Function.update o.conns id (some conn)⟩,
            Function.update o.writing id (some ifp)⟩
        else none
    | _, _ => none
  | .finish id io =>
    match o.writing id, o.conns id with
    | some ifp, some conn =>
      (Swarm.settle pm o.toSwarm id ((storeFilled pm w io ifp ⟨conn, o.pieces, o.disk⟩).andThen (fillRequests pm io))).map
        fun s => ⟨s, Function.update o.writing id none⟩
    | _, _ => none

/-- Nobody is connected yet. -/
def Initial (o : Overlap) : Prop := Swarm.Initial o.toSwarm ∧ ∀ id, o.writing id = none

variable {pm w sha1} {o o' : Overlap} {id : Nat} {msg : PeerMessage} {io : Io}

theorem step_whole {label : Swarm.Label} (run : step pm w sha1 o (.whole label) = some o') :
    o.writing label.id = none ∧ ∃ s, Swarm.step pm w sha1 o.toSwarm label = some s ∧ o' = ⟨s, o.writing⟩ := by
  rw [step] at run
  split at run
  case h_1 => cases run
  case h_2 idle =>
    obtain ⟨s, ran, rfl⟩ := Option.map_eq_some_iff.mp run
    exact ⟨idle, s, ran, rfl⟩

theorem step_swap (run : step pm w sha1 o (.swap id msg) = some o') :
    ∃ conn ifp received, o.writing id = none ∧ o.conns id = some conn ∧ conn.filled msg = some (ifp, received) ∧
      pm.wins sha1 ifp.pieceIndex ifp.data o.pieces = true ∧
      o' = ⟨⟨PieceManager.swapHave ifp.pieceIndex o.pieces, o.disk, Function.update o.conns id (some received)⟩,
        Function.update o.writing id (some ifp)⟩ := by
  rw [step] at run
  split at run
  case h_1 conn idle live =>
    split at run
    case h_1 => cases run
    case h_2 ifp received fills =>
      split at run
      case isTrue wins =>
        cases run
        exact ⟨conn, ifp, received, idle, live, fills, wins, rfl⟩
      case isFalse => cases run
  case h_2 => cases run

theorem step_finish (run : step pm w sha1 o (.finish id io) = some o') :
    ∃ ifp conn s, o.writing id = some ifp ∧ o.conns id = some conn ∧
      Swarm.settle pm o.toSwarm id ((storeFilled pm w io ifp ⟨conn, o.pieces, o.disk⟩).andThen (fillRequests pm io)) = some s ∧
      o' = ⟨s, Function.update o.writing id none⟩ := by
  rw [step] at run
  split at run
  case h_1 ifp conn writes live =>
    obtain ⟨s, settled, rfl⟩ := Option.map_eq_some_iff.mp run
    exact ⟨ifp, conn, s, writes, live, settled, rfl⟩
  case h_2 => cases run

/-- The two halves of a handler with nothing in between are the handler. -/
theorem finish_after_swap {middle : Overlap} (swapped : step pm w sha1 o (.swap id msg) = some middle) (io : Io) :
    step pm w sha1 middle (.finish id io) = step pm w sha1 o (.whole (.message id msg io)) := by
  obtain ⟨conn, ifp, received, idle, live, fills, wins, rfl⟩ := step_swap swapped
  have handler := @handleThenFill_of_filled pm w sha1 io msg ifp received ⟨conn, o.pieces, o.disk⟩ fills wins
  simp only [step, Function.update_self, Swarm.Label.id, idle, Swarm.step_eq_settle live, handler, Swarm.settle_update,
    Function.update_idem]
  rw [Function.update_eq_self_iff.mpr idle.symm]

/-- The message does not ask for a block of a piece that some connection is writing. -/
def LeavesUnwritten (o : Overlap) (msg : PeerMessage) : Prop :=
  ∀ req, RequestMessage.fromPeerMessage msg = .ok req → ∀ id ifp, o.writing id = some ifp → ifp.pieceIndex ≠ req.index

/-- What the connection is writing gets to the disk: nothing throws, and nothing is lost
unnoticed. -/
def WritesWhole (w : DiskWriter) (o : Overlap) (id : Nat) (io : Io) : Prop :=
  ∀ ifp, o.writing id = some ifp →
    w.Loud io.faults w.files ∧ (w.writePiece io.faults ifp.pieceIndex ifp.data o.disk).2 = .ok ()

/-- The steps that ask for no piece while it is written, and lose nothing that is written. -/
def Careful (pm : PieceManager) (w : DiskWriter) (sha1 : Bytes → Sha1Hash) (o : Overlap) : Label → Prop
  | .whole (.message id msg io) =>
    o.LeavesUnwritten msg ∧ ∀ middle, step pm w sha1 o (.swap id msg) = some middle → WritesWhole w middle id io
  | .finish id io => WritesWhole w o id io
  | _ => True

/-- Every flag stands for a piece on disk that has the digest the torrent lists, or for
one that is still being written. -/
structure Honest (pm : PieceManager) (w : DiskWriter) (sha1 : Bytes → Sha1Hash) (o : Overlap) : Prop where
  prepared : w.Prepared o.disk
  flags : ∀ i < pm.mNumPieces, o.pieces.mHave i = true →
    pm.verifies sha1 i (w.pieceOnDisk o.disk i) = true ∨ ∃ id ifp, o.writing id = some ifp ∧ ifp.pieceIndex = i
  writing : ∀ id ifp, o.writing id = some ifp →
    ifp.pieceIndex < pm.mNumPieces ∧ pm.verifies sha1 ifp.pieceIndex ifp.data = true

end Overlap

/-- A block that is a part of data with the digest that the torrent lists. -/
def PieceMessage.Genuine (pm : PieceManager) (sha1 : Bytes → Sha1Hash) (piece : PieceMessage) : Prop :=
  piece.Within pm ∧ ∃ data, pm.verifies sha1 piece.index data = true ∧ piece.begin_ + piece.block.length ≤ data.length ∧
    piece.block = slice data piece.begin_ piece.block.length

namespace Overlap
open PeerConnection Talk Machine

variable {pm : PieceManager} {w : DiskWriter} {sha1 : Bytes → Sha1Hash} {o o' : Overlap} {id : Nat} {msg : PeerMessage}
  {io : Io}

theorem Honest.serves (sound : w.Sound) (honest : Honest pm w sha1 o) (leaves : o.LeavesUnwritten msg) :
    Serves (PieceMessage.Genuine pm sha1) pm w o.pieces o.disk msg := by
  intro faults req block parsed positive bounded read
  obtain ⟨size, within⟩ := serves_within o.pieces o.disk msg faults req block parsed positive bounded read
  obtain ⟨below, had, _, piece, found, fits, rfl⟩ := PieceManager.readBlock_ok read
  have whole := DiskWriter.readPiece_pieceOnDisk sound honest.prepared (Nat.lt_trans below pm.numPieces_lt) found
  rcases honest.flags req.index below had with verified | ⟨id, ifp, writes, same⟩
  · refine ⟨size, within, piece, whole ▸ verified, ?_, ?_⟩
    · rw [size]
      exact fits
    · rw [size]
  · exact absurd same (leaves req parsed id ifp writes)

theorem Honest.unchanged (honest : Honest pm w sha1 o) {s : Swarm} (flags : s.pieces.mHave = o.pieces.mHave)
    (disk : s.disk = o.disk) : Honest pm w sha1 ⟨s, o.writing⟩ := by
  refine ⟨?_, ?_, honest.writing⟩
  · rw [disk]
    exact honest.prepared
  · rw [flags, disk]
    exact honest.flags

/-- A write that loses nothing puts its piece on disk and leaves the others alone, and it
is over then. -/
theorem Honest.written (sound : w.Sound) (honest : Honest pm w sha1 o) {faults : IoFaults} (loud : w.Loud faults w.files)
    {index : Nat} {data : Bytes} (below : index < pm.mNumPieces) (verified : pm.verifies sha1 index data = true)
    (stored : (w.writePiece faults index data o.disk).2 = .ok ()) (disk : o'.disk = (w.writePiece faults index data o.disk).1)
    (flags : ∀ i ≠ index, o'.pieces.mHave i = true → o.pieces.mHave i = true)
    (others : ∀ id ifp, o.writing id = some ifp → ifp.pieceIndex ≠ index → o'.writing id = some ifp)
    (older : ∀ id ifp, o'.writing id = some ifp → o.writing id = some ifp) : Honest pm w sha1 o' := by
  obtain ⟨prepared, apart, own, _⟩ :=
    DiskWriter.writePiece_pieces sound honest.prepared faults (Nat.lt_trans below pm.numPieces_lt) data
  rw [← disk] at prepared apart own
  refine ⟨prepared, ?_, fun id ifp writes => honest.writing id ifp (older id ifp writes)⟩
  intro i inRange had
  by_cases same : i = index
  · subst same
    rw [own loud stored]
    exact Or.inl verified
  · rw [apart i same]
    rcases honest.flags i inRange (flags i same had) with onDisk | ⟨id, ifp, writes, rfl⟩
    · exact Or.inl onDisk
    · exact Or.inr ⟨id, ifp, others id ifp writes same, rfl⟩

/-- Once swapped, a flag stands for a piece that is being written. -/
theorem Honest.swap (honest : Honest pm w sha1 o) (run : step pm w sha1 o (.swap id msg) = some o') :
    Honest pm w sha1 o' := by
  obtain ⟨conn, ifp, received, idle, live, fills, wins, rfl⟩ := step_swap run
  obtain ⟨below, missing, verified⟩ := PieceManager.wins_iff.mp wins
  have older : ∀ other ifp', o.writing other = some ifp' → Function.update o.writing id (some ifp) other = some ifp' := by
    intro other ifp' writes
    have another : other ≠ id := by
      rintro rfl
      cases idle.symm.trans writes
    exact (Function.update_of_ne another ..).trans writes
  refine ⟨honest.prepared, ?_, ?_⟩
  · intro i inRange had
    by_cases same : i = ifp.pieceIndex
    · exact Or.inr ⟨id, ifp, Function.update_self .., same.symm⟩
    · rcases honest.flags i inRange ((Function.update_of_ne same ..).symm.trans had) with onDisk | ⟨other, ifp', writes, index⟩
      · exact Or.inl onDisk
      · exact Or.inr ⟨other, ifp', older other ifp' writes, index⟩
  · intro other ifp' writes
    by_cases same : other = id
    · subst same
      cases (Function.update_self ..).symm.trans writes
      exact ⟨below, verified⟩
    · exact honest.writing other ifp' ((Function.update_of_ne same ..).symm.trans writes)

/-- At the end of its write a piece is on disk. -/
theorem Honest.finish (sound : w.Sound) (honest : Honest pm w sha1 o) (careful : WritesWhole w o id io)
    (run : step pm w sha1 o (.finish id io) = some o') : Honest pm w sha1 o' := by
  obtain ⟨ifp, conn, s, writes, live, settled, rfl⟩ := step_finish run
  obtain ⟨flags, disk, _⟩ := Swarm.settle_spec settled
  obtain ⟨loud, stored⟩ := careful ifp writes
  obtain ⟨below, verified⟩ := honest.writing id ifp writes
  have left : (storeFilled pm w io ifp ⟨conn, o.pieces, o.disk⟩).1.store =
      (o.pieces.mHave, (w.writePiece io.faults ifp.pieceIndex ifp.data o.disk).1) := by
    rw [storeFilled_store]
  have filled := andThen_store left fun world same => (@fillRequests_store pm io world).trans same
  obtain ⟨had, files⟩ := Prod.mk.inj filled
  refine honest.written sound loud below verified stored (disk.trans files) ?_ ?_ ?_
  · intro i _ hadNow
    rw [flags, had] at hadNow
    exact hadNow
  · intro other ifp' writes' different
    have another : other ≠ id := by
      rintro rfl
      cases writes.symm.trans writes'
      exact different rfl
    exact (Function.update_of_ne another ..).trans writes'
  · intro other ifp' writes'
    by_cases same : other = id
    · subst same
      cases (Function.update_self ..).symm.trans writes'
    · exact (Function.update_of_ne same ..).symm.trans writes'

/-- A whole step is a swap and the end of its write, or it leaves the flags and the files
alone. -/
theorem Honest.whole (sound : w.Sound) (honest : Honest pm w sha1 o) {label : Swarm.Label}
    (careful : Careful pm w sha1 o (.whole label)) (run : step pm w sha1 o (.whole label) = some o') :
    Honest pm w sha1 o' := by
  cases label with
  | open_ id =>
    obtain ⟨_, s, ran, rfl⟩ := step_whole run
    rw [Swarm.step] at ran
    split at ran
    case h_1 => cases ran
    case h_2 =>
      cases ran
      exact honest.unchanged rfl rfl
  | message id msg io =>
    cases swapped : Overlap.step pm w sha1 o (.swap id msg) with
    | some middle =>
      have finished := (finish_after_swap swapped io).trans run
      exact (honest.swap swapped).finish sound (careful.2 middle swapped) finished
    | none =>
      obtain ⟨idle, s, ran, rfl⟩ := step_whole run
      obtain ⟨conn, live, _⟩ := Swarm.step_message ran
      rw [Swarm.step_eq_settle live] at ran
      obtain ⟨flags, disk, _⟩ := Swarm.settle_spec ran
      have loses : ∀ ifp received, conn.filled msg = some (ifp, received) →
          pm.wins sha1 ifp.pieceIndex ifp.data o.pieces = false := by
        intro ifp received fills
        by_contra wins
        rw [Bool.not_eq_false] at wins
        replace idle : o.writing id = none := idle
        simp only [Overlap.step, idle, live, fills, wins, if_true, reduceCtorEq] at swapped
      have same := @handleThenFill_store_of_loses pm w sha1 io msg ⟨conn, o.pieces, o.disk⟩ loses
      obtain ⟨had, files⟩ := Prod.mk.inj same
      exact honest.unchanged (flags.trans had) (disk.trans files)
  | drop id =>
    obtain ⟨_, s, ran, rfl⟩ := step_whole run
    rw [Swarm.step] at ran
    split at ran
    case h_1 => cases ran
    case h_2 =>
      cases ran
      exact honest.unchanged (releaseClaim_mHave _) rfl

theorem Honest.step (sound : w.Sound) (honest : Honest pm w sha1 o) {label : Label} (careful : Careful pm w sha1 o label)
    (run : step pm w sha1 o label = some o') : Honest pm w sha1 o' := by
  cases label with
  | whole label => exact honest.whole sound careful run
  | swap id msg => exact honest.swap run
  | finish id io => exact honest.finish sound careful run

theorem Honest.courteous (sound : w.Sound) (honest : Honest pm w sha1 o) {label : Label}
    (careful : Careful pm w sha1 o label) (courteous : Swarm.Courteous (PieceMessage.Genuine pm sha1) o.toSwarm)
    (run : Overlap.step pm w sha1 o label = some o') : Swarm.Courteous (PieceMessage.Genuine pm sha1) o'.toSwarm := by
  have small : ∀ piece, PieceMessage.Genuine pm sha1 piece → piece.index < 2 ^ 32 ∧ piece.begin_ < 2 ^ 32 :=
    fun _ genuine => genuine.1.small
  cases label with
  | whole label =>
    obtain ⟨_, s, ran, rfl⟩ := step_whole run
    refine courteous.step small (fun id msg io same => ?_) ran
    subst same
    exact honest.serves sound careful.1
  | swap id msg =>
    obtain ⟨conn, ifp, received, _, live, fills, _, rfl⟩ := step_swap run
    refine courteous.update fun other found => ?_
    cases found
    rw [filled_talk fills]
    exact courteous id conn live
  | finish id io =>
    obtain ⟨ifp, conn, s, _, live, settled, rfl⟩ := step_finish run
    obtain ⟨_, _, conns⟩ := Swarm.settle_spec settled
    have spoken : Speaks (PieceMessage.Genuine pm sha1) conn.talk
        ((storeFilled pm w io ifp ⟨conn, o.pieces, o.disk⟩).andThen (fillRequests pm io)).1.conn.talk := by
      refine andThen_speaks ?_ fun world _ => fillRequests_speaks world
      rw [storeFilled_talk]
      exact .refl
    obtain ⟨pieces, disk, left⟩ := s
    rcases conns with rfl | rfl
    · refine courteous.update fun other found => ?_
      cases found
      exact (courteous id conn live).speaks small spoken
    · exact courteous.update fun _ found => by cases found

/-- Whatever anybody sends us, every block of data that we send on is a part of a piece with
the digest that the torrent lists, unless it was asked for while the piece was written,
or a write threw or lost something unnoticed. -/
theorem served_blocks_genuine (sound : w.Sound) {start : Overlap} (initial : Initial start) (prepared : w.Prepared start.disk)
    (reach : Reach (· = start) (Overlap.step pm w sha1) (Careful pm w sha1) o) {conn : PeerConnection}
    (live : o.conns id = some conn) (leaves : o.LeavesUnwritten msg) (io : Io) :
    ∀ piece ∈ conn.talk.served ++ (handleThenFill pm w sha1 io msg ⟨conn, o.pieces, o.disk⟩).1.conn.talk.served,
      PieceMessage.Genuine pm sha1 piece := by
  have both : Honest pm w sha1 o ∧ Swarm.Courteous (PieceMessage.Genuine pm sha1) o.toSwarm := by
    refine reach.invariant (P := fun o => Honest pm w sha1 o ∧ Swarm.Courteous (PieceMessage.Genuine pm sha1) o.toSwarm)
      (fun o same => ?_) fun o o' label inv careful run => ⟨inv.1.step sound careful run,
        inv.1.courteous sound careful inv.2 run⟩
    subst same
    refine ⟨⟨prepared, fun i _ had => ?_, fun id ifp writes => ?_⟩, fun id conn live => ?_⟩
    · rw [initial.1.1] at had
      cases had
    · rw [initial.2 id] at writes
      cases writes
    · rw [initial.1.2 id] at live
      cases live
  obtain ⟨honest, courteous⟩ := both
  have before := courteous id conn live
  have after := before.speaks (fun _ genuine => genuine.1.small)
    (@handleThenFill_speaks _ pm w sha1 io msg ⟨conn, o.pieces, o.disk⟩ (honest.serves sound leaves))
  intro piece member
  rcases List.mem_append.mp member with old | new
  · exact before.blocks piece old
  · exact after.blocks piece new

/-- A second peer comes while the piece that the first one has sent is written. -/
def overlapLabels : List Label :=
  [.whole (.open_ 0), .whole (.message 0 ⟨.have, [0, 0, 0, 0]⟩ calmIo), .whole (.message 0 ⟨.unchoke, []⟩ calmIo),
    .swap 0 (PieceMessage.toPeerMessage ⟨0, 0, [1]⟩), .whole (.open_ 1), .whole (.message 1 ⟨.interested, []⟩ calmIo),
    .finish 0 calmIo]

/-- The careful steps in which nobody asks for a block or has a piece filled at once. -/
def quiet (w : DiskWriter) (o : Overlap) : Label → Bool
  | .whole (.message id msg _) => msg.id != .request && (o.conns id).all fun conn => (conn.filled msg).isNone
  | .finish id io => (o.writing id).all fun ifp =>
      decide (w.Loud io.faults w.files) && (w.writePiece io.faults ifp.pieceIndex ifp.data o.disk).2.toBool
  | _ => true

theorem careful_of_quiet {label : Label} (calm : quiet w o label = true) : Careful pm w sha1 o label := by
  cases label with
  | whole label =>
    cases label with
    | message id msg io =>
      simp only [quiet, Bool.and_eq_true, bne_iff_ne, ne_eq, Option.all_eq_true, Option.isNone_iff_eq_none] at calm
      obtain ⟨other, empty⟩ := calm
      refine ⟨fun req parsed => ?_, fun middle swapped => ?_⟩
      · rw [RequestMessage.fromPeerMessage, BlockRange.fromPeerMessage, if_pos other] at parsed
        cases parsed
      · obtain ⟨conn, _, _, _, live, fills, _⟩ := step_swap swapped
        cases (empty conn live).symm.trans fills
    | _ => trivial
  | swap id msg => trivial
  | finish id io =>
    simp only [quiet, Option.all_eq_true, Bool.and_eq_true, decide_eq_true_eq] at calm
    intro ifp writes
    obtain ⟨loud, stored⟩ := calm ifp writes
    refine ⟨loud, ?_⟩
    cases result : (w.writePiece io.faults ifp.pieceIndex ifp.data o.disk).2 with
    | ok => rfl
    | error error =>
      rw [result] at stored
      cases stored

def overlapStart : Overlap := ⟨Swarm.seedingStart, fun _ => none⟩

theorem overlap_runs : (exec (Overlap.step oneByte oneByteWriter oneByteSha1)
    (fun o label => quiet oneByteWriter o label = true) overlapStart overlapLabels).isSome = true := by
  decide +kernel

theorem overlap_up : ((Option.get _ overlap_runs).conns 1).isSome = true := by decide +kernel

/-- The second peer asks for the byte once it is written, and gets it. -/
theorem served_blocks_genuine_overlap :
    ∃ o conn, exec (Overlap.step oneByte oneByteWriter oneByteSha1)
        (fun o label => quiet oneByteWriter o label = true) overlapStart overlapLabels = some o ∧
      o.conns 1 = some conn ∧ ∃ served, served = conn.talk.served ++ (handleThenFill oneByte oneByteWriter oneByteSha1 calmIo
        (RequestMessage.toPeerMessage ⟨0, 0, 1⟩) ⟨conn, o.pieces, o.disk⟩).1.conn.talk.served ∧ served.length = 1 ∧
      ∀ piece ∈ served, PieceMessage.Genuine oneByte oneByteSha1 piece := by
  have run := (Option.some_get overlap_runs).symm
  have live := (Option.some_get overlap_up).symm
  have prepared : oneByteWriter.Prepared overlapStart.disk := Threads.oneByteStart_fresh.2
  have base : Reach (· = overlapStart) (Overlap.step oneByte oneByteWriter oneByteSha1)
      (fun o label => quiet oneByteWriter o label = true) overlapStart := .start rfl
  have reach := (base.exec run).weaken fun _ _ => @careful_of_quiet oneByte oneByteWriter oneByteSha1 _ _
  have written : ∀ id, (Option.get _ overlap_runs).writing id = none := by
    intro id
    cases id with
    | zero => rfl
    | succ => rfl
  have leaves : (Option.get _ overlap_runs).LeavesUnwritten (RequestMessage.toPeerMessage ⟨0, 0, 1⟩) := by
    intro _ _ id ifp writes
    cases (written id).symm.trans writes
  refine ⟨_, _, run, live, _, rfl, by decide +kernel,
    served_blocks_genuine Threads.oneByteWriter_sound ⟨Swarm.seedingStart_initial, fun _ => rfl⟩ prepared reach live leaves _⟩

/-- While it is written, what the second peer gets is the zero of the new file. -/
example : (exec (Overlap.step oneByte oneByteWriter oneByteSha1) unguarded overlapStart (overlapLabels.take 6)).map (fun o =>
    (o.conns 1).map fun conn => (handleThenFill oneByte oneByteWriter oneByteSha1 calmIo
      (RequestMessage.toPeerMessage ⟨0, 0, 1⟩) ⟨conn, o.pieces, o.disk⟩).1.conn.talk.served.map PieceMessage.block) =
    some (some [[0]]) := by
  decide +kernel

end Overlap

end BittorrentClient
