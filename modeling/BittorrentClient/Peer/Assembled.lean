import BittorrentClient.Peer.Requests

namespace BittorrentClient
open Cpp Machine Splice

namespace PieceMessage

/-- Where the block of a message lies in its piece. -/
def extent (piece : PieceMessage) : Nat × Nat := (piece.begin_, piece.block.length)

/-- The number of the block by which its flag is found. -/
def number (piece : PieceMessage) : Nat := piece.begin_ / blockSize

/-- The message carries a whole block, as it is requested. -/
def full (piece : PieceMessage) (pieceLength : Nat) : Bool :=
  piece.begin_ % blockSize = 0 && piece.block.length = min blockSize (pieceLength - piece.begin_)

theorem extent_of_full {piece : PieceMessage} {pieceLength : Nat} (full : piece.full pieceLength = true) :
    piece.extent = Tiling.cell blockSize pieceLength piece.number := by
  rw [PieceMessage.full, Bool.and_eq_true, decide_eq_true_eq, decide_eq_true_eq] at full
  have aligned : piece.number * blockSize = piece.begin_ := Nat.div_mul_cancel (Nat.dvd_of_mod_eq_zero full.1)
  rw [extent, Tiling.cell, aligned, full.2]

end PieceMessage

/-- Each offset of the buffer was written by one block, and each byte counted. -/
def Assembly.Once (a : Assembly) : Prop :=
  (∀ offset < a.piece.data.length, a.blocks.countP (fun block => Tiling.covers offset block.extent) = 1) ∧
    a.bytesAfter = u64 (a.bytesBefore + a.piece.pieceLength)

/-- What the blocks accepted so far have to do with the piece. -/
structure Collected (ifp : InFlightPiece) (blocks : List PieceMessage) : Prop where
  width : ifp.pieceLength < 2 ^ 32
  buffer : ifp.data.length = ifp.pieceLength
  flags : ifp.blocksReceived.length = ifp.blocksTotal
  total : ifp.blocksTotal = u32 (ifp.pieceLength + blockSize - 1) / blockSize
  done : ifp.blocksDone = blocks.length
  distinct : (blocks.map PieceMessage.number).Nodup
  received : ∀ k, ifp.blocksReceived.getD k false = true ↔ k ∈ blocks.map PieceMessage.number
  cells : ∀ block ∈ blocks, block.extent = Tiling.cell blockSize ifp.pieceLength block.number

section Collected
variable {ifp : InFlightPiece} {blocks : List PieceMessage} {piece : PieceMessage}

theorem accepts_iff : ifp.accepts piece = true ↔ u64 (piece.begin_ + piece.block.length) ≤ ifp.data.length ∧
    piece.number < ifp.blocksReceived.length ∧ ifp.blocksReceived.getD piece.number false = false := by
  rw [InFlightPiece.accepts, Bool.and_eq_true, Bool.and_eq_true, decide_eq_true_eq, decide_eq_true_eq,
    Bool.not_eq_true', and_assoc]
  rfl

theorem Collected.within (collected : Collected ifp blocks) :
    ∀ k ∈ blocks.map PieceMessage.number, k < ifp.blocksTotal := by
  intro k member
  have set := (collected.received k).mpr member
  rw [← collected.flags]
  refine Nat.lt_of_not_le fun outside => ?_
  rw [List.getD_eq_getElem?_getD, List.getElem?_eq_none outside] at set
  cases set

/-- A piece with room for a block is not so long that its block count wraps. -/
theorem Collected.total_eq (collected : Collected ifp blocks) (some : 0 < ifp.blocksTotal) :
    ifp.blocksTotal = Tiling.count blockSize ifp.pieceLength := by
  have size : blockSize = 16384 := rfl
  have total := collected.total
  have width := collected.width
  have enough : blockSize ≤ u32 (ifp.pieceLength + blockSize - 1) := by
    refine Nat.le_of_not_lt fun short => ?_
    rw [Nat.div_eq_of_lt short] at total
    omega
  have unwrapped : u32 (ifp.pieceLength + blockSize - 1) = ifp.pieceLength + blockSize - 1 := by
    rw [u32] at enough ⊢
    omega
  rw [total, unwrapped, Tiling.count]

/-- A change to what is requested does not matter. -/
theorem Collected.asked (collected : Collected ifp blocks) : Collected ifp.asked blocks := by
  cases ifp
  exact ⟨collected.width, collected.buffer, collected.flags, collected.total, collected.done, collected.distinct,
    collected.received, collected.cells⟩

theorem Collected.answered (collected : Collected ifp blocks) : Collected ifp.answered blocks := by
  cases ifp
  exact ⟨collected.width, collected.buffer, collected.flags, collected.total, collected.done, collected.distinct,
    collected.received, collected.cells⟩

theorem collected_fresh (pm : PieceManager) (index : Nat) : Collected (PeerConnection.newInFlight pm index) [] where
  width := pm.pieceLength_lt index
  buffer := List.length_replicate
  flags := List.length_replicate
  total := rfl
  done := rfl
  distinct := List.nodup_nil
  received := fun k => by
    constructor
    · intro set
      change (List.replicate _ false).getD k false = true at set
      rw [List.getD_eq_getElem?_getD, List.getElem?_replicate] at set
      split at set <;> cases set
    · intro member
      cases member
  cells := fun _ member => nomatch member

/-- A whole block of the piece lies within it. -/
theorem Collected.fits (collected : Collected ifp blocks) (inside : piece.number < ifp.blocksTotal)
    (full : piece.full ifp.pieceLength = true) : piece.begin_ + piece.block.length ≤ ifp.data.length := by
  have blocks : 0 < blockSize := by decide
  rw [collected.total_eq (Nat.lt_of_le_of_lt (Nat.zero_le _) inside), Tiling.lt_count_iff blocks] at inside
  have extent := PieceMessage.extent_of_full full
  rw [PieceMessage.extent, Tiling.cell, Prod.mk.injEq] at extent
  rw [collected.buffer]
  omega

/-- A block that has not come yet is one of those that are missing. -/
theorem Collected.room (collected : Collected ifp blocks) (inside : piece.number < ifp.blocksTotal)
    (distinct : (blocks.map PieceMessage.number ++ [piece.number]).Nodup) : blocks.length + 1 ≤ ifp.blocksTotal := by
  have within : blocks.map PieceMessage.number ++ [piece.number] ⊆ List.range ifp.blocksTotal := by
    intro k member
    rw [List.mem_range]
    rcases List.mem_append.mp member with old | last
    · exact collected.within k old
    · rw [List.mem_singleton.mp last]
      exact inside
  have few := (List.subperm_of_subset distinct within).length_le
  rwa [List.length_append, List.length_map, List.length_singleton, List.length_range] at few

theorem Collected.store (collected : Collected ifp blocks) (accepted : ifp.accepts piece = true)
    (full : piece.full ifp.pieceLength = true) : Collected (ifp.stored piece) (blocks ++ [piece]) := by
  obtain ⟨_, inside, fresh⟩ := accepts_iff.mp accepted
  obtain ⟨_, length, _, total, _⟩ := ifp.arrived_stored piece
  have data : (ifp.stored piece).data = overwrite ifp.data piece.begin_ piece.block := by cases ifp; rfl
  have received : (ifp.stored piece).blocksReceived = ifp.blocksReceived.set piece.number true := by cases ifp; rfl
  have done : (ifp.stored piece).blocksDone = u32 (ifp.blocksDone + 1) := by cases ifp; rfl
  have numbers : (blocks ++ [piece]).map PieceMessage.number = blocks.map PieceMessage.number ++ [piece.number] := by
    rw [List.map_append, List.map_singleton]
  have new : piece.number ∉ blocks.map PieceMessage.number := by
    intro member
    rw [(collected.received _).mpr member] at fresh
    cases fresh
  have distinct : (blocks.map PieceMessage.number ++ [piece.number]).Nodup := by
    refine List.nodup_append.mpr ⟨collected.distinct, List.nodup_singleton _, fun k old _ last same => ?_⟩
    exact new (List.mem_singleton.mp last ▸ same ▸ old)
  rw [collected.flags] at inside
  have few := collected.room inside distinct
  have narrow : ifp.blocksTotal < 2 ^ 32 := by
    rw [collected.total]
    exact Nat.lt_of_le_of_lt (Nat.div_le_self _ _) (Nat.mod_lt _ (by decide))
  constructor
  · rw [length]
    exact collected.width
  · rw [data, length, overwrite_length (collected.fits inside full)]
    exact collected.buffer
  · rw [received, total, List.length_set]
    exact collected.flags
  · rw [total, length]
    exact collected.total
  · rw [done, collected.done, List.length_append, List.length_singleton, u32, Nat.mod_eq_of_lt (by omega)]
  · rw [numbers]
    exact distinct
  · intro k
    rw [received, numbers, List.mem_append, List.mem_singleton, List.getD_eq_getElem?_getD, List.getElem?_set]
    by_cases same : piece.number = k
    · rw [if_pos same, if_pos (by rw [collected.flags]; exact inside)]
      exact ⟨fun _ => Or.inr same.symm, fun _ => rfl⟩
    · rw [if_neg same, ← List.getD_eq_getElem?_getD, collected.received]
      exact ⟨Or.inl, fun either => either.resolve_right fun equal => same equal.symm⟩
  · intro block member
    rw [length]
    rcases List.mem_append.mp member with old | last
    · exact collected.cells block old
    · rw [List.mem_singleton.mp last]
      exact PieceMessage.extent_of_full full

/-- Once all blocks have come, they are the tiling of the piece. -/
theorem Collected.complete (collected : Collected ifp blocks) (some : 0 < ifp.blocksTotal)
    (all : ifp.blocksTotal ≤ blocks.length) :
    (∀ offset < ifp.data.length, blocks.countP (fun block => Tiling.covers offset block.extent) = 1) ∧
      (blocks.map fun block => block.block.length).sum = ifp.pieceLength := by
  have size : 0 < blockSize := by decide
  have reached : ifp.pieceLength ≤ ifp.blocksTotal * blockSize := by
    rw [collected.total_eq some]
    exact Tiling.count_spec size
  have extents : blocks.map PieceMessage.extent =
      (blocks.map PieceMessage.number).map (Tiling.cell blockSize ifp.pieceLength) := by
    rw [List.map_map]
    exact List.map_congr_left collected.cells
  have perm : (blocks.map PieceMessage.extent).Perm (Tiling.cells blockSize ifp.pieceLength ifp.blocksTotal) := by
    rw [extents]
    exact Tiling.perm_cells collected.distinct collected.within (by rw [List.length_map]; exact all)
  constructor
  · intro offset inside
    rw [collected.buffer] at inside
    have once := Tiling.countP_cells size inside (Nat.lt_of_lt_of_le inside reached)
    rw [← perm.countP_eq, List.countP_map] at once
    exact once
  · have sum := (perm.map Prod.snd).sum_eq
    rw [List.map_map, Tiling.sum_cells, Nat.min_eq_right reached] at sum
    exact sum

end Collected

namespace Transfer
open PeerConnection

variable {pm : PieceManager} {w : DiskWriter} {sha1 : Bytes → Sha1Hash} {s s' : Transfer}

/-- The blocks of the current piece and the bytes they brought. -/
structure Counted (log : TransferLog) (conn : PeerConnection) : Prop where
  counter : conn.mBytesDownloaded < 2 ^ 64
  current : ∀ ifp, conn.mCurrentPiece = some ifp → Collected ifp log.blocks ∧
    conn.mBytesDownloaded = u64 (log.bytesBefore + (log.blocks.map fun block => block.block.length).sum)

/-- What is accepted for the current piece is a whole block of it. -/
def fullBlocks (s : Transfer) : Label → Bool
  | .message msg _ _ _ =>
    match s.conn.mCurrentPiece, s.conn.answer msg with
    | some ifp, some piece => !ifp.accepts piece || piece.full ifp.pieceLength
    | _, _ => true
  | .fill _ _ _ => true

theorem Counted.of_same {log : TransferLog} {conn after : PeerConnection} (counted : Counted log conn)
    (downloaded : after.mBytesDownloaded = conn.mBytesDownloaded)
    (piece : ∀ ifp, after.mCurrentPiece = some ifp → ∃ old, conn.mCurrentPiece = some old ∧
      ∀ blocks, Collected old blocks → Collected ifp blocks) : Counted log after := by
  refine ⟨downloaded ▸ counted.counter, fun ifp current => ?_⟩
  obtain ⟨old, before, keep⟩ := piece ifp current
  obtain ⟨collected, bytes⟩ := counted.current old before
  exact ⟨keep _ collected, downloaded.trans bytes⟩

theorem Counted.asks {log : TransferLog} {conn after : PeerConnection} (asks : Asks conn after)
    (counted : Counted log conn) : Counted log after := by
  induction asks with
  | done => exact counted
  | @next conn _ ifp current _ _ _ ih =>
    refine ih (counted.of_same rfl fun ifp' current' => ⟨ifp, current, fun _ collected => ?_⟩)
    cases Option.some.inj current'
    exact collected.asked

theorem Counted.fresh {log : TransferLog} {before conn : PeerConnection} {index : Nat}
    (counter : before.mBytesDownloaded < 2 ^ 64) (starts : Starts pm true before conn (newInFlight pm index)) :
    Counted (log.repick before) conn := by
  refine ⟨starts.downloaded ▸ counter, fun ifp current => ?_⟩
  cases Option.some.inj (starts.current.symm.trans current)
  refine ⟨collected_fresh pm index, ?_⟩
  rw [starts.downloaded]
  exact (Nat.mod_eq_of_lt counter).symm

/-- The blocks after one that is accepted, and the bytes they brought. -/
theorem Counted.store {log : TransferLog} {conn : PeerConnection} {ifp : InFlightPiece} {piece : PieceMessage}
    (counted : Counted log conn) (current : conn.mCurrentPiece = some ifp) (accepted : ifp.accepts piece = true)
    (full : piece.full ifp.pieceLength = true) :
    Collected (ifp.stored piece) (log.blocks ++ [piece]) ∧ (conn.received ifp piece).mBytesDownloaded =
      u64 (log.bytesBefore + ((log.blocks ++ [piece]).map fun block => block.block.length).sum) := by
  obtain ⟨collected, bytes⟩ := counted.current ifp current
  refine ⟨collected.store accepted full, ?_⟩
  rw [received, bytes, List.map_append, List.sum_append, List.map_singleton, List.sum_singleton, u64, u64, u64,
    Nat.mod_add_mod, Nat.add_assoc]

/-- The last block completes the tiling. -/
theorem Counted.once {log : TransferLog} {conn : PeerConnection} {ifp : InFlightPiece} {piece : PieceMessage}
    (counted : Counted log conn) (current : conn.mCurrentPiece = some ifp) (accepted : ifp.accepts piece = true)
    (full : piece.full ifp.pieceLength = true) (last : ¬ u32 (ifp.blocksDone + 1) < ifp.blocksTotal) :
    Assembly.Once ⟨ifp.stored piece, log.blocks ++ [piece], log.bytesBefore, (conn.received ifp piece).mBytesDownloaded⟩ := by
  obtain ⟨collected, bytes⟩ := counted.store current accepted full
  obtain ⟨_, _, _, total, _⟩ := ifp.arrived_stored piece
  have done : (ifp.stored piece).blocksDone = u32 (ifp.blocksDone + 1) := by cases ifp; rfl
  have all : (ifp.stored piece).blocksTotal ≤ (log.blocks ++ [piece]).length := by
    rw [total, ← collected.done, done]
    exact Nat.not_lt.mp last
  have some : 0 < (ifp.stored piece).blocksTotal := by
    obtain ⟨_, inside, _⟩ := accepts_iff.mp accepted
    rw [(counted.current ifp current).1.flags] at inside
    rw [total]
    exact Nat.lt_of_le_of_lt (Nat.zero_le _) inside
  obtain ⟨covered, sum⟩ := collected.complete some all
  refine ⟨covered, ?_⟩
  rw [bytes, sum]

/-- The current piece is counted right and so was every piece handed over. -/
structure Sound (s : Transfer) : Prop where
  counted : Counted s.log s.conn
  assembled : ∀ a ∈ s.log.assembled, a.Once

theorem sound_initial (initial : Initial pm s) : Sound s := by
  obtain ⟨io, pieces, disk, rfl⟩ := initial
  have quiet := sendBitfield_quiet pm io ⟨.make pm, pieces, disk⟩
  refine ⟨⟨?_, fun ifp current => ?_⟩, fun _ member => nomatch member⟩
  · rw [quiet.downloaded]
    exact Nat.two_pow_pos 64
  · cases quiet.piece.symm.trans current

theorem sound_message {msg : PeerMessage} {io : Io} {pieces : Pieces} {disk : Disk} (sound : Sound s)
    (allowed : s.fullBlocks (.message msg io pieces disk) = true)
    (run : step pm w sha1 s (.message msg io pieces disk) = some s') : Sound s' := by
  rcases message_cases run with ⟨quiet, log⟩ | ⟨released, log⟩ | ⟨ifp, piece, current, answered, log, outcome⟩
  · refine ⟨log ▸ sound.counted.of_same quiet.downloaded fun ifp current => ?_, log ▸ sound.assembled⟩
    exact ⟨ifp, quiet.piece.symm.trans current, fun _ => id⟩
  · refine ⟨log ▸ sound.counted.of_same released.downloaded fun ifp current => ?_, log ▸ sound.assembled⟩
    cases released.piece.symm.trans current
  · rcases outcome with ⟨refused, conn⟩ | ⟨accepted, outcome⟩
    · rw [TransferLog.note_refused _ _ _ _ refused] at log
      have counted : Counted s.log s'.conn := by
        refine sound.counted.of_same (by rw [conn]) fun ifp' current' => ⟨ifp, current, fun _ collected => ?_⟩
        rw [conn] at current'
        cases Option.some.inj current'
        exact collected.answered
      rw [show s' = ⟨s'.conn, s'.phase, s'.log⟩ from rfl, log]
      exact ⟨⟨counted.counter, counted.current⟩, sound.assembled⟩
    · have full : piece.full ifp.pieceLength = true := by
        simpa only [fullBlocks, current, answered, accepted, Bool.not_true, Bool.false_or] using allowed
      obtain ⟨blocks, before, handed⟩ := TransferLog.note_accepted s.log s.conn ifp piece accepted
      obtain ⟨collected, bytes⟩ := sound.counted.store current accepted full
      have counter : (s.conn.received ifp piece).mBytesDownloaded < 2 ^ 64 := Nat.mod_lt _ (Nat.two_pow_pos 64)
      refine ⟨⟨?_, fun ifp' current' => ?_⟩, ?_⟩
      · rcases outcome with conn | conn <;> exact conn ▸ counter
      · rw [log, blocks, before]
        rcases outcome with conn | conn
        · rw [conn] at current' ⊢
          cases Option.some.inj current'
          exact ⟨collected, bytes⟩
        · rw [conn] at current'
          cases current'
      · rw [log]
        rcases handed with same | ⟨last, handed⟩
        · rw [same]
          exact sound.assembled
        · rw [handed]
          intro a member
          rcases List.mem_append.mp member with old | new
          · exact sound.assembled a old
          · rw [List.mem_singleton.mp new]
            exact sound.counted.once current accepted full last

theorem sound_fill {io : Io} {pieces : Pieces} {disk : Disk} (sound : Sound s)
    (run : step pm w sha1 s (.fill io pieces disk) = some s') : Sound s' := by
  rcases fill_cases run with ⟨conn, log⟩ | ⟨_, _, ⟨released, log⟩ | ⟨conn, ifp, fresh, starts, asks, log⟩⟩
  · exact ⟨log ▸ conn ▸ sound.counted, log ▸ sound.assembled⟩
  · refine ⟨⟨released.downloaded ▸ sound.counted.counter, fun ifp current => ?_⟩, log ▸ sound.assembled⟩
    cases released.piece.symm.trans current
  · rcases starts.piece with ⟨rfl, rfl⟩ | ⟨rfl, index, rfl⟩
    · exact ⟨log ▸ Counted.asks asks sound.counted, log ▸ sound.assembled⟩
    · exact ⟨log ▸ Counted.asks asks (.fresh sound.counted.counter starts), log ▸ sound.assembled⟩

/-- As long as only whole blocks are accepted, every piece that was handed over
in a run came from the peer once, byte by byte. -/
theorem assembled_once (reach : Reach (Initial pm) (step pm w sha1) (fun s label => s.fullBlocks label) s) :
    ∀ a ∈ s.log.assembled, a.Once := by
  have sound : Sound s := reach.invariant (fun _ => sound_initial) fun s s' label sound allowed run => by
    cases label with
    | message msg io pieces disk => exact sound_message sound allowed run
    | fill io pieces disk => exact sound_fill sound run
  exact sound.assembled

/-- A torrent of five bytes in two pieces. -/
def fiveBytes : PieceManager where
  mTotalLengthBytes := 5
  mNumPieces := 2
  mNominalPieceLength := 4
  mPieceHashes := [oneByteSha1 [], oneByteSha1 []]
  totalLengthBytes_lt := by decide
  numPieces_lt := by decide
  nominalPieceLength_lt := by decide
  pieceHashes_length := rfl

def fiveByteWriter : DiskWriter := ⟨⟨text ['o']⟩, 4, 5, [⟨⟨text ['a']⟩, 5, 0⟩]⟩

def fiveByteTransfer : Transfer :=
  ⟨(sendBitfield fiveBytes ⟨.none, fun _ => true, false⟩ ⟨.make fiveBytes, .fresh, Disk.bare⟩).1.conn, .receiving, .start⟩

def fiveByteDisk : Disk := (fiveByteWriter.preallocateFiles .none Disk.bare).1

def fiveByteRound (msg : PeerMessage) (first : Bool) : List Label :=
  let pieces := { Pieces.fresh with mHave := fun i => i == 0 && first }
  [.message msg ⟨.none, fun _ => true, false⟩ pieces fiveByteDisk, .fill ⟨.none, fun _ => true, false⟩ pieces fiveByteDisk]

/-- The peer has both pieces, unchokes us and sends one after the other. -/
def fiveByteLabels : List Label :=
  fiveByteRound ⟨.bitfield, [192]⟩ false ++ fiveByteRound ⟨.unchoke, []⟩ false ++
    fiveByteRound ⟨.piece, [0, 0, 0, 0, 0, 0, 0, 0, 6, 7, 8, 9]⟩ false ++ fiveByteRound ⟨.unchoke, []⟩ true ++
    fiveByteRound ⟨.piece, [0, 0, 0, 1, 0, 0, 0, 0, 5]⟩ true

theorem assembled_once_two : ∃ s a b,
    exec (step fiveBytes fiveByteWriter oneByteSha1) (fun s label => s.fullBlocks label) fiveByteTransfer fiveByteLabels =
      some s ∧ s.log.assembled = [a, b] ∧ a.piece.data = [6, 7, 8, 9] ∧ b.piece.data = [5] ∧ a.Once ∧ b.Once := by
  have enabled : (exec (step fiveBytes fiveByteWriter oneByteSha1) (fun s label => s.fullBlocks label) fiveByteTransfer
      fiveByteLabels).isSome = true := by decide +kernel
  have run := (Option.some_get enabled).symm
  have reach : Reach (Initial fiveBytes) (step fiveBytes fiveByteWriter oneByteSha1)
      (fun s label => s.fullBlocks label) _ := (Reach.start ⟨_, _, _, rfl⟩).exec run
  have once := assembled_once reach
  exact ⟨_, _, _, run, rfl, rfl, rfl, once _ List.mem_cons_self, once _ (List.mem_cons_of_mem _ List.mem_cons_self)⟩

/-- An empty block completes a piece of one byte that nobody has sent. -/
theorem empty_block_completes_piece :
    ¬ ∀ s, Reach (Initial oneByte) (step oneByte oneByteWriter oneByteSha1) unguarded s → ∀ a ∈ s.log.assembled, a.Once := by
  intro claim
  have enabled : (exec (step oneByte oneByteWriter oneByteSha1) unguarded oneByteTransfer
      (oneByteOffer ++ oneByteRound ⟨.piece, [0, 0, 0, 0, 0, 0, 0, 0]⟩)).isSome = true := by decide +kernel
  have run := (Option.some_get enabled).symm
  have reach : Reach (Initial oneByte) (step oneByte oneByteWriter oneByteSha1) unguarded _ :=
    (Reach.start ⟨_, _, _, rfl⟩).exec run
  have once := (claim _ reach _ List.mem_cons_self).1 0 (by decide +kernel)
  exact absurd once (by decide +kernel)

end Transfer

end BittorrentClient
