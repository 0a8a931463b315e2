import BittorrentClient.Library.Tiling
import BittorrentClient.Peer.Transfer

namespace BittorrentClient
open Cpp Machine

/-- The request of a block by its number. -/
def blockRequest (ifp : InFlightPiece) (k : Nat) : PeerMessage :=
  RequestMessage.toPeerMessage ⟨ifp.pieceIndex, k * blockSize, min blockSize (ifp.pieceLength - k * blockSize)⟩

/-- The first `m` blocks of the piece have been requested, in order. -/
structure Tiled (ifp : InFlightPiece) (requests : List PeerMessage) (m : Nat) : Prop where
  requests_eq : requests = (List.range m).map (blockRequest ifp)
  offset : ifp.nextBlockOffset = min (m * blockSize) ifp.pieceLength
  inside : ∀ k < m, k * blockSize < ifp.pieceLength
  width : ifp.pieceLength < 2 ^ 32
  total : ifp.blocksTotal = u32 (ifp.pieceLength + blockSize - 1) / blockSize

section Tiled
variable {ifp ifp' : InFlightPiece} {requests : List PeerMessage} {m : Nat}

/-- A round of the loop requests the next block. -/
theorem Tiled.asked (tiled : Tiled ifp requests m) (more : ifp.nextBlockOffset < ifp.pieceLength) :
    Tiled ifp.asked (requests ++ [ifp.nextRequest]) (m + 1) := by
  have offset := tiled.offset
  have width := tiled.width
  have before : m * blockSize < ifp.pieceLength := by omega
  have here : ifp.nextBlockOffset = m * blockSize := by omega
  have next : (m + 1) * blockSize = m * blockSize + blockSize := by rw [Nat.add_mul, Nat.one_mul]
  refine ⟨?_, ?_, ?_, width, tiled.total⟩
  · rw [List.range_succ, List.map_append, List.map_singleton, tiled.requests_eq, InFlightPiece.nextRequest, here]
    rfl
  · change u32 (ifp.nextBlockOffset + min blockSize (ifp.pieceLength - ifp.nextBlockOffset)) = _
    rw [u32, Nat.mod_eq_of_lt (by omega), next, here]
    change _ = min (m * blockSize + blockSize) ifp.pieceLength
    omega
  · intro k small
    rcases Nat.lt_succ_iff_lt_or_eq.mp small with old | rfl
    · exact tiled.inside k old
    · exact before

/-- The arrival of a block changes nothing about the requests. -/
theorem Tiled.arrived (tiled : Tiled ifp requests m) (arrived : ifp.Arrived ifp') : Tiled ifp' requests m := by
  obtain ⟨index, length, offset, total, _⟩ := arrived
  have sameRequest : blockRequest ifp' = blockRequest ifp := by
    funext k
    rw [blockRequest, blockRequest, index, length]
  refine ⟨?_, ?_, ?_, ?_, ?_⟩
  · rw [sameRequest]
    exact tiled.requests_eq
  · rw [offset, length]
    exact tiled.offset
  · rw [length]
    exact tiled.inside
  · rw [length]
    exact tiled.width
  · rw [total, length]
    exact tiled.total

theorem tiled_fresh (pm : PieceManager) (index : Nat) : Tiled (PeerConnection.newInFlight pm index) [] 0 where
  requests_eq := rfl
  offset := (Nat.zero_min _).symm ▸ (Nat.zero_mul blockSize).symm ▸ rfl
  inside := fun _ small => absurd small (Nat.not_lt_zero _)
  width := pm.pieceLength_lt index
  total := rfl

end Tiled

/-- The requests sent for the current piece are the first of its blocks, and
something more is known of their number. -/
structure Tracks (Q : InFlightPiece → Nat → Prop) (mark : Nat) (conn : PeerConnection) : Prop where
  marked : mark ≤ conn.sent.length
  tracked : ∀ ifp, conn.mCurrentPiece = some ifp → ∃ m, Tiled ifp (conn.requestsSince mark) m ∧ Q ifp m

namespace Tracks
open PeerConnection
variable {Q Q' : InFlightPiece → Nat → Prop} {mark : Nat} {conn after : PeerConnection}

theorem of_none (marked : mark ≤ conn.sent.length) (none : conn.mCurrentPiece = none) : Tracks Q mark conn :=
  ⟨marked, fun _ current => nomatch none.symm.trans current⟩

theorem quiet (tracks : Tracks Q mark conn) (quiet : Quiet conn after) : Tracks Q mark after := by
  obtain ⟨others, sent, none⟩ := quiet.sent
  have gone : others.filter (·.id = .request) = [] :=
    List.filter_eq_nil_iff.mpr fun msg member => by simpa using none msg member
  have same : after.requestsSince mark = conn.requestsSince mark := by
    rw [requestsSince, sent, List.drop_append_of_le_length tracks.marked, List.filter_append, gone, List.append_nil]
    rfl
  refine ⟨?_, fun ifp current => ?_⟩
  · rw [sent, List.length_append]
    exact Nat.le_trans tracks.marked (Nat.le_add_right _ _)
  · rw [same]
    exact tracks.tracked ifp (quiet.piece.symm.trans current)

theorem ask (tracks : Tracks Q mark conn) {ifp : InFlightPiece} (current : conn.mCurrentPiece = some ifp)
    (more : ifp.nextBlockOffset < ifp.pieceLength) (keep : ∀ m, Q ifp m → Q ifp.asked (m + 1)) :
    Tracks Q mark (conn.ask ifp) := by
  obtain ⟨m, tiled, holds⟩ := tracks.tracked ifp current
  have sent : (conn.ask ifp).requestsSince mark = conn.requestsSince mark ++ [ifp.nextRequest] := by
    have asks : [ifp.nextRequest].filter (·.id = .request) = [ifp.nextRequest] := rfl
    rw [requestsSince, PeerConnection.ask, List.drop_append_of_le_length tracks.marked, List.filter_append, asks]
    rfl
  refine ⟨?_, fun ifp' current' => ?_⟩
  · rw [PeerConnection.ask, List.length_append]
    exact Nat.le_trans tracks.marked (Nat.le_add_right _ _)
  · cases Option.some.inj current'
    rw [sent]
    exact ⟨m + 1, tiled.asked more, keep m holds⟩

/-- The request loop. -/
theorem asks (asks : Asks conn after)
    (keep : ∀ ifp m, ifp.requestsInFlight < maxPipeline → Q ifp m → Q ifp.asked (m + 1)) (tracks : Tracks Q mark conn) :
    Tracks Q mark after := by
  induction asks with
  | done => exact tracks
  | next current room more _ ih => exact ih (tracks.ask current more fun m => keep _ m room)

/-- A piece that was just picked. -/
theorem fresh {pm : PieceManager} {before : PeerConnection} {index : Nat}
    (starts : Starts pm true before conn (newInFlight pm index)) (start : Q (newInFlight pm index) 0) :
    Tracks Q before.sent.length conn := by
  refine ⟨Nat.le_of_eq (congrArg List.length starts.sent.symm), fun ifp current => ?_⟩
  cases Option.some.inj (starts.current.symm.trans current)
  have none : conn.requestsSince before.sent.length = [] := by
    rw [requestsSince, starts.sent, List.drop_length, List.filter_nil]
  rw [none]
  exact ⟨0, tiled_fresh pm index, start⟩

/-- A block of the piece arrives. -/
theorem arrived (tracks : Tracks Q mark conn) {ifp ifp' : InFlightPiece} (current : conn.mCurrentPiece = some ifp)
    (current' : after.mCurrentPiece = some ifp') (sent : after.sent = conn.sent) (arrived : ifp.Arrived ifp')
    (keep : ∀ m, Tiled ifp (conn.requestsSince mark) m → Q ifp m → Q' ifp' m) : Tracks Q' mark after := by
  have same : after.requestsSince mark = conn.requestsSince mark := by rw [requestsSince, sent, requestsSince]
  obtain ⟨m, tiled, holds⟩ := tracks.tracked ifp current
  refine ⟨sent ▸ tracks.marked, fun ifp'' current'' => ?_⟩
  cases Option.some.inj (current'.symm.trans current'')
  rw [same]
  exact ⟨m, tiled.arrived arrived, keep m tiled holds⟩

end Tracks

namespace Transfer
open PeerConnection

variable {pm : PieceManager} {w : DiskWriter} {sha1 : Bytes → Sha1Hash} {s s' : Transfer}
  {Q : TransferLog → InFlightPiece → Nat → Prop}

theorem tracks_initial {Q : InFlightPiece → Nat → Prop} (initial : Initial pm s) : Tracks Q s.log.mark s.conn := by
  obtain ⟨io, pieces, disk, rfl⟩ := initial
  have quiet := sendBitfield_quiet pm io ⟨.make pm, pieces, disk⟩
  exact .of_none (Nat.zero_le _) quiet.piece

/-- One step, for what new pieces have, requests keep and arriving blocks keep. -/
theorem tracks_step {label : Label} (run : step pm w sha1 s label = some s')
    (start : ∀ index, Q (s.log.repick s.conn) (newInFlight pm index) 0)
    (asked : ∀ ifp m, ifp.requestsInFlight < maxPipeline → Q s'.log ifp m → Q s'.log ifp.asked (m + 1))
    (arrived : ∀ msg io pieces disk ifp ifp' piece m, label = .message msg io pieces disk →
      s.conn.answer msg = some piece → ifp.Arrived ifp' → Tiled ifp s.requests m → Q s.log ifp m →
      Q (s.log.note s.conn ifp piece) ifp' m)
    (tracks : Tracks (Q s.log) s.log.mark s.conn) : Tracks (Q s'.log) s'.log.mark s'.conn := by
  cases label with
  | message msg io pieces disk =>
    rcases message_cases run with ⟨quiet, log⟩ | ⟨released, log⟩ | ⟨ifp, piece, current, answered, log, outcome⟩
    · rw [log]
      exact tracks.quiet quiet
    · rw [log]
      exact .of_none (released.sent ▸ tracks.marked) released.piece
    · have mark : s'.log.mark = s.log.mark := by rw [log, TransferLog.note_mark]
      rw [mark, log]
      rcases outcome with ⟨_, conn⟩ | ⟨_, conn | conn⟩
      · have next : s'.conn.mCurrentPiece = some ifp.answered := by rw [conn]
        exact tracks.arrived current next (by rw [conn]) ifp.arrived_answered
          fun m => arrived msg io pieces disk ifp _ piece m rfl answered ifp.arrived_answered
      · have next : s'.conn.mCurrentPiece = some (ifp.stored piece) := by rw [conn, received]
        exact tracks.arrived current next (by rw [conn, received]) (ifp.arrived_stored piece)
          fun m => arrived msg io pieces disk ifp _ piece m rfl answered (ifp.arrived_stored piece)
      · exact .of_none (by rw [conn]; exact tracks.marked) (by rw [conn]; rfl)
  | fill io pieces disk =>
    rcases fill_cases run with ⟨conn, log⟩ | ⟨_, _, ⟨released, log⟩ | ⟨conn, ifp, fresh, starts, asks, log⟩⟩
    · rw [log, conn]
      exact tracks
    · rw [log]
      exact .of_none (Nat.le_of_eq (congrArg List.length released.sent.symm)) released.piece
    · refine Tracks.asks asks asked ?_
      rcases starts.piece with ⟨rfl, rfl⟩ | ⟨rfl, index, rfl⟩
      · rw [log]
        exact tracks
      · rw [log]
        exact .fresh starts (start index)

/-- Requests go out only where `fill_requests` may send them. -/
theorem requests_sent {label : Label} (run : step pm w sha1 s label = some s') {msg : PeerMessage}
    (sent : msg ∈ s'.conn.sent.drop s.conn.sent.length) (request : msg.id = .request) :
    s.conn.mPeerChoking = false ∧ s.conn.mAmInterested = true := by
  have nothing : s'.conn.sent ≠ s.conn.sent := by
    intro same
    rw [same, List.drop_length] at sent
    cases sent
  cases label with
  | message received io pieces disk =>
    rcases message_cases run with ⟨quiet, _⟩ | ⟨released, _⟩ | ⟨ifp, piece, _, _, _, ⟨_, conn⟩ | ⟨_, conn | conn⟩⟩
    · obtain ⟨others, whole, none⟩ := quiet.sent
      rw [whole, List.drop_left] at sent
      exact absurd request (none msg sent)
    · exact absurd released.sent nothing
    · exact absurd (by rw [conn]) nothing
    · exact absurd (by rw [conn, PeerConnection.received]) nothing
    · exact absurd (by rw [conn]; rfl) nothing
  | fill io pieces disk =>
    rcases fill_cases run with ⟨conn, _⟩ | ⟨choking, interested, _⟩
    · exact absurd (by rw [conn]) nothing
    · exact ⟨choking, interested⟩

/-- In every state of every run the requests for the current piece are its first
blocks in order, in exact arithmetic, and no request is sent to a peer that
chokes us or that does not interest us. -/
theorem requests_tile (reach : Reach (Initial pm) (step pm w sha1) unguarded s) :
    (∀ ifp, s.conn.mCurrentPiece = some ifp → 0 < ifp.pieceLength → ifp.pieceLength ≤ 2 ^ 31 →
      ifp.blocksTotal = Tiling.count blockSize ifp.pieceLength ∧
      ∃ m, s.requests = (List.range m).map (blockRequest ifp) ∧
        ifp.nextBlockOffset = min (m * blockSize) ifp.pieceLength ∧ (∀ k < m, k * blockSize < ifp.pieceLength) ∧
        (ifp.nextBlockOffset = ifp.pieceLength → m = ifp.blocksTotal ∧
          ∀ offset < ifp.pieceLength, (Tiling.cells blockSize ifp.pieceLength m).countP (Tiling.covers offset) = 1)) ∧
    ∀ label s', step pm w sha1 s label = some s' →
      (∃ msg ∈ s'.conn.sent.drop s.conn.sent.length, msg.id = .request) →
      s.conn.mPeerChoking = false ∧ s.conn.mAmInterested = true := by
  have tracks : Tracks (fun _ _ => True) s.log.mark s.conn :=
    reach.invariant (P := fun s => Tracks (fun _ _ => True) s.log.mark s.conn) (fun _ => tracks_initial)
      fun _ _ _ tracks _ run =>
        tracks_step (Q := fun _ _ _ => True) run (fun _ => trivial) (fun _ _ _ => id)
          (fun _ _ _ _ _ _ _ _ _ _ _ _ => id) tracks
  refine ⟨fun ifp current positive bounded => ?_, fun label s' run ⟨msg, sent, request⟩ => requests_sent run sent request⟩
  obtain ⟨m, tiled, _⟩ := tracks.tracked ifp current
  have size : blockSize = 16384 := rfl
  have blocks : 0 < blockSize := by decide
  have total : ifp.blocksTotal = Tiling.count blockSize ifp.pieceLength := by
    rw [tiled.total, u32, Nat.mod_eq_of_lt (by omega), Tiling.count]
  refine ⟨total, m, tiled.requests_eq, tiled.offset, tiled.inside, fun finished => ?_⟩
  have reached : ifp.pieceLength ≤ m * blockSize := by
    have offset := tiled.offset
    omega
  refine ⟨?_, fun offset inside => Tiling.countP_cells blocks inside (Nat.lt_of_lt_of_le inside reached)⟩
  rw [total]
  refine Nat.le_antisymm ?_ ?_
  · refine Nat.le_of_not_lt fun more => ?_
    have last := tiled.inside _ more
    exact absurd (Tiling.count_spec blocks) (Nat.not_le.mpr last)
  · refine Nat.le_of_not_lt fun fewer => ?_
    have inside := (Tiling.lt_count_iff blocks).mp fewer
    omega

/-- A connection to a peer of the torrent of one byte, at the end of `connect`. -/
def oneByteTransfer : Transfer :=
  ⟨(sendBitfield oneByte ⟨.none, fun _ => true, false⟩ ⟨.make oneByte, .fresh, Disk.bare⟩).1.conn, .receiving, .start⟩

/-- A message and the requests that it leads to. -/
def oneByteRound (msg : PeerMessage) : List Label :=
  [.message msg ⟨.none, fun _ => true, false⟩ .fresh Disk.bare, .fill ⟨.none, fun _ => true, false⟩ .fresh Disk.bare]

/-- The peer has the piece and unchokes us. -/
def oneByteOffer : List Label := oneByteRound ⟨.have, [0, 0, 0, 0]⟩ ++ oneByteRound ⟨.unchoke, []⟩

theorem one_lt_uint32 : 1 < 2 ^ 32 := by decide

/-- A torrent of one piece in three blocks. -/
def threeBlocks : PieceManager where
  mTotalLengthBytes := 40000
  mNumPieces := 1
  mNominalPieceLength := 40000
  mPieceHashes := [oneByteSha1 []]
  totalLengthBytes_lt := by decide
  numPieces_lt := one_lt_uint32
  nominalPieceLength_lt := by decide
  pieceHashes_length := rfl

def threeBlockWriter : DiskWriter := ⟨⟨text ['o']⟩, 40000, 40000, [⟨⟨text ['a']⟩, 40000, 0⟩]⟩

def threeBlockTransfer : Transfer :=
  ⟨(sendBitfield threeBlocks ⟨.none, fun _ => true, false⟩ ⟨.make threeBlocks, .fresh, Disk.bare⟩).1.conn, .receiving, .start⟩

/-- The requests for three blocks, the last of them short. -/
theorem requests_tile_three : ∃ s ifp,
    exec (step threeBlocks threeBlockWriter oneByteSha1) unguarded threeBlockTransfer oneByteOffer = some s ∧
    s.conn.mCurrentPiece = some ifp ∧ ifp.blocksTotal = 3 ∧ s.requests = (List.range 3).map (blockRequest ifp) := by
  have enabled : (exec (step threeBlocks threeBlockWriter oneByteSha1) unguarded threeBlockTransfer
      oneByteOffer).isSome = true := by decide +kernel
  have run := (Option.some_get enabled).symm
  have reach : Reach (Initial threeBlocks) (step threeBlocks threeBlockWriter oneByteSha1) unguarded _ :=
    (Reach.start ⟨_, _, _, rfl⟩).exec run
  obtain ⟨_, m, tiles, _, _, done⟩ := (requests_tile reach).1 _ rfl (by decide +kernel) (by decide +kernel)
  have all : m = 3 := (done rfl).1
  exact ⟨_, _, run, rfl, rfl, all ▸ tiles⟩

/-- The offsets of the requests sent since the piece was picked. -/
def requested (s : Transfer) : List Nat := s.requests.map fun msg => readBe32 msg.payload 4

/-- The requests whose block has not come. -/
def unanswered (s : Transfer) : Nat := s.requested.countP (· ∉ s.log.answers)

/-- `requests_in_flight` is what its comment says. -/
def CountsRequests (s : Transfer) : Prop :=
  ∀ ifp, s.conn.mCurrentPiece = some ifp → ifp.requestsInFlight ≤ maxPipeline ∧ ifp.requestsInFlight = s.unanswered

/-- A block of the current piece answers a request that is still open. -/
def answersRequest (s : Transfer) : Label → Bool
  | .message msg _ _ _ =>
    (s.conn.answer msg).all fun piece => piece.begin_ ∈ s.requested && piece.begin_ ∉ s.log.answers
  | .fill _ _ _ => true

/-- Of `m` requests, those in `answers` have been answered, each once. -/
structure Pending (log : TransferLog) (ifp : InFlightPiece) (m : Nat) : Prop where
  room : ifp.requestsInFlight ≤ maxPipeline
  count : ifp.requestsInFlight + log.answers.length = m
  once : log.answers.Nodup
  asked : ∀ answer ∈ log.answers, answer ∈ (List.range m).map (· * blockSize)

theorem requested_eq {ifp : InFlightPiece} {m : Nat} (tiled : Tiled ifp s.requests m) :
    s.requested = (List.range m).map (· * blockSize) := by
  rw [requested, tiled.requests_eq, List.map_map]
  refine List.map_congr_left fun k member => ?_
  have inside := tiled.inside k (List.mem_range.mp member)
  have width := tiled.width
  exact readBe32_writeBe32 (writeBe32 ifp.pieceIndex)
    (writeBe32 (min blockSize (ifp.pieceLength - k * blockSize))) (Nat.lt_trans inside width)

theorem nodup_offsets (m : Nat) : ((List.range m).map (· * blockSize)).Nodup :=
  List.nodup_range.map fun _ _ same => Nat.eq_of_mul_eq_mul_right (by decide) same

theorem Pending.unanswered {ifp : InFlightPiece} {m : Nat} (pending : Pending s.log ifp m)
    (tiled : Tiled ifp s.requests m) : ifp.requestsInFlight = s.unanswered := by
  have answered : (s.requested.filter (· ∈ s.log.answers)).Perm s.log.answers := by
    rw [requested_eq tiled]
    refine (List.perm_ext_iff_of_nodup ((nodup_offsets m).filter _) pending.once).mpr fun offset => ?_
    rw [List.mem_filter, decide_eq_true_eq]
    exact ⟨And.right, fun member => ⟨pending.asked offset member, member⟩⟩
  have split := s.requested.length_eq_countP_add_countP (· ∈ s.log.answers)
  have total : s.requested.length = m := by rw [requested_eq tiled, List.length_map, List.length_range]
  have count := pending.count
  rw [List.countP_eq_length_filter, answered.length_eq, total] at split
  simp only [decide_eq_true_eq] at split
  rw [Transfer.unanswered]
  omega

theorem Pending.fresh (log : TransferLog) (conn : PeerConnection) (index : Nat) :
    Pending (log.repick conn) (newInFlight pm index) 0 :=
  ⟨Nat.zero_le _, rfl, List.nodup_nil, fun _ member => nomatch member⟩

theorem Pending.ask {log : TransferLog} {ifp : InFlightPiece} {m : Nat} (room : ifp.requestsInFlight < maxPipeline)
    (pending : Pending log ifp m) : Pending log ifp.asked (m + 1) := by
  have limit : maxPipeline = 15 := rfl
  have count := pending.count
  have next : ifp.asked.requestsInFlight = ifp.requestsInFlight + 1 := by
    change u32 (ifp.requestsInFlight + 1) = _
    rw [u32, Nat.mod_eq_of_lt (by omega)]
  refine ⟨by omega, by omega, pending.once, fun answer member => ?_⟩
  rw [List.range_succ, List.map_append]
  exact List.mem_append_left _ (pending.asked answer member)

/-- The first answer to a request makes room for another. -/
theorem Pending.arrived {ifp ifp' : InFlightPiece} {piece : PieceMessage} {m : Nat} (pending : Pending s.log ifp m)
    (tiled : Tiled ifp s.requests m) (arrived : ifp.Arrived ifp') (open_ : piece.begin_ ∈ s.requested)
    (first : piece.begin_ ∉ s.log.answers) : Pending (s.log.note s.conn ifp piece) ifp' m := by
  rw [requested_eq tiled] at open_
  have once : (s.log.answers ++ [piece.begin_]).Nodup := by
    refine List.nodup_append.mpr ⟨pending.once, List.nodup_singleton _, fun offset old _ new same => ?_⟩
    exact first ((List.mem_singleton.mp new) ▸ same ▸ old)
  have asked : ∀ answer ∈ s.log.answers ++ [piece.begin_], answer ∈ (List.range m).map (· * blockSize) := by
    intro answer member
    rcases List.mem_append.mp member with old | new
    · exact pending.asked answer old
    · rw [List.mem_singleton.mp new]
      exact open_
  have count := pending.count
  have room := pending.room
  have limit : maxPipeline = 15 := rfl
  have fewer := (List.subperm_of_subset once asked).length_le
  rw [List.length_append, List.length_singleton, List.length_map, List.length_range] at fewer
  have next : ifp'.requestsInFlight = ifp.requestsInFlight - 1 := by
    rw [arrived.inFlight, u32]
    omega
  refine ⟨by omega, ?_, ?_, ?_⟩
  · rw [TransferLog.note_answers, List.length_append, List.length_singleton]
    omega
  · rw [TransferLog.note_answers]
    exact once
  · rw [TransferLog.note_answers]
    exact asked

/-- As long as every block that comes answers an open request, the counter is
exact and stays within the pipeline, in every state of the run. -/
theorem counts_requests (reach : Reach (Initial pm) (step pm w sha1) (fun s label => s.answersRequest label) s) :
    s.CountsRequests := by
  have tracks : Tracks (Pending s.log) s.log.mark s.conn :=
    reach.invariant (P := fun s => Tracks (Pending s.log) s.log.mark s.conn) (fun _ => tracks_initial)
      fun s s' label tracks allowed run => by
        refine tracks_step (Q := Pending) run (fun index => .fresh s.log s.conn index) (fun _ _ => Pending.ask)
          (fun msg io pieces disk ifp ifp' piece m same answered arrived tiled pending => ?_) tracks
        rw [same, answersRequest, answered, Option.all_some, Bool.and_eq_true, decide_eq_true_eq, decide_eq_true_eq]
          at allowed
        exact pending.arrived tiled arrived allowed.1 allowed.2
  intro ifp current
  obtain ⟨m, tiled, pending⟩ := tracks.tracked ifp current
  exact ⟨pending.room, pending.unanswered tiled⟩

/-- The only request was answered, with a block that is too long to be of use. -/
theorem counts_requests_answered : ∃ s ifp,
    exec (step oneByte oneByteWriter oneByteSha1) (fun s label => s.answersRequest label) oneByteTransfer
      (oneByteOffer ++ oneByteRound ⟨.piece, [0, 0, 0, 0, 0, 0, 0, 0, 7, 7]⟩) = some s ∧
    s.conn.mCurrentPiece = some ifp ∧ s.requested = [0] ∧ s.log.answers = [0] ∧ ifp.requestsInFlight = 0 ∧
      s.unanswered = 0 := by
  have enabled : (exec (step oneByte oneByteWriter oneByteSha1) (fun s label => s.answersRequest label) oneByteTransfer
      (oneByteOffer ++ oneByteRound ⟨.piece, [0, 0, 0, 0, 0, 0, 0, 0, 7, 7]⟩)).isSome = true := by decide +kernel
  have run := (Option.some_get enabled).symm
  have reach : Reach (Initial oneByte) (step oneByte oneByteWriter oneByteSha1)
      (fun s label => s.answersRequest label) _ := (Reach.start ⟨_, _, _, rfl⟩).exec run
  exact ⟨_, _, run, rfl, rfl, rfl, rfl, (counts_requests reach _ rfl).2.symm⟩

/-- Two blocks beyond the end of a piece of one block: the second wraps the
counter. -/
theorem bogus_blocks_wrap_counter :
    ¬ ∀ s, Reach (Initial oneByte) (step oneByte oneByteWriter oneByteSha1) unguarded s → s.CountsRequests := by
  intro claim
  have enabled : (exec (step oneByte oneByteWriter oneByteSha1) unguarded oneByteTransfer (oneByteOffer ++
      oneByteRound ⟨.piece, [0, 0, 0, 0, 0, 0, 0, 2]⟩ ++ oneByteRound ⟨.piece, [0, 0, 0, 0, 0, 0, 0, 2]⟩)).isSome = true := by
    decide +kernel
  have run := (Option.some_get enabled).symm
  have reach : Reach (Initial oneByte) (step oneByte oneByteWriter oneByteSha1) unguarded _ :=
    (Reach.start ⟨_, _, _, rfl⟩).exec run
  have bounded := (claim _ reach _ rfl).1
  exact absurd bounded (by decide +kernel)

end Transfer

end BittorrentClient
