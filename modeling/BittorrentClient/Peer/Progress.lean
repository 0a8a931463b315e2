import BittorrentClient.Peer.Serving

namespace BittorrentClient
open Cpp

/-- As many requests as allowed are on their way, or every block has been asked for. -/
def InFlightPiece.Full (ifp : InFlightPiece) : Prop := maxPipeline ≤ ifp.requestsInFlight ∨ ifp.pieceLength ≤ ifp.nextBlockOffset

namespace PeerConnection
variable {pm : PieceManager} {w : DiskWriter} {sha1 : Bytes → Sha1Hash} {io : Io} {mHave : Nat → Bool}

/-- The peer has a piece that we have not. -/
def Offers (conn : PeerConnection) (mHave : Nat → Bool) (i : Nat) : Prop := conn.mPeerBitfield.getD i false = true ∧ mHave i = false

/-- The connection has an entry for each piece, a peer that has something for us knows that
we want it, and is only asked for what it has. -/
structure Eager (pm : PieceManager) (mHave : Nat → Bool) (conn : PeerConnection) : Prop where
  sized : conn.mPeerBitfield.length = pm.mNumPieces
  interested : ∀ i, conn.Offers mHave i → conn.mAmInterested = true
  held : ∀ ifp, conn.mCurrentPiece = some ifp → conn.mPeerBitfield.getD ifp.pieceIndex false = true

/-- A connection that may ask works on a piece, unless there is nothing to ask for. -/
structure Busy (pm : PieceManager) (mHave : Nat → Bool) (conn : PeerConnection) : Prop extends Eager pm mHave conn where
  fills : conn.mPeerChoking = false → conn.mAmInterested = true →
    (∃ ifp, conn.mCurrentPiece = some ifp ∧ ifp.Full) ∨ (conn.mCurrentPiece = none ∧ ∀ i, ¬ conn.Offers mHave i)

theorem Offers.before {conn : PeerConnection} {mHave' : Nat → Bool} {i : Nat} (offers : conn.Offers mHave' i)
    (more : ∀ i, mHave i = true → mHave' i = true) : conn.Offers mHave i := by
  refine ⟨offers.1, ?_⟩
  by_contra had
  have now := more i (by simpa using had)
  rw [offers.2] at now
  cases now

theorem Eager.more {conn : PeerConnection} {mHave' : Nat → Bool} (eager : Eager pm mHave conn)
    (more : ∀ i, mHave i = true → mHave' i = true) : Eager pm mHave' conn :=
  ⟨eager.sized, fun i offers => eager.interested i (offers.before more), eager.held⟩

/-- What other connections do to the flags is no reason to ask for more. -/
theorem Busy.more {conn : PeerConnection} {mHave' : Nat → Bool} (busy : Busy pm mHave conn)
    (more : ∀ i, mHave i = true → mHave' i = true) : Busy pm mHave' conn := by
  refine ⟨busy.toEager.more more, fun unchoked interested => ?_⟩
  rcases busy.fills unchoked interested with working | ⟨idle, nothing⟩
  · exact Or.inl working
  · exact Or.inr ⟨idle, fun i offers => nothing i (offers.before more)⟩

theorem Busy.fresh (pm : PieceManager) (mHave : Nat → Bool) : Busy pm mHave (PeerConnection.make pm) := by
  have none : ∀ i, ¬ (PeerConnection.make pm).Offers mHave i := by
    rintro i ⟨offered, _⟩
    have absent : (List.replicate pm.mNumPieces false).getD i false = false := by
      rw [List.getD_eq_getElem?_getD, List.getElem?_replicate]
      split
      case isTrue => rfl
      case isFalse => rfl
    cases offered.symm.trans absent
  exact ⟨⟨List.length_replicate, fun i offers => absurd offers (none i), fun _ current => by cases current⟩,
    fun unchoked => by cases unchoked⟩

section Messages
variable {world : World}

/-- A call that keeps what the peer has, never takes back that we are interested, and
starts with no other piece. -/
structure Keeps (before after : PeerConnection) : Prop where
  bitfield : after.mPeerBitfield = before.mPeerBitfield
  interested : before.mAmInterested = true → after.mAmInterested = true
  piece : ∀ ifp, after.mCurrentPiece = some ifp → ∃ old, before.mCurrentPiece = some old ∧ ifp.pieceIndex = old.pieceIndex

theorem Keeps.of_eq {before after : PeerConnection} (bitfield : after.mPeerBitfield = before.mPeerBitfield)
    (interested : after.mAmInterested = before.mAmInterested) (piece : after.mCurrentPiece = before.mCurrentPiece) :
    Keeps before after :=
  ⟨bitfield, fun wanted => interested.trans wanted, fun ifp current => ⟨ifp, piece ▸ current, rfl⟩⟩

theorem Keeps.of_none {before after : PeerConnection} (bitfield : after.mPeerBitfield = before.mPeerBitfield)
    (interested : after.mAmInterested = before.mAmInterested) (none : after.mCurrentPiece = none) : Keeps before after :=
  ⟨bitfield, fun wanted => interested.trans wanted, fun _ current => nomatch none.symm.trans current⟩

theorem Keeps.of_some {before after : PeerConnection} {ifp next : InFlightPiece}
    (bitfield : after.mPeerBitfield = before.mPeerBitfield)
    (interested : after.mAmInterested = before.mAmInterested) (current : before.mCurrentPiece = some ifp)
    (current' : after.mCurrentPiece = some next) (index : next.pieceIndex = ifp.pieceIndex) : Keeps before after := by
  refine ⟨bitfield, fun wanted => interested.trans wanted, fun other found => ⟨ifp, current, ?_⟩⟩
  rw [← Option.some.inj (current'.symm.trans found)]
  exact index

theorem Keeps.trans {a b c : PeerConnection} (first : Keeps a b) (second : Keeps b c) : Keeps a c := by
  refine ⟨second.bitfield.trans first.bitfield, fun wanted => second.interested (first.interested wanted), fun ifp current => ?_⟩
  obtain ⟨middle, current', index⟩ := second.piece ifp current
  obtain ⟨old, current'', index'⟩ := first.piece middle current'
  exact ⟨old, current'', index.trans index'⟩

theorem Keeps.eager {before after : PeerConnection} (keeps : Keeps before after) (eager : Eager pm mHave before) :
    Eager pm mHave after := by
  refine ⟨keeps.bitfield ▸ eager.sized, fun i offers => keeps.interested (eager.interested i ?_), fun ifp current => ?_⟩
  · rw [Offers, keeps.bitfield] at offers
    exact offers
  · obtain ⟨old, current', index⟩ := keeps.piece ifp current
    rw [keeps.bitfield, index]
    exact eager.held old current'

/-- The bits of the peer are only ever set. -/
theorem getD_set_true {bits : List Bool} {i j : Nat} (set : bits.getD j false = true) : (bits.set i true).getD j false = true := by
  rw [List.getD_eq_getElem?_getD] at set ⊢
  by_cases same : i = j
  · subst same
    cases found : bits[i]? with
    | none =>
      rw [found] at set
      cases set
    | some bit =>
      rw [List.getElem?_set_self (List.getElem?_eq_some_iff.mp found).1]
      rfl
  · rw [List.getElem?_set_ne same]
    exact set

theorem sendMessage_keeps (msg : PeerMessage) (world : World) : Keeps world.conn (sendMessage io msg world).1.conn := by
  unfold sendMessage
  split
  case isTrue => exact .of_eq rfl rfl rfl
  case isFalse => exact .of_eq rfl rfl rfl

theorem andThen_keeps {conn : PeerConnection} {first : Outcome} {next : World → Outcome} (keeps : Keeps conn first.1.conn)
    (later : ∀ world, Keeps conn world.conn → Keeps conn (next world).1.conn) : Keeps conn (first.andThen next).1.conn := by
  obtain ⟨world, result⟩ := first
  cases result with
  | ok => exact later world keeps
  | error => exact keeps

theorem sendUnchoke_keeps (world : World) : Keeps world.conn (sendUnchoke io world).1.conn := by
  unfold sendUnchoke
  split
  case isTrue => exact .of_eq rfl rfl rfl
  case isFalse => exact andThen_keeps (sendMessage_keeps _ world) fun _ keeps => keeps.trans (.of_eq rfl rfl rfl)

/-- After `send_interested` has returned, the peer knows. -/
theorem sendInterested_interested {next : World} (sent : sendInterested io world = (next, .ok ())) :
    next.conn.mAmInterested = true ∧ Keeps world.conn next.conn := by
  unfold sendInterested at sent
  split at sent
  case isTrue already =>
    cases sent
    exact ⟨already, .of_eq rfl rfl rfl⟩
  case isFalse =>
    unfold sendMessage at sent
    split at sent
    case isTrue =>
      cases sent
      exact ⟨rfl, rfl, fun _ => rfl, fun ifp current => ⟨ifp, current, rfl⟩⟩
    case isFalse => cases sent

theorem handleHave_eager {msg : PeerMessage} {next : World} (eager : Eager pm world.pieces.mHave world.conn)
    (handled : handleHave pm io msg world = (next, .ok ())) : Eager pm world.pieces.mHave next.conn := by
  unfold handleHave at handled
  split at handled
  case h_1 => cases handled
  case h_2 announced _ =>
    split at handled
    case isTrue => cases handled
    case isFalse inside =>
      have sized : (world.conn.mPeerBitfield.set announced.pieceIndex true).length = pm.mNumPieces := by
        rw [List.length_set, eager.sized]
      simp only at handled
      split at handled
      case isTrue =>
        obtain ⟨interested, keeps⟩ := sendInterested_interested handled
        refine ⟨keeps.bitfield ▸ sized, fun _ _ => interested, fun ifp current => ?_⟩
        obtain ⟨old, current', index⟩ := keeps.piece ifp current
        rw [keeps.bitfield, index]
        exact getD_set_true (eager.held old current')
      case isFalse had =>
        cases handled
        refine ⟨sized, fun i offers => ?_, fun ifp current => getD_set_true (eager.held ifp current)⟩
        have have_ : pm.havePiece announced.pieceIndex world.pieces = true := by simpa using had
        simp only [PieceManager.havePiece, Bool.and_eq_true] at have_
        by_cases same : i = announced.pieceIndex
        · rw [same, Offers, have_.2] at offers
          cases offers.2
        · refine eager.interested i ⟨?_, offers.2⟩
          have bit := offers.1
          rw [List.getD_eq_getElem?_getD, List.getElem?_set_ne (Ne.symm same)] at bit
          rw [List.getD_eq_getElem?_getD]
          exact bit

theorem copyBitfield_length (bf : BitfieldMessage) (indices : List Nat) (world : World) :
    (copyBitfield bf indices world).1.conn.mPeerBitfield.length = world.conn.mPeerBitfield.length := by
  induction indices generalizing world with
  | nil => rfl
  | cons i rest ih =>
    unfold copyBitfield
    split
    case h_1 => rfl
    case h_2 => exact (ih _).trans List.length_set
    case h_3 => exact ih world

theorem copyBitfield_held (bf : BitfieldMessage) (indices : List Nat) {j : Nat} (world : World)
    (set : world.conn.mPeerBitfield.getD j false = true) :
    (copyBitfield bf indices world).1.conn.mPeerBitfield.getD j false = true := by
  induction indices generalizing world with
  | nil => exact set
  | cons i rest ih =>
    unfold copyBitfield
    split
    case h_1 => exact set
    case h_2 => exact ih _ (getD_set_true set)
    case h_3 => exact ih world set

theorem handleBitfield_eager {msg : PeerMessage} {next : World} (eager : Eager pm world.pieces.mHave world.conn)
    (handled : handleBitfield pm io msg world = (next, .ok ())) : Eager pm world.pieces.mHave next.conn := by
  unfold handleBitfield at handled
  split at handled
  case h_1 => cases handled
  case h_2 bf _ =>
    split at handled
    case isTrue => cases handled
    case isFalse =>
      have sized := (copyBitfield_length bf (List.range pm.mNumPieces) world).trans eager.sized
      have stored := copyBitfield_store bf (List.range pm.mNumPieces) world
      have piece := (copyBitfield_quiet bf (List.range pm.mNumPieces) world).piece
      have held := fun j => @copyBitfield_held bf (List.range pm.mNumPieces) j world
      generalize copyBitfield bf (List.range pm.mNumPieces) world = copied at handled sized stored piece held
      obtain ⟨middle, result⟩ := copied
      cases result with
      | error error => cases handled
      | ok =>
        simp only [Outcome.andThen] at handled
        have flags : middle.pieces.mHave = world.pieces.mHave := congrArg Prod.fst stored
        split at handled
        case isTrue =>
          obtain ⟨interested, keeps⟩ := sendInterested_interested handled
          refine ⟨keeps.bitfield ▸ sized, fun _ _ => interested, fun ifp current => ?_⟩
          obtain ⟨old, current', index⟩ := keeps.piece ifp current
          rw [keeps.bitfield, index]
          exact held _ (eager.held old (piece.symm.trans current'))
        case isFalse nothing =>
          cases handled
          refine ⟨sized, fun i offers => absurd ?_ nothing, fun ifp current => held _ (eager.held ifp (piece.symm.trans current))⟩
          have inside : i < pm.mNumPieces := by
            by_contra beyond
            have bit := offers.1
            rw [List.getD_eq_getElem?_getD, List.getElem?_eq_none (sized.trans_le (Nat.not_lt.mp beyond))] at bit
            cases bit
          refine List.any_eq_true.mpr ⟨i, List.mem_range.mpr inside, ?_⟩
          rw [PieceManager.havePiece, flags, offers.1, offers.2]
          simp

theorem handleChoke_keeps (world : World) : Keeps world.conn (handleChoke pm world).1.conn := by
  unfold handleChoke
  simp only
  split
  case h_1 => exact .of_eq rfl rfl rfl
  case h_2 => exact .of_none rfl rfl rfl

theorem handleRequest_keeps (msg : PeerMessage) (world : World) : Keeps world.conn (handleRequest pm w io msg world).1.conn := by
  unfold handleRequest
  split
  case h_1 => exact .of_eq rfl rfl rfl
  case h_2 =>
    split
    case isTrue => exact .of_eq rfl rfl rfl
    case isFalse =>
      split
      case isTrue => exact .of_eq rfl rfl rfl
      case isFalse =>
        split
        case h_1 => exact .of_eq rfl rfl rfl
        case h_2 => exact andThen_keeps (sendMessage_keeps _ world) fun _ keeps => keeps.trans (.of_eq rfl rfl rfl)

theorem handleCancel_keeps (msg : PeerMessage) (world : World) : Keeps world.conn (handleCancel msg world).1.conn := by
  unfold handleCancel
  split
  case h_1 => exact .of_eq rfl rfl rfl
  case h_2 => exact .of_eq rfl rfl rfl

theorem handlePiece_keeps (msg : PeerMessage) (world : World) :
    Keeps world.conn (handlePiece pm w sha1 io msg world).1.conn := by
  rcases handlePiece_cases pm w sha1 io msg world with ⟨_, idle⟩ | ⟨ifp, piece, current, _, ⟨_, refused⟩ | ⟨_, taken⟩⟩
  · rw [idle]
    exact .of_eq rfl rfl rfl
  · rw [refused]
    exact .of_some rfl rfl current rfl ifp.arrived_answered.index
  · have received : Keeps world.conn (world.conn.received ifp piece) :=
      .of_some rfl rfl current rfl (ifp.arrived_stored piece).index
    rw [taken]
    split
    case isTrue => exact received
    case isFalse =>
      rcases handOff_conn pm w sha1 io (ifp.stored piece) { world with conn := world.conn.received ifp piece } with kept | reset
      · rw [kept]
        exact received
      · rw [reset]
        exact .of_none rfl rfl rfl

/-- A handler never takes back what we have. -/
theorem handleMessage_more (msg : PeerMessage) (world : World) (i : Nat) (had : world.pieces.mHave i = true) :
    (handleMessage pm w sha1 io msg world).1.pieces.mHave i = true := by
  rcases @handleMessage_stores pm w sha1 io msg world with same | ⟨index, data, same⟩
  · exact (congrFun (congrArg Prod.fst same) i).trans had
  · refine (congrFun (congrArg Prod.fst same) i).trans ?_
    exact (pm.completePiece_flags w sha1 io.faults index data world.pieces world.disk).2.1 i had

/-- What the peer has is only changed by its own announcements. -/
theorem handleMessage_keeps {msg : PeerMessage} (have_ : msg.id ≠ .have) (bitfield : msg.id ≠ .bitfield) (world : World) :
    Keeps world.conn (handleMessage pm w sha1 io msg world).1.conn := by
  unfold handleMessage
  split
  case h_1 => exact handleChoke_keeps world
  case h_2 => exact .of_eq rfl rfl rfl
  case h_3 =>
    have marked : Keeps world.conn { world.conn with mPeerInterested := true } := .of_eq rfl rfl rfl
    exact marked.trans (sendUnchoke_keeps { world with conn := { world.conn with mPeerInterested := true } })
  case h_4 => exact .of_eq rfl rfl rfl
  case h_5 id => exact absurd id have_
  case h_6 id => exact absurd id bitfield
  case h_7 => exact handlePiece_keeps msg world
  case h_8 => exact handleRequest_keeps msg world
  case h_9 => exact handleCancel_keeps msg world
  case h_10 => exact .of_eq rfl rfl rfl

/-- Every message that is handled without an exception leaves a peer that has something
for us knowing that we want it. -/
theorem handleMessage_eager {msg : PeerMessage} {next : World} (eager : Eager pm world.pieces.mHave world.conn)
    (handled : handleMessage pm w sha1 io msg world = (next, .ok ())) : Eager pm next.pieces.mHave next.conn := by
  have more := @handleMessage_more pm w sha1 io msg world
  rw [handled] at more
  refine Eager.more ?_ more
  by_cases have_ : msg.id = .have
  · simp only [handleMessage, have_] at handled
    exact handleHave_eager eager handled
  · by_cases bitfield : msg.id = .bitfield
    · simp only [handleMessage, bitfield] at handled
      exact handleBitfield_eager eager handled
    · have keeps := @handleMessage_keeps pm w sha1 io msg have_ bitfield world
      rw [handled] at keeps
      exact keeps.eager eager

end Messages

section Fill
variable {world : World}

/-- The request loop stops for want of room or of blocks, never for want of rounds. -/
theorem requestLoop_full {rounds : Nat} {ifp : InFlightPiece} {next : World} (enough : maxPipeline ≤ rounds + ifp.requestsInFlight)
    (current : world.conn.mCurrentPiece = some ifp) (ran : requestLoop io rounds ifp world = (next, .ok ())) :
    ∃ last, next.conn.mCurrentPiece = some last ∧ last.Full := by
  induction rounds generalizing ifp world with
  | zero =>
    cases ran
    exact ⟨ifp, current, Or.inl (by omega)⟩
  | succ rounds ih =>
    unfold requestLoop at ran
    split at ran
    case isFalse done =>
      cases ran
      refine ⟨ifp, current, ?_⟩
      rcases not_and_or.mp done with room | blocks
      · exact Or.inl (Nat.not_lt.mp room)
      · exact Or.inr (Nat.not_lt.mp blocks)
    case isTrue more =>
      unfold sendMessage at ran
      split at ran
      case isTrue =>
        refine ih ?_ rfl ran
        have counted : u32 (ifp.requestsInFlight + 1) = ifp.requestsInFlight + 1 :=
          Nat.mod_eq_of_lt (Nat.lt_of_le_of_lt more.1 (by decide))
        simp only [counted]
        omega
      case isFalse => cases ran

theorem requestLoop_keeps {rounds : Nat} {ifp : InFlightPiece} {world : World} (current : world.conn.mCurrentPiece = some ifp) :
    Keeps world.conn (requestLoop io rounds ifp world).1.conn := by
  induction rounds generalizing ifp world with
  | zero => exact .of_eq rfl rfl rfl
  | succ rounds ih =>
    unfold requestLoop
    split
    case isTrue =>
      unfold sendMessage
      split
      case isTrue =>
        have asked : Keeps world.conn (world.conn.ask ifp) := .of_some rfl rfl current rfl rfl
        exact asked.trans (@ih ifp.asked { world with conn := world.conn.ask ifp } rfl)
      case isFalse => exact .of_eq rfl rfl rfl
    case isFalse => exact .of_eq rfl rfl rfl

/-- `next_needed` gives up only when there is nothing to ask for. -/
theorem nextNeeded_none {peerBitfield : List Bool} {pieces : Pieces} (none : (pm.nextNeeded peerBitfield pieces).1 = none) :
    ∀ i < pm.mNumPieces, PieceManager.needs peerBitfield pieces i = false := by
  intro i inside
  unfold PieceManager.nextNeeded at none
  split at none
  case h_1 => cases none
  case h_2 =>
    have searched := Option.map_eq_none_iff.mp none
    simpa using List.find?_eq_none.mp searched i (List.mem_range.mpr inside)

/-- Where `fill_requests` begins: with a current piece, or with nothing to ask for. -/
theorem pickPiece_idle {left : World} (sized : left.conn.mPeerBitfield.length = pm.mNumPieces)
    (idle : (pickPiece pm left).conn.mCurrentPiece = none) (i : Nat) : ¬ left.conn.Offers left.pieces.mHave i := by
  rintro ⟨offered, missing⟩
  have inside : i < pm.mNumPieces := by
    by_contra beyond
    rw [List.getD_eq_getElem?_getD, List.getElem?_eq_none (by omega)] at offered
    cases offered
  have nothing : (pm.nextNeeded left.conn.mPeerBitfield left.pieces).1 = none := by
    unfold pickPiece at idle
    split at idle
    case h_1 current => cases current.symm.trans idle
    case h_2 =>
      split at idle
      case h_1 found => rw [found]
      case h_2 => cases idle
  have needed : PieceManager.needs left.conn.mPeerBitfield left.pieces i = true := by
    rw [PieceManager.needs, offered, missing]
    rfl
  cases needed.symm.trans (nextNeeded_none nothing i inside)

/-- What `next_needed` hands out is needed. -/
theorem nextNeeded_needs {peerBitfield : List Bool} {pieces : Pieces} {pick : NeededPiece}
    (found : (pm.nextNeeded peerBitfield pieces).1 = some pick) : PieceManager.needs peerBitfield pieces pick.index = true := by
  unfold PieceManager.nextNeeded at found
  split at found
  case h_1 i searched =>
    cases found
    have test := List.find?_some searched
    simp only [Bool.and_eq_true] at test
    exact test.1
  case h_2 =>
    obtain ⟨i, searched, rfl⟩ := Option.map_eq_some_iff.mp found
    exact List.find?_some searched

theorem pickPiece_eager {left : World} (eager : Eager pm mHave left.conn) : Eager pm mHave (pickPiece pm left).conn := by
  unfold pickPiece
  split
  case h_1 => exact eager
  case h_2 =>
    split
    case h_1 => exact eager
    case h_2 pick pieces found =>
      refine ⟨eager.sized, eager.interested, fun ifp current => ?_⟩
      have needed := nextNeeded_needs (congrArg Prod.fst found)
      simp only [PieceManager.needs, Bool.and_eq_true] at needed
      cases current
      exact needed.1

theorem pickPiece_bitfield (left : World) : (pickPiece pm left).conn.mPeerBitfield = left.conn.mPeerBitfield := by
  unfold pickPiece
  split
  case h_1 => rfl
  case h_2 =>
    split
    case h_1 => rfl
    case h_2 => rfl

/-- After `fill_requests` a connection is as busy as it can be. -/
theorem fillRequests_busy {next : World} (eager : Eager pm world.pieces.mHave world.conn)
    (filled : fillRequests pm io world = (next, .ok ())) : Busy pm next.pieces.mHave next.conn := by
  have store := @fillRequests_store pm io world
  rw [filled] at store
  have flags : next.pieces.mHave = world.pieces.mHave := congrArg Prod.fst store
  rw [flags]
  unfold fillRequests at filled
  split at filled
  case isTrue choked =>
    cases filled
    exact ⟨eager, fun unchoked => by cases choked.symm.trans unchoked⟩
  case isFalse =>
    split at filled
    case isTrue indifferent =>
      cases filled
      exact ⟨eager, fun _ interested => by rw [interested] at indifferent; cases indifferent⟩
    case isFalse =>
      have dropped : Eager pm world.pieces.mHave (dropFinished pm world).conn := by
        rcases dropFinished_cases pm world with kept | reset
        · rw [kept]
          exact eager
        · rw [reset]
          have keeps : Keeps world.conn world.conn.resetPiece := .of_none rfl rfl rfl
          exact keeps.eager eager
      have flagsLeft : (dropFinished pm world).pieces.mHave = world.pieces.mHave := by
        rcases dropFinished_cases pm world with kept | reset
        · rw [kept]
        · rw [reset]
      have picked := pickPiece_eager dropped
      have idle := @pickPiece_idle pm (dropFinished pm world) dropped.sized
      rw [flagsLeft] at idle
      simp only at filled
      split at filled
      case h_1 none =>
        cases filled
        refine ⟨picked, fun _ _ => Or.inr ⟨none, fun i offers => idle none i ?_⟩⟩
        rwa [Offers, pickPiece_bitfield] at offers
      case h_2 ifp current =>
        have keeps := @requestLoop_keeps io maxPipeline ifp _ current
        rw [filled] at keeps
        exact ⟨keeps.eager picked, fun _ _ => Or.inl (requestLoop_full (Nat.le_add_right _ _) current filled)⟩

/-- A whole round of the loop of `run`. -/
theorem handleThenFill_busy {msg : PeerMessage} {next : World} (eager : Eager pm world.pieces.mHave world.conn)
    (ran : handleThenFill pm w sha1 io msg world = (next, .ok ())) : Busy pm next.pieces.mHave next.conn := by
  unfold handleThenFill at ran
  cases handled : handleMessage pm w sha1 io msg world with
  | mk middle result =>
    rw [handled] at ran
    cases result with
    | error error => cases ran
    | ok => exact fillRequests_busy (handleMessage_eager eager handled) ran

/-- Neither a handler nor the request loop takes back what we have. -/
theorem handleThenFill_more (msg : PeerMessage) (world : World) (i : Nat) (had : world.pieces.mHave i = true) :
    (handleThenFill pm w sha1 io msg world).1.pieces.mHave i = true := by
  rcases @handleThenFill_stores pm w sha1 io msg world with same | ⟨index, data, same⟩
  · exact (congrFun (congrArg Prod.fst same) i).trans had
  · refine (congrFun (congrArg Prod.fst same) i).trans ?_
    exact (pm.completePiece_flags w sha1 io.faults index data world.pieces world.disk).2.1 i had

end Fill

end PeerConnection

namespace Swarm
open Machine PeerConnection Talk

variable {pm : PieceManager} {w : DiskWriter} {sha1 : Bytes → Sha1Hash} {s s' : Swarm}

/-- No live connection waits without a reason. -/
def AllBusy (pm : PieceManager) (s : Swarm) : Prop := ∀ id conn, s.conns id = some conn → Busy pm s.pieces.mHave conn

theorem AllBusy.update {pieces : Pieces} {disk : Disk} {id : Nat} {conn : Option PeerConnection} (busy : AllBusy pm s)
    (more : ∀ i, s.pieces.mHave i = true → pieces.mHave i = true) (own : ∀ live, conn = some live → Busy pm pieces.mHave live) :
    AllBusy pm ⟨pieces, disk, Function.update s.conns id conn⟩ := by
  intro other live found
  by_cases same : other = id
  · subst same
    simp only [Function.update_self] at found
    exact own live found
  · simp only [Function.update_of_ne same] at found
    exact (busy other live found).more more

theorem AllBusy.destroy {world : World} {id : Nat} (busy : AllBusy pm s)
    (more : ∀ i, s.pieces.mHave i = true → world.pieces.mHave i = true) : AllBusy pm (destroy pm s id world) := by
  refine busy.update (fun i had => ?_) fun _ gone => by cases gone
  rw [releaseClaim_mHave]
  exact more i had

theorem AllBusy.step {label : Label} (busy : AllBusy pm s) (run : step pm w sha1 s label = some s') : AllBusy pm s' := by
  cases label with
  | open_ id =>
    rw [Swarm.step] at run
    split at run
    case h_1 => cases run
    case h_2 =>
      cases run
      refine busy.update (fun _ had => had) fun live found => ?_
      cases found
      exact .fresh pm _
  | message id msg io =>
    obtain ⟨conn, live, went⟩ := step_message run
    have more := @handleThenFill_more pm w sha1 io msg ⟨conn, s.pieces, s.disk⟩
    rcases went with ⟨world, outcome, rfl⟩ | ⟨world, error, outcome, _, rfl⟩
    · rw [outcome] at more
      refine busy.update more fun live' found => ?_
      cases found
      exact handleThenFill_busy (busy id conn live).toEager outcome
    · rw [outcome] at more
      exact busy.destroy more
  | drop id =>
    rw [Swarm.step] at run
    split at run
    case h_1 => cases run
    case h_2 =>
      cases run
      exact busy.destroy fun _ had => had

theorem allBusy_reach (reach : Reach Initial (step pm w sha1) unguarded s) : AllBusy pm s := by
  refine reach.invariant (fun s initial id conn live => ?_) fun s s' label busy _ run => busy.step run
  cases (initial.2 id).symm.trans live

/-- In every reachable state, a peer that has a piece that we lack has been told that we
are interested, and once it has unchoked us, its connection works on a piece of the
peer of which as many blocks as allowed are on their way or every block has been asked for. -/
theorem never_idle (reach : Reach Initial (step pm w sha1) unguarded s) {id i : Nat} {conn : PeerConnection}
    (live : s.conns id = some conn) (offers : conn.Offers s.pieces.mHave i) :
    ⟨.interested, []⟩ ∈ conn.sent ∧ (conn.mPeerChoking = false → ∃ ifp, conn.mCurrentPiece = some ifp ∧
      conn.mPeerBitfield.getD ifp.pieceIndex false = true ∧ ifp.Full) := by
  have courteous : Courteous (PieceMessage.Within pm) s := by
    refine reach.invariant (fun s initial id conn live => ?_) fun s s' label courteous _ run =>
      courteous.step (fun _ within => within.small) (fun _ msg _ _ => serves_within s.pieces s.disk msg) run
    cases (initial.2 id).symm.trans live
  have busy := allBusy_reach reach id conn live
  have interested := busy.interested i offers
  refine ⟨?_, fun unchoked => ?_⟩
  · have once := (courteous id conn live).interested
    rw [PeerConnection.talk, interested] at once
    exact Conduct.mem_of_count once
  · rcases busy.fills unchoked interested with working | ⟨_, nothing⟩
    · obtain ⟨ifp, current, full⟩ := working
      exact ⟨ifp, current, busy.held ifp current, full⟩
    · exact absurd offers (nothing i)

/-- Two peers announce the same piece and unchoke us. -/
def eagerLabels : List Label :=
  [.open_ 0, .message 0 ⟨.have, [0, 0, 0, 0]⟩ calmIo, .message 0 ⟨.unchoke, []⟩ calmIo,
    .open_ 1, .message 1 ⟨.have, [0, 0, 0, 0]⟩ calmIo, .message 1 ⟨.unchoke, []⟩ calmIo]

theorem eager_runs : (exec (step oneByte oneByteWriter oneByteSha1) unguarded seedingStart eagerLabels).isSome = true := by
  decide +kernel

theorem eager_up : ((Option.get _ eager_runs).conns 1).isSome = true := by decide +kernel

/-- The second peer is asked for the piece that the first has been asked for already. -/
theorem never_idle_endgame :
    ∃ s conn ifp, exec (step oneByte oneByteWriter oneByteSha1) unguarded seedingStart eagerLabels = some s ∧
      s.conns 1 = some conn ∧ conn.mCurrentPiece = some ifp ∧ ifp.Full := by
  have run := (Option.some_get eager_runs).symm
  have live := (Option.some_get eager_up).symm
  have offers : (Option.get _ eager_up).Offers (Option.get _ eager_runs).pieces.mHave 0 :=
    ⟨by decide +kernel, by decide +kernel⟩
  have unchoked : (Option.get _ eager_up).mPeerChoking = false := by decide +kernel
  obtain ⟨ifp, current, _, full⟩ := (never_idle ((Reach.start seedingStart_initial).exec run) live offers).2 unchoked
  exact ⟨_, _, ifp, run, live, current, full⟩

end Swarm

end BittorrentClient
