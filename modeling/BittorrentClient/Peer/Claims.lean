import BittorrentClient.Peer.Swarm

namespace BittorrentClient
open Cpp

/-- The connection works on piece `index` under its exclusive claim. -/
def PeerConnection.Holds (conn : PeerConnection) (index : Nat) : Prop :=
  conn.mCurrentPieceExclusive = true ∧ conn.mCurrentPiece.map InFlightPiece.pieceIndex = some index

/-- What one connection owes the others, `held` being the pieces the others
hold: its own claim is set and nobody else's, their claims stay set, and a
claim on a missing piece has a holder. -/
structure ClaimInv (pm : PieceManager) (held : Nat → Prop) (world : World) : Prop where
  own : ∀ i, world.conn.Holds i → i < pm.mNumPieces ∧ world.pieces.mClaimed i = true ∧ ¬held i
  others : ∀ i, held i → world.pieces.mClaimed i = true
  covered : ∀ i, world.pieces.mClaimed i = true → world.pieces.mHave i = false → world.conn.Holds i ∨ held i

/-- The steps that leave every claim and every flag as it is. -/
structure SameClaims (before after : World) : Prop where
  claimed : after.pieces.mClaimed = before.pieces.mClaimed
  had : after.pieces.mHave = before.pieces.mHave
  holds : ∀ i, after.conn.Holds i ↔ before.conn.Holds i

namespace SameClaims

theorem refl (world : World) : SameClaims world world := ⟨rfl, rfl, fun _ => Iff.rfl⟩

theorem after {a b c : World} (second : SameClaims b c) (first : SameClaims a b) : SameClaims a c :=
  ⟨second.claimed.trans first.claimed, second.had.trans first.had, fun i => (second.holds i).trans (first.holds i)⟩

/-- Changes to the other fields of the connection. -/
theorem of_conn {world : World} {conn : PeerConnection} (piece : conn.mCurrentPiece = world.conn.mCurrentPiece)
    (exclusive : conn.mCurrentPieceExclusive = world.conn.mCurrentPieceExclusive) :
    SameClaims world { world with conn := conn } := by
  refine ⟨rfl, rfl, fun i => ?_⟩
  simp only [PeerConnection.Holds, piece, exclusive]

/-- The current piece moves on without becoming another piece. -/
theorem of_piece {world : World} {conn : PeerConnection} {ifp ifp' : InFlightPiece}
    (before : world.conn.mCurrentPiece = some ifp) (after : conn.mCurrentPiece = some ifp')
    (index : ifp'.pieceIndex = ifp.pieceIndex)
    (exclusive : conn.mCurrentPieceExclusive = world.conn.mCurrentPieceExclusive) :
    SameClaims world { world with conn := conn } := by
  refine ⟨rfl, rfl, fun i => ?_⟩
  simp only [PeerConnection.Holds, before, after, exclusive, Option.map_some, index]

end SameClaims

theorem ClaimInv.same {pm : PieceManager} {held : Nat → Prop} {before after : World}
    (inv : ClaimInv pm held before) (same : SameClaims before after) : ClaimInv pm held after := by
  refine ⟨?_, ?_, ?_⟩
  · intro i mine
    rw [same.claimed]
    exact inv.own i ((same.holds i).mp mine)
  · intro i theirs
    rw [same.claimed]
    exact inv.others i theirs
  · intro i claimed missing
    rw [same.claimed] at claimed
    rw [same.had] at missing
    exact (inv.covered i claimed missing).imp_left (same.holds i).mpr

theorem andThen_same {world : World} {first : Outcome} {next : World → Outcome} (same : SameClaims world first.1)
    (later : ∀ middle, SameClaims middle (next middle).1) : SameClaims world (first.andThen next).1 := by
  obtain ⟨middle, result⟩ := first
  cases result with
  | ok value => exact (later middle).after same
  | error error => exact same

namespace PeerConnection

variable {pm : PieceManager} {w : DiskWriter} {sha1 : Bytes → Sha1Hash} {io : Io}

theorem sendMessage_same (msg : PeerMessage) (world : World) : SameClaims world (sendMessage io msg world).1 := by
  unfold sendMessage
  split
  · exact .of_conn rfl rfl
  · exact .refl world

theorem sendInterested_same (world : World) : SameClaims world (sendInterested io world).1 := by
  unfold sendInterested
  split
  · exact .refl world
  · exact andThen_same (sendMessage_same _ world) (fun _ => .of_conn rfl rfl)

theorem sendUnchoke_same (world : World) : SameClaims world (sendUnchoke io world).1 := by
  unfold sendUnchoke
  split
  · exact .refl world
  · exact andThen_same (sendMessage_same _ world) (fun _ => .of_conn rfl rfl)

theorem handleHave_same (msg : PeerMessage) (world : World) : SameClaims world (handleHave pm io msg world).1 := by
  unfold handleHave
  split
  · exact .refl world
  · split
    · exact .refl world
    · dsimp only
      split
      · exact (sendInterested_same _).after (.of_conn rfl rfl)
      · exact .of_conn rfl rfl

theorem copyBitfield_same (bf : BitfieldMessage) (indices : List Nat) (world : World) :
    SameClaims world (copyBitfield bf indices world).1 := by
  induction indices generalizing world with
  | nil => exact .refl world
  | cons i rest ih =>
    unfold copyBitfield
    split
    · exact .refl world
    · exact (ih _).after (.of_conn rfl rfl)
    · exact ih world

theorem handleBitfield_same (msg : PeerMessage) (world : World) :
    SameClaims world (handleBitfield pm io msg world).1 := by
  unfold handleBitfield
  split
  · exact .refl world
  · split
    · exact .refl world
    · refine andThen_same (copyBitfield_same _ _ world) (fun middle => ?_)
      split
      · exact sendInterested_same middle
      · exact .refl middle

theorem handleRequest_same (msg : PeerMessage) (world : World) :
    SameClaims world (handleRequest pm w io msg world).1 := by
  unfold handleRequest
  split
  · exact .refl world
  · split
    · exact .refl world
    · split
      · exact .refl world
      · split
        · exact .refl world
        · exact andThen_same (sendMessage_same _ world) (fun _ => .of_conn rfl rfl)

theorem handleCancel_same (msg : PeerMessage) (world : World) : SameClaims world (handleCancel msg world).1 := by
  unfold handleCancel
  split <;> exact .refl world

theorem requestLoop_same (rounds : Nat) {ifp : InFlightPiece} {world : World}
    (current : world.conn.mCurrentPiece = some ifp) : SameClaims world (requestLoop io rounds ifp world).1 := by
  induction rounds generalizing ifp world with
  | zero => exact .refl world
  | succ rounds ih =>
    unfold requestLoop
    split
    · unfold sendMessage
      split
      · exact (ih rfl).after (.of_piece current rfl rfl rfl)
      · exact .refl world
    · exact .refl world

theorem not_holds_reset (conn : PeerConnection) (i : Nat) : ¬conn.resetPiece.Holds i := by
  rintro ⟨exclusive, _⟩
  cases exclusive

theorem Holds.of_current {conn : PeerConnection} {ifp : InFlightPiece} {i : Nat} (holds : conn.Holds i)
    (current : conn.mCurrentPiece = some ifp) : conn.mCurrentPieceExclusive = true ∧ ifp.pieceIndex = i := by
  obtain ⟨exclusive, index⟩ := holds
  rw [current, Option.map_some] at index
  exact ⟨exclusive, Option.some.inj index⟩

/-- Letting the current piece go without a word is right when it is had. -/
theorem reset_claims {held : Nat → Prop} {world : World} {pieces : Pieces} {disk : Disk}
    (inv : ClaimInv pm held world) (claimed : pieces.mClaimed = world.pieces.mClaimed)
    (more : ∀ i, world.pieces.mHave i = true → pieces.mHave i = true)
    (finished : ∀ i, world.conn.Holds i → pieces.mHave i = true) :
    ClaimInv pm held ⟨world.conn.resetPiece, pieces, disk⟩ := by
  refine ⟨fun i mine => absurd mine (not_holds_reset world.conn i), ?_, ?_⟩
  · intro i theirs
    rw [claimed]
    exact inv.others i theirs
  · intro i set missing
    have before : world.pieces.mHave i = false := by
      rw [Bool.eq_false_iff] at missing ⊢
      exact fun had => missing (more i had)
    rw [claimed] at set
    rcases inv.covered i set before with mine | theirs
    · rw [finished i mine] at missing
      cases missing
    · exact Or.inr theirs

/-- Choke, hash failure and destructor: the claim goes with the piece. -/
theorem release_claims {held : Nat → Prop} {world : World} (inv : ClaimInv pm held world) :
    ClaimInv pm held ⟨world.conn.resetPiece, releaseClaim pm world, world.disk⟩ := by
  cases current : world.conn.mCurrentPiece with
  | none =>
    simp only [releaseClaim, current]
    refine reset_claims inv rfl (fun _ => id) ?_
    rintro i ⟨_, index⟩
    rw [current] at index
    cases index
  | some ifp =>
    by_cases exclusive : world.conn.mCurrentPieceExclusive = true
    swap
    · simp only [releaseClaim, current, exclusive, Bool.false_eq_true, if_false]
      exact reset_claims inv rfl (fun _ => id) (fun i holds => absurd holds.1 exclusive)
    have mine : world.conn.Holds ifp.pieceIndex := ⟨exclusive, by rw [current, Option.map_some]⟩
    obtain ⟨below, _, apart⟩ := inv.own _ mine
    simp only [releaseClaim, current, exclusive, if_true, PieceManager.abortPiece, if_neg (Nat.not_le.mpr below)]
    by_cases had : world.pieces.mHave ifp.pieceIndex = true
    · rw [if_pos had]
      refine reset_claims inv rfl (fun _ => id) ?_
      intro i holds
      rw [← (holds.of_current current).2]
      exact had
    · rw [if_neg had]
      refine ⟨fun i holds => absurd holds (not_holds_reset world.conn i), ?_, ?_⟩
      · intro i theirs
        have different : i ≠ ifp.pieceIndex := fun same => apart (same ▸ theirs)
        exact (Function.update_of_ne different ..).trans (inv.others i theirs)
      · intro i set missing
        dsimp only at set
        have different : i ≠ ifp.pieceIndex := by
          rintro rfl
          rw [Function.update_self] at set
          cases set
        rw [Function.update_of_ne different] at set
        refine (inv.covered i set missing).imp_left fun holds => ?_
        exact absurd (holds.of_current current).2.symm different

theorem handleChoke_claims {held : Nat → Prop} {world : World} (inv : ClaimInv pm held world) :
    ClaimInv pm held (handleChoke pm world).1 := by
  have choked : ClaimInv pm held { world with conn := { world.conn with mPeerChoking := true } } :=
    inv.same (.of_conn rfl rfl)
  unfold handleChoke
  dsimp only
  split
  · exact choked
  · exact release_claims choked

end PeerConnection

/-- What `complete_piece` does to the flags, whatever its outcome. -/
theorem PieceManager.completePiece_flags (pm : PieceManager) (w : DiskWriter) (sha1 : Bytes → Sha1Hash)
    (faults : IoFaults) (index : Nat) (data : Bytes) (p : Pieces) (disk : Disk) :
    (pm.completePiece w sha1 faults index data p disk).1.1.mClaimed = p.mClaimed ∧
    (∀ i, p.mHave i = true → (pm.completePiece w sha1 faults index data p disk).1.1.mHave i = true) ∧
    ((pm.completePiece w sha1 faults index data p disk).2 = .ok true →
      (pm.completePiece w sha1 faults index data p disk).1.1.mHave index = true) := by
  have grown : ∀ i, p.mHave i = true → Function.update p.mHave index true i = true := by
    intro i had
    by_cases same : i = index
    · rw [same, Function.update_self]
    · rw [Function.update_of_ne same, had]
  unfold completePiece
  split
  · exact ⟨rfl, fun _ => id, by rintro ⟨⟩⟩
  split
  case isTrue had => exact ⟨rfl, fun _ => id, fun _ => had⟩
  split
  · exact ⟨rfl, fun _ => id, by rintro ⟨⟩⟩
  dsimp only
  split
  · exact ⟨rfl, grown, by rintro ⟨⟩⟩
  · exact ⟨rfl, grown, fun _ => Function.update_self ..⟩

/-- The three answers of `next_needed`. -/
theorem PieceManager.nextNeeded_cases (pm : PieceManager) (peerBitfield : List Bool) (p : Pieces) :
    pm.nextNeeded peerBitfield p = (none, p) ∨
    (∃ i, pm.nextNeeded peerBitfield p = (some ⟨i, false⟩, p)) ∨
    ∃ i, i < pm.mNumPieces ∧ p.mClaimed i = false ∧
      pm.nextNeeded peerBitfield p =
        (some ⟨i, true⟩, { p with mClaimed := Function.update p.mClaimed i true }) := by
  unfold nextNeeded
  split
  case h_1 i found =>
    have test := List.find?_some found
    have below := List.mem_range.mp (List.mem_of_find?_eq_some found)
    simp only [Bool.and_eq_true, Bool.not_eq_true'] at test
    exact Or.inr (Or.inr ⟨i, below, test.2, rfl⟩)
  case h_2 =>
    cases found : (List.range pm.mNumPieces).find? (needs peerBitfield p) with
    | none => exact Or.inl rfl
    | some i => exact Or.inr (Or.inl ⟨i, rfl⟩)

namespace PeerConnection

variable {pm : PieceManager} {w : DiskWriter} {sha1 : Bytes → Sha1Hash} {io : Io} {held : Nat → Prop} {world : World}

theorem handOff_claims {ifp : InFlightPiece} (inv : ClaimInv pm held world)
    (current : world.conn.mCurrentPiece = some ifp) : ClaimInv pm held (handOff pm w sha1 io ifp world).1 := by
  obtain ⟨claimed, more, finished⟩ :=
    pm.completePiece_flags w sha1 io.faults ifp.pieceIndex ifp.data world.pieces world.disk
  unfold handOff
  have returned : ∀ pieces disk, pieces.mClaimed = world.pieces.mClaimed →
      (∀ i, world.pieces.mHave i = true → pieces.mHave i = true) → ClaimInv pm held ⟨world.conn, pieces, disk⟩ := by
    intro pieces disk claimed more
    refine ⟨?_, ?_, ?_⟩
    · intro i mine
      dsimp only
      rw [claimed]
      exact inv.own i mine
    · intro i theirs
      dsimp only
      rw [claimed]
      exact inv.others i theirs
    · intro i set missing
      dsimp only at set missing
      rw [claimed] at set
      refine inv.covered i set ?_
      rw [Bool.eq_false_iff] at missing ⊢
      exact fun had => missing (more i had)
  split
  case h_1 pieces disk error outcome =>
    rw [outcome] at claimed more
    exact returned pieces disk claimed more
  case h_2 pieces disk ok outcome =>
    rw [outcome] at claimed more finished
    cases ok with
    | true =>
      refine reset_claims inv claimed more ?_
      intro i holds
      rw [← (holds.of_current current).2]
      exact finished rfl
    | false =>
      have released := release_claims (returned pieces disk claimed more)
      simp only [releaseClaim, current] at released
      exact released

theorem handlePiece_claims (inv : ClaimInv pm held world) (msg : PeerMessage) :
    ClaimInv pm held (handlePiece pm w sha1 io msg world).1 := by
  unfold handlePiece
  split
  · exact inv
  split
  · exact inv
  case h_2 current here =>
    split
    · exact inv
    dsimp only
    split
    · exact inv.same (.of_piece here rfl rfl rfl)
    split
    · exact inv.same (.of_piece here rfl rfl rfl)
    split
    · exact inv.same (.of_piece here rfl rfl rfl)
    · exact handOff_claims (inv.same (.of_piece here rfl rfl rfl)) rfl

theorem dropFinished_claims (inv : ClaimInv pm held world) : ClaimInv pm held (dropFinished pm world) := by
  unfold dropFinished
  split
  case h_1 ifp current =>
    split
    case isTrue had =>
      simp only [PieceManager.havePiece, Bool.and_eq_true] at had
      refine reset_claims inv rfl (fun _ => id) ?_
      intro i holds
      rw [← (holds.of_current current).2]
      exact had.2
    case isFalse => exact inv
  case h_2 => exact inv

/-- A new claim is taken on a piece that nobody had claimed. -/
theorem pickPiece_claims (inv : ClaimInv pm held world) : ClaimInv pm held (pickPiece pm world) := by
  unfold pickPiece
  split
  · exact inv
  case h_2 current =>
    have idle : ∀ i, ¬world.conn.Holds i := by
      rintro i ⟨_, index⟩
      rw [current] at index
      cases index
    rcases pm.nextNeeded_cases world.conn.mPeerBitfield world.pieces with none_ | ⟨i, endgame⟩ | ⟨i, below, free, claim⟩
    · rw [none_]
      exact inv
    · rw [endgame]
      refine ⟨by rintro j ⟨⟨⟩, _⟩, inv.others, ?_⟩
      intro j set missing
      exact (inv.covered j set missing).imp_left fun holds => absurd holds (idle j)
    · rw [claim]
      have apart : ¬held i := by
        intro theirs
        rw [inv.others i theirs] at free
        cases free
      refine ⟨?_, ?_, ?_⟩
      · rintro j ⟨_, index⟩
        cases index
        exact ⟨below, Function.update_self .., apart⟩
      · intro j theirs
        have different : j ≠ i := fun same => apart (same ▸ theirs)
        exact (Function.update_of_ne different ..).trans (inv.others j theirs)
      · intro j set missing
        dsimp only at set
        by_cases same : j = i
        · subst same
          exact Or.inl ⟨rfl, rfl⟩
        · rw [Function.update_of_ne same] at set
          exact (inv.covered j set missing).imp_left fun holds => absurd holds (idle j)

theorem fillRequests_claims (inv : ClaimInv pm held world) : ClaimInv pm held (fillRequests pm io world).1 := by
  unfold fillRequests
  split
  · exact inv
  split
  · exact inv
  have picked := pickPiece_claims (dropFinished_claims inv)
  dsimp only
  split
  · exact picked
  case h_2 ifp current => exact picked.same (requestLoop_same maxPipeline current)

theorem handleMessage_claims (inv : ClaimInv pm held world) (msg : PeerMessage) :
    ClaimInv pm held (handleMessage pm w sha1 io msg world).1 := by
  unfold handleMessage
  split
  · exact handleChoke_claims inv
  · exact inv.same (.of_conn rfl rfl)
  · exact inv.same ((sendUnchoke_same _).after (.of_conn rfl rfl))
  · exact inv.same (.of_conn rfl rfl)
  · exact inv.same (handleHave_same msg world)
  · exact inv.same (handleBitfield_same msg world)
  · exact handlePiece_claims inv msg
  · exact inv.same (handleRequest_same msg world)
  · exact inv.same (handleCancel_same msg world)
  · exact inv

theorem handleThenFill_claims (inv : ClaimInv pm held world) (msg : PeerMessage) :
    ClaimInv pm held (handleThenFill pm w sha1 io msg world).1 := by
  have handled : ClaimInv pm held (handleMessage pm w sha1 io msg world).1 := handleMessage_claims inv msg
  unfold handleThenFill
  cases outcome : handleMessage pm w sha1 io msg world with
  | mk middle result =>
    rw [outcome] at handled
    cases result with
    | ok value => exact fillRequests_claims handled
    | error error => exact handled

end PeerConnection

namespace Swarm
open Machine

/-- A live connection holds the piece. -/
def HeldBy (s : Swarm) (index id : Nat) : Prop := ∃ conn, s.conns id = some conn ∧ conn.Holds index

/-- The claims of the whole swarm: each holder has its claim set, no piece has
two holders, and a claim on a missing piece has one. -/
structure Claims (pm : PieceManager) (s : Swarm) : Prop where
  set : ∀ i id, s.HeldBy i id → i < pm.mNumPieces ∧ s.pieces.mClaimed i = true
  single : ∀ i id other, s.HeldBy i id → s.HeldBy i other → other = id
  covered : ∀ i, s.pieces.mClaimed i = true → s.pieces.mHave i = false → ∃ id, s.HeldBy i id

variable {pm : PieceManager} {w : DiskWriter} {sha1 : Bytes → Sha1Hash} {s s' : Swarm}

/-- The pieces that connections other than `id` hold. -/
def HeldByOthers (s : Swarm) (id index : Nat) : Prop := ∃ other, other ≠ id ∧ s.HeldBy index other

theorem Claims.claimInv (claims : Claims pm s) {id : Nat} {conn : PeerConnection} (live : s.conns id = some conn) :
    ClaimInv pm (s.HeldByOthers id) ⟨conn, s.pieces, s.disk⟩ := by
  refine ⟨?_, ?_, ?_⟩
  · intro i holds
    obtain ⟨below, set⟩ := claims.set i id ⟨conn, live, holds⟩
    refine ⟨below, set, ?_⟩
    rintro ⟨other, different, theirs⟩
    exact different (claims.single i id other ⟨conn, live, holds⟩ theirs)
  · rintro i ⟨other, _, theirs⟩
    exact (claims.set i other theirs).2
  · intro i set missing
    obtain ⟨holder, conn', live', holds⟩ := claims.covered i set missing
    by_cases same : holder = id
    · subst same
      rw [live] at live'
      cases live'
      exact Or.inl holds
    · exact Or.inr ⟨holder, same, conn', live', holds⟩

theorem heldBy_update {conns : Nat → Option PeerConnection} {id other i : Nat} {conn : Option PeerConnection}
    {pieces : Pieces} {disk : Disk} (different : other ≠ id) :
    HeldBy ⟨pieces, disk, Function.update conns id conn⟩ i other ↔ ∃ c, conns other = some c ∧ c.Holds i := by
  simp only [HeldBy, Function.update_of_ne different]

/-- The connection that took the step goes back among the others, or is gone
and holds nothing. -/
theorem Claims.of_claimInv (claims : Claims pm s) {id : Nat} {conn : Option PeerConnection} {world : World}
    (inv : ClaimInv pm (s.HeldByOthers id) world)
    (back : conn = some world.conn ∨ conn = none ∧ ∀ i, ¬world.conn.Holds i) :
    Claims pm ⟨world.pieces, world.disk, Function.update s.conns id conn⟩ := by
  have mine : ∀ i, HeldBy ⟨world.pieces, world.disk, Function.update s.conns id conn⟩ i id → world.conn.Holds i := by
    rintro i ⟨c, live, holds⟩
    dsimp only at live
    rw [Function.update_self] at live
    rcases back with rfl | ⟨rfl, _⟩
    · cases live
      exact holds
    · cases live
  have theirs : ∀ i other, other ≠ id →
      HeldBy ⟨world.pieces, world.disk, Function.update s.conns id conn⟩ i other → s.HeldBy i other :=
    fun i other different held => (heldBy_update different).mp held
  refine ⟨?_, ?_, ?_⟩
  · intro i other held
    by_cases same : other = id
    · subst same
      exact ⟨(inv.own i (mine i held)).1, (inv.own i (mine i held)).2.1⟩
    · have before := theirs i other same held
      exact ⟨(claims.set i other before).1, inv.others i ⟨other, same, before⟩⟩
  · intro i first second atFirst atSecond
    by_cases one : first = id
    · subst one
      by_contra different
      exact (inv.own i (mine i atFirst)).2.2 ⟨second, different, theirs i second different atSecond⟩
    · by_cases two : second = id
      · subst two
        exact absurd ⟨first, one, theirs i first one atFirst⟩ (inv.own i (mine i atSecond)).2.2
      · exact claims.single i first second (theirs i first one atFirst) (theirs i second two atSecond)
  · intro i set missing
    rcases inv.covered i set missing with holds | ⟨other, different, c, live, holds⟩
    · rcases back with rfl | ⟨rfl, nothing⟩
      · exact ⟨id, world.conn, Function.update_self .., holds⟩
      · exact absurd holds (nothing i)
    · exact ⟨other, (heldBy_update different).mpr ⟨c, live, holds⟩⟩

theorem Claims.destroy (claims : Claims pm s) {id : Nat} {world : World}
    (inv : ClaimInv pm (s.HeldByOthers id) world) : Claims pm (s.destroy pm id world) :=
  claims.of_claimInv (PeerConnection.release_claims inv)
    (Or.inr ⟨rfl, PeerConnection.not_holds_reset world.conn⟩)

theorem step_claims {label : Label} (claims : Claims pm s) (run : step pm w sha1 s label = some s') :
    Claims pm s' := by
  cases label with
  | open_ id =>
    simp only [step] at run
    split at run
    · cases run
    case h_2 free =>
      cases run
      have nothing : ∀ i, ¬(PeerConnection.make pm).Holds i := by
        rintro i ⟨⟨⟩, _⟩
      have inv : ClaimInv pm (s.HeldByOthers id) ⟨PeerConnection.make pm, s.pieces, s.disk⟩ := by
        refine ⟨fun i holds => absurd holds (nothing i), ?_, ?_⟩
        · rintro i ⟨other, _, theirs⟩
          exact (claims.set i other theirs).2
        · intro i set missing
          obtain ⟨holder, c, live, holds⟩ := claims.covered i set missing
          refine Or.inr ⟨holder, ?_, c, live, holds⟩
          rintro rfl
          rw [free] at live
          cases live
      exact claims.of_claimInv inv (Or.inl rfl)
  | message id msg io =>
    obtain ⟨conn, live, went⟩ := step_message run
    have after : ClaimInv pm (s.HeldByOthers id)
        (PeerConnection.handleThenFill pm w sha1 io msg ⟨conn, s.pieces, s.disk⟩).1 :=
      PeerConnection.handleThenFill_claims (claims.claimInv live) msg
    rcases went with ⟨world, outcome, rfl⟩ | ⟨world, error, outcome, _, rfl⟩
    · rw [outcome] at after
      exact claims.of_claimInv after (Or.inl rfl)
    · rw [outcome] at after
      exact claims.destroy after
  | drop id =>
    simp only [step] at run
    split at run
    · cases run
    case h_2 conn live =>
      cases run
      exact claims.destroy (claims.claimInv live)

theorem Initial.claims (initial : Initial s) : Claims pm s := by
  have nobody : ∀ i id, ¬s.HeldBy i id := by
    rintro i id ⟨conn, live, _⟩
    rw [initial.2 id] at live
    cases live
  refine ⟨fun i id held => absurd held (nobody i id), fun i id _ held => absurd held (nobody i id), ?_⟩
  intro i set
  rw [initial.1] at set
  cases set

/-- Whatever messages arrive in whatever order, whatever is thrown and whoever
disconnects: no piece is held exclusively by two live connections, and a
missing piece that is claimed is held by exactly one. -/
theorem claims_exclusive (reach : Reach Initial (step pm w sha1) unguarded s) (i : Nat) :
    (∀ id other, s.HeldBy i id → s.HeldBy i other → other = id) ∧
    (s.pieces.mClaimed i = true → s.pieces.mHave i = false → ∃! id, s.HeldBy i id) := by
  have claims : Claims pm s :=
    reach.invariant (fun _ initial => initial.claims) (fun _ _ _ claims _ run => step_claims claims run)
  refine ⟨claims.single i, ?_⟩
  intro claimed missing
  obtain ⟨id, held⟩ := claims.covered i claimed missing
  exact ⟨id, held, fun other theirs => claims.single i id other held theirs⟩

/-- Two peers that announce the only piece and unchoke us: the first is
claimed, the second joins in endgame mode. -/
def endgameLabels : List Label :=
  [.open_ 0, .message 0 ⟨.have, [0, 0, 0, 0]⟩ ⟨.none, fun _ => true, false⟩, .message 0 ⟨.unchoke, []⟩ ⟨.none, fun _ => true, false⟩,
    .open_ 1, .message 1 ⟨.have, [0, 0, 0, 0]⟩ ⟨.none, fun _ => true, false⟩, .message 1 ⟨.unchoke, []⟩ ⟨.none, fun _ => true, false⟩]

theorem claims_exclusive_endgame : ∃ s,
    exec (step oneByte oneByteWriter oneByteSha1) unguarded ⟨.fresh, Disk.bare, fun _ => none⟩
      endgameLabels = some s ∧
    s.pieces.mClaimed 0 = true ∧ s.pieces.mHave 0 = false ∧ ∃! id, s.HeldBy 0 id := by
  have enabled : (exec (step oneByte oneByteWriter oneByteSha1) unguarded
      ⟨.fresh, Disk.bare, fun _ => none⟩ endgameLabels).isSome = true := by decide +kernel
  have run := (Option.some_get enabled).symm
  have initial : Initial ⟨.fresh, Disk.bare, fun _ => none⟩ := ⟨rfl, fun _ => rfl⟩
  exact ⟨_, run, rfl, rfl, (claims_exclusive ((Reach.start initial).exec run) 0).2 rfl rfl⟩

end Swarm

end BittorrentClient
