import Mathlib.Algebra.BigOperators.Group.Finset.Basic
import Mathlib.Algebra.Order.BigOperators.Group.Finset
import BittorrentClient.Library.Settled
import BittorrentClient.Pieces.Actions

namespace BittorrentClient.Threads
open Cpp Machine

/-- A piece that is had and whose write, if there was one, did not fail. -/
def State.kept (s : State) (index : Nat) : Bool :=
  s.pieces.mHave index && !s.writes.any (fun call => call.index == index && !call.ok)

section
variable (pm : PieceManager) (sha1 : Bytes → Sha1Hash)

/-- Behind the won compare-and-swap a piece belongs to one thread, and the
calls of `write_piece` are its own. -/
structure Owned (s : State) : Prop where
  valid : ∀ thread, (s.pc thread).Valid pm sha1 s.pieces.mHave
  alone : ∀ thread other index, (s.pc thread).uncounted = some index → (s.pc other).uncounted = some index →
    other = thread
  once : (s.writes.map WriteCall.index).Nodup
  verified : ∀ call ∈ s.writes, call.index < pm.mNumPieces ∧ pm.verifies sha1 call.index call.data = true
  had : ∀ call ∈ s.writes, s.pieces.mHave call.index = true
  unwritten : ∀ thread index data, s.pc thread = .write index data → index ∉ s.writes.map WriteCall.index
  kept : ∀ thread index, (s.pc thread).uncounted = some index → s.kept index = true

/-- The two progress counters, at every point of a run: each counts the pieces
whose thread has passed it and whose write did not fail. -/
structure Tally (s : State) : Prop where
  bytes : s.pieces.mCurrDownloadedBytes =
    ∑ i ∈ settled (Finset.range pm.mNumPieces) s.kept (Pc.unbooked ∘ s.pc), pm.pieceLength i
  count : s.pieces.mCompletedCount =
    (settled (Finset.range pm.mNumPieces) s.kept (Pc.uncounted ∘ s.pc)).card

end

variable {pm : PieceManager} {w : DiskWriter} {sha1 : Bytes → Sha1Hash} {s s' : State}

theorem Pc.uncounted_of_unbooked {pc : Pc} {index : Nat} (open_ : pc.unbooked = some index) :
    pc.uncounted = some index := by
  cases pc <;> first | exact open_ | cases open_

theorem Pc.Valid.of_uncounted {had : Nat → Bool} {pc : Pc} {index : Nat} (valid : pc.Valid pm sha1 had)
    (inside : pc.uncounted = some index) : index < pm.mNumPieces ∧ had index = true := by
  cases pc with
  | write i data =>
    cases inside
    exact ⟨valid.1, valid.2.2⟩
  | addBytes i =>
    cases inside
    exact valid
  | addCount i =>
    cases inside
    exact valid
  | _ => cases inside

theorem kept_iff {index : Nat} : s.kept index = true ↔
    s.pieces.mHave index = true ∧ ∀ call ∈ s.writes, call.index = index → call.ok = true := by
  simp only [State.kept, Bool.and_eq_true, Bool.not_eq_true', List.any_eq_false, beq_iff_eq, not_and,
    Bool.not_eq_false]

/-- Some thread's position after one of them moved. -/
theorem uncounted_update {thread other : Nat} {pc : Pc} {index : Nat} {pcs : Nat → Pc}
    (inside : (Function.update pcs thread pc other).uncounted = some index) :
    other = thread ∧ pc.uncounted = some index ∨ other ≠ thread ∧ (pcs other).uncounted = some index := by
  by_cases same : other = thread
  · subst same
    rw [Function.update_self] at inside
    exact Or.inl ⟨rfl, inside⟩
  · rw [Function.update_of_ne same] at inside
    exact Or.inr ⟨same, inside⟩

/-- One owner for each piece survives a thread's move when the thread either
keeps its piece, lets it go, or takes one that nobody has. -/
theorem alone_update {pcs : Nat → Pc} {thread : Nat} {pc : Pc}
    (alone : ∀ thread other index, (pcs thread).uncounted = some index → (pcs other).uncounted = some index →
      other = thread)
    (moved : ∀ index, pc.uncounted = some index → ∀ other, (pcs other).uncounted = some index → other = thread)
    (first second index : Nat) (atFirst : (Function.update pcs thread pc first).uncounted = some index)
    (atSecond : (Function.update pcs thread pc second).uncounted = some index) : second = first := by
  rcases uncounted_update atFirst with ⟨rfl, mine⟩ | ⟨_, theirs⟩
  · rcases uncounted_update atSecond with ⟨rfl, _⟩ | ⟨_, other⟩
    · rfl
    · exact moved index mine second other
  · rcases uncounted_update atSecond with ⟨rfl, mine⟩ | ⟨_, other⟩
    · exact (moved index mine first theirs).symm
    · exact alone first second index theirs other

theorem write_update {pcs : Nat → Pc} {thread other : Nat} {pc : Pc} {index : Nat} {data : Bytes}
    (located : Function.update pcs thread pc other = .write index data) :
    other = thread ∧ pc = .write index data ∨ other ≠ thread ∧ pcs other = .write index data := by
  by_cases same : other = thread
  · subst same
    rw [Function.update_self] at located
    exact Or.inl ⟨rfl, located⟩
  · rw [Function.update_of_ne same] at located
    exact Or.inr ⟨same, located⟩

theorem Owned.no_writes (owned : Owned pm sha1 s) {index : Nat} (missing : s.pieces.mHave index = false) :
    index ∉ s.writes.map WriteCall.index := by
  intro member
  obtain ⟨call, inside, rfl⟩ := List.mem_map.mp member
  rw [owned.had call inside] at missing
  cases missing

theorem Owned.not_mine (owned : Owned pm sha1 s) {index : Nat} (missing : s.pieces.mHave index = false)
    (thread : Nat) : (s.pc thread).uncounted ≠ some index := by
  intro inside
  rw [((owned.valid thread).of_uncounted inside).2] at missing
  cases missing

theorem Owned.apart (owned : Owned pm sha1 s) {thread other index i : Nat}
    (mine : (s.pc thread).uncounted = some index) (theirs : (s.pc other).uncounted = some i)
    (different : other ≠ thread) : i ≠ index := by
  rintro rfl
  exact different (owned.alone thread other i mine theirs)

/-- Marking a missing piece keeps exactly that piece in addition. -/
theorem Owned.kept_win (owned : Owned pm sha1 s) {index : Nat} (missing : s.pieces.mHave index = false)
    {pcs : Nat → Pc} :
    State.kept { s with pieces := { s.pieces with mHave := Function.update s.pieces.mHave index true }, pc := pcs } =
      Function.update s.kept index true := by
  funext i
  by_cases same : i = index
  · subst same
    rw [Function.update_self, kept_iff]
    refine ⟨Function.update_self .., fun call member here => ?_⟩
    exact absurd (List.mem_map.mpr ⟨call, member, here⟩) (owned.no_writes missing)
  · rw [Function.update_of_ne same]
    simp only [State.kept, Function.update_of_ne same]

theorem kept_wrote {index : Nat} {data : Bytes} {faults : IoFaults} {disk : Disk} {pcs : Nat → Pc} :
    State.kept { s with disk := disk, pc := pcs, writes := ⟨index, data, faults, true⟩ :: s.writes } = s.kept := by
  funext i
  simp only [State.kept, List.any_cons, Bool.not_true, Bool.and_false, Bool.false_or]

theorem kept_failed {index : Nat} {data : Bytes} {faults : IoFaults} {disk : Disk} {pcs : Nat → Pc} {returned : List Return} :
    State.kept { s with
      disk := disk, pc := pcs, writes := ⟨index, data, faults, false⟩ :: s.writes, returned := returned } =
      Function.update s.kept index false := by
  funext i
  by_cases same : i = index
  · subst same
    simp only [State.kept, List.any_cons, beq_self_eq_true, Bool.not_false, Bool.and_true, Bool.true_or,
      Bool.not_true, Bool.and_false, Function.update_self]
  · rw [Function.update_of_ne same]
    simp only [State.kept, List.any_cons, beq_eq_false_iff_ne.mpr (Ne.symm same), Bool.false_and, Bool.false_or]

theorem Initial.owned (initial : Initial s) : Owned pm sha1 s := by
  have idle := initial.2.1
  have noWrites := initial.2.2.1
  have outside : ∀ thread index, (s.pc thread).uncounted ≠ some index := by
    intro thread index inside
    rw [idle] at inside
    cases inside
  refine ⟨initial.valid, ?_, ?_, ?_, ?_, ?_, ?_⟩
  · exact fun thread _ index inside => absurd inside (outside thread index)
  · rw [noWrites]
    exact List.nodup_nil
  · rw [noWrites]
    exact fun _ member => absurd member List.not_mem_nil
  · rw [noWrites]
    exact fun _ member => absurd member List.not_mem_nil
  · rw [noWrites]
    exact fun _ _ _ _ => List.not_mem_nil
  · exact fun thread index inside => absurd inside (outside thread index)

/-- A thread that moves anywhere but before a write. -/
theorem Owned.unwritten_move (owned : Owned pm sha1 s) {thread : Nat} {pc : Pc}
    (elsewhere : ∀ index data, pc ≠ .write index data) (other index : Nat) (data : Bytes)
    (located : Function.update s.pc thread pc other = .write index data) :
    index ∉ s.writes.map WriteCall.index := by
  rcases write_update located with ⟨_, moved⟩ | ⟨_, before⟩
  · exact absurd moved (elsewhere index data)
  · exact owned.unwritten other index data before

theorem Owned.kept_move (owned : Owned pm sha1 s) {thread : Nat} {pc : Pc}
    (mine : ∀ index, pc.uncounted = some index → s.kept index = true) (other index : Nat)
    (inside : (Function.update s.pc thread pc other).uncounted = some index) : s.kept index = true := by
  rcases uncounted_update inside with ⟨_, moved⟩ | ⟨_, theirs⟩
  · exact mine index moved
  · exact owned.kept other index theirs

/-- A call of `write_piece`, whatever comes of it, is the first one for its
piece. -/
theorem Owned.called (owned : Owned pm sha1 s) {thread index : Nat} {data : Bytes}
    (located : s.pc thread = .write index data) (faults : IoFaults) (ok : Bool) :
    ((⟨index, data, faults, ok⟩ :: s.writes).map WriteCall.index).Nodup ∧
    (∀ call ∈ (⟨index, data, faults, ok⟩ :: s.writes : List WriteCall),
      call.index < pm.mNumPieces ∧ pm.verifies sha1 call.index call.data = true) ∧
    (∀ call ∈ (⟨index, data, faults, ok⟩ :: s.writes : List WriteCall), s.pieces.mHave call.index = true) ∧
    ∀ pc, (∀ index data, pc ≠ .write index data) → ∀ other i bytes,
      Function.update s.pc thread pc other = .write i bytes →
      i ∉ ((⟨index, data, faults, ok⟩ :: s.writes).map WriteCall.index) := by
  have before := owned.valid thread
  rw [located] at before
  refine ⟨List.nodup_cons.mpr ⟨owned.unwritten thread index data located, owned.once⟩,
    List.forall_mem_cons.mpr ⟨⟨before.1, before.2.1⟩, owned.verified⟩,
    List.forall_mem_cons.mpr ⟨before.2.2, owned.had⟩, ?_⟩
  intro pc elsewhere other i bytes found
  rcases write_update found with ⟨_, moved⟩ | ⟨different, theirs⟩
  · exact absurd moved (elsewhere i bytes)
  · have mine : (s.pc thread).uncounted = some index := by rw [located]; rfl
    have apart : i ≠ index := owned.apart mine (by rw [theirs]; rfl) different
    simp only [List.map_cons, List.mem_cons, not_or]
    exact ⟨apart, owned.unwritten other i bytes theirs⟩

theorem Action.owned {label : Label} (action : Action pm w sha1 s label s') (owned : Owned pm sha1 s) :
    Owned pm sha1 s' := by
  have valid := action.valid owned.valid
  have more := fun i => action.have_mono (i := i)
  cases action with
  | @move label thread pc failures returned outside stays moved handed =>
    refine ⟨valid, alone_update owned.alone (by simp [stays]), owned.once, owned.verified, owned.had,
      owned.unwritten_move ?_, owned.kept_move (by simp [stays])⟩
    rintro index data rfl
    cases stays
  | @win thread index data faults located missing =>
    refine ⟨valid, alone_update owned.alone ?_, owned.once, owned.verified, ?_, ?_, ?_⟩
    · rintro _ ⟨⟩ other inside
      exact absurd inside (owned.not_mine missing other)
    · exact fun call member => more call.index (owned.had call member)
    · intro other i bytes found
      rcases write_update found with ⟨_, ⟨⟩⟩ | ⟨_, before⟩
      · exact owned.no_writes missing
      · exact owned.unwritten other i bytes before
    · intro other i inside
      rw [owned.kept_win missing]
      rcases uncounted_update inside with ⟨_, ⟨⟩⟩ | ⟨_, theirs⟩
      · exact Function.update_self ..
      · have different : i ≠ index := fun same => owned.not_mine missing other (same ▸ theirs)
        rw [Function.update_of_ne different]
        exact owned.kept other i theirs
  | @wrote thread index data faults located success =>
    have mine : (s.pc thread).uncounted = some index := by rw [located]; rfl
    obtain ⟨once, verified, had, unwritten⟩ := owned.called located faults true
    refine ⟨valid, alone_update owned.alone ?_, once, verified, had, unwritten _ nofun, ?_⟩
    · rintro _ ⟨⟩ other inside
      exact owned.alone thread other index mine inside
    · rw [kept_wrote]
      refine owned.kept_move ?_
      rintro _ ⟨⟩
      exact owned.kept thread index mine
  | @failed thread index data faults error located failure =>
    have mine : (s.pc thread).uncounted = some index := by rw [located]; rfl
    obtain ⟨once, verified, had, unwritten⟩ := owned.called located faults false
    refine ⟨valid, alone_update owned.alone nofun, once, verified, had, unwritten _ nofun, ?_⟩
    intro other i inside
    rw [kept_failed]
    rcases uncounted_update inside with ⟨_, ⟨⟩⟩ | ⟨different, theirs⟩
    rw [Function.update_of_ne (owned.apart mine theirs different)]
    exact owned.kept other i theirs
  | @booked thread index faults located =>
    have mine : (s.pc thread).uncounted = some index := by rw [located]; rfl
    refine ⟨valid, alone_update owned.alone ?_, owned.once, owned.verified, owned.had, owned.unwritten_move nofun,
      owned.kept_move ?_⟩
    · rintro _ ⟨⟩ other inside
      exact owned.alone thread other index mine inside
    · rintro _ ⟨⟩
      exact owned.kept thread index mine
  | @counted thread index faults located =>
    exact ⟨valid, alone_update owned.alone nofun, owned.once, owned.verified, owned.had, owned.unwritten_move nofun,
      owned.kept_move nofun⟩

theorem owned_of_reach {guard : State → Label → Prop} (reach : Reach Initial (step pm w sha1) guard s) :
    Owned pm sha1 s :=
  reach.invariant (fun _ initial => initial.owned) (fun _ _ _ owned _ run => (step_action run).owned owned)

/-- The byte counter never wraps: fewer than `2 ^ 32` pieces, each shorter
than `2 ^ 32`. -/
theorem sum_pieceLength_lt (pm : PieceManager) {pieces : Finset Nat}
    (inRange : pieces ⊆ Finset.range pm.mNumPieces) : ∑ i ∈ pieces, pm.pieceLength i < 2 ^ 64 := by
  have card : pieces.card ≤ pm.mNumPieces := by
    have bound := Finset.card_le_card inRange
    rwa [Finset.card_range] at bound
  have few := pm.numPieces_lt
  calc ∑ i ∈ pieces, pm.pieceLength i
      ≤ pieces.card * (2 ^ 32 - 1) := by
        refine Finset.sum_le_card_nsmul pieces _ _ ?_
        exact fun i _ => Nat.le_pred_of_lt (pm.pieceLength_lt i)
    _ < 2 ^ 64 := by omega

theorem Initial.tally (initial : Initial s) : Tally pm s := by
  have none_kept : ∀ busy : Nat → Option Nat, settled (Finset.range pm.mNumPieces) s.kept busy = ∅ := by
    intro busy
    refine Finset.eq_empty_of_forall_notMem fun i member => ?_
    have had := (kept_iff.mp (mem_settled.mp member).2.1).1
    rw [initial.1] at had
    cases had
  constructor
  · rw [none_kept, initial.1]
    rfl
  · rw [none_kept, initial.1]
    rfl

/-- A thread that moves without changing what it is busy with. -/
theorem comp_update_self {busy : Pc → Option Nat} {pcs : Nat → Pc} {thread : Nat} {pc : Pc}
    (same : busy pc = busy (pcs thread)) : busy ∘ Function.update pcs thread pc = busy ∘ pcs := by
  rw [Function.comp_update, same]
  exact Function.update_eq_self thread (busy ∘ pcs)

/-- A thread that is about to count a piece finds the counter below its end. -/
theorem Tally.count_lt (tally : Tally pm s) (owned : Owned pm sha1 s) {thread index : Nat}
    (mine : (s.pc thread).uncounted = some index) : s.pieces.mCompletedCount < pm.mNumPieces := by
  have inRange := Finset.mem_range.mpr ((owned.valid thread).of_uncounted mine).1
  have fresh : index ∉ settled (Finset.range pm.mNumPieces) s.kept (Pc.uncounted ∘ s.pc) :=
    fun member => (mem_settled.mp member).2.2 thread mine
  have small := Finset.card_le_card
    (Finset.insert_subset inRange (settled_subset _ s.kept (Pc.uncounted ∘ s.pc)))
  rw [Finset.card_insert_of_notMem fresh, ← tally.count, Finset.card_range] at small
  exact small

theorem Action.tally {label : Label} (action : Action pm w sha1 s label s') (owned : Owned pm sha1 s)
    (tally : Tally pm s) : Tally pm s' := by
  cases action with
  | @move label thread pc failures returned outside stays moved handed =>
    have unbooked := (Pc.unbooked_of_uncounted stays).trans (Pc.unbooked_of_uncounted outside).symm
    constructor
    · simp only [comp_update_self unbooked]
      exact tally.bytes
    · simp only [comp_update_self (stays.trans outside.symm)]
      exact tally.count
  | @win thread index data faults located missing =>
    have free : s.kept index = false := by
      rw [State.kept, missing]
      rfl
    have unbooked : (Pc.unbooked ∘ s.pc) thread = none := by rw [Function.comp_apply, located]; rfl
    have uncounted : (Pc.uncounted ∘ s.pc) thread = none := by rw [Function.comp_apply, located]; rfl
    constructor
    · rw [owned.kept_win missing, Function.comp_update, show (Pc.write index data).unbooked = some index from rfl,
        settled_acquire free unbooked]
      exact tally.bytes
    · rw [owned.kept_win missing, Function.comp_update, show (Pc.write index data).uncounted = some index from rfl,
        settled_acquire free uncounted]
      exact tally.count
  | @wrote thread index data faults located success =>
    constructor
    · rw [kept_wrote, comp_update_self (by rw [located]; rfl)]
      exact tally.bytes
    · rw [kept_wrote, comp_update_self (by rw [located]; rfl)]
      exact tally.count
  | @failed thread index data faults error located failure =>
    have unbooked : (Pc.unbooked ∘ s.pc) thread = some index := by rw [Function.comp_apply, located]; rfl
    have uncounted : (Pc.uncounted ∘ s.pc) thread = some index := by rw [Function.comp_apply, located]; rfl
    constructor
    · rw [kept_failed, Function.comp_update, show Pc.idle.unbooked = none from rfl, settled_abandon unbooked]
      exact tally.bytes
    · rw [kept_failed, Function.comp_update, show Pc.idle.uncounted = none from rfl, settled_abandon uncounted]
      exact tally.count
  | @booked thread index faults located =>
    have mine : (s.pc thread).uncounted = some index := by rw [located]; rfl
    have unbooked : (Pc.unbooked ∘ s.pc) thread = some index := by rw [Function.comp_apply, located]; rfl
    have inRange := Finset.mem_range.mpr ((owned.valid thread).of_uncounted mine).1
    obtain ⟨fresh, grown⟩ := settled_release unbooked
      (fun other inside => owned.alone thread other index mine (Pc.uncounted_of_unbooked inside))
      inRange (owned.kept thread index mine)
    constructor
    · have small := sum_pieceLength_lt pm
        (Finset.insert_subset inRange (settled_subset _ s.kept (Pc.unbooked ∘ s.pc)))
      rw [Finset.sum_insert fresh, ← tally.bytes, Nat.add_comm] at small
      rw [Function.comp_update]
      refine Eq.trans ?_ (congrArg (fun pieces => ∑ i ∈ pieces, pm.pieceLength i) grown).symm
      rw [Finset.sum_insert fresh, ← tally.bytes, Nat.add_comm (pm.pieceLength index)]
      exact Nat.mod_eq_of_lt small
    · rw [comp_update_self (by rw [located]; rfl)]
      exact tally.count
  | @counted thread index faults located =>
    have mine : (s.pc thread).uncounted = some index := by rw [located]; rfl
    have uncounted : (Pc.uncounted ∘ s.pc) thread = some index := by rw [Function.comp_apply, located]; rfl
    have inRange := Finset.mem_range.mpr ((owned.valid thread).of_uncounted mine).1
    obtain ⟨fresh, grown⟩ := settled_release uncounted
      (fun other inside => owned.alone thread other index mine inside) inRange (owned.kept thread index mine)
    constructor
    · rw [comp_update_self (by rw [located]; rfl)]
      exact tally.bytes
    · rw [Function.comp_update]
      refine Eq.trans ?_ (congrArg Finset.card grown).symm
      rw [Finset.card_insert_of_notMem fresh, ← tally.count]
      exact Nat.mod_eq_of_lt (Nat.lt_of_le_of_lt (tally.count_lt owned mine) pm.numPieces_lt)

theorem tally_of_reach {guard : State → Label → Prop} (reach : Reach Initial (step pm w sha1) guard s) :
    Tally pm s := by
  refine (reach.invariant (P := fun s => Owned pm sha1 s ∧ Tally pm s) ?_ ?_).2
  · exact fun _ initial => ⟨initial.owned, initial.tally⟩
  · exact fun _ _ _ ⟨owned, tally⟩ _ run => ⟨(step_action run).owned owned, (step_action run).tally owned tally⟩

/-- With no thread between its compare-and-swap and its return, the counters
count the kept pieces. -/
theorem Tally.at_rest (tally : Tally pm s) (rest : ∀ thread, (s.pc thread).uncounted = none) :
    s.pieces.mCompletedCount = ((Finset.range pm.mNumPieces).filter (fun i => s.kept i = true)).card ∧
      s.pieces.mCurrDownloadedBytes =
        ∑ i ∈ (Finset.range pm.mNumPieces).filter (fun i => s.kept i = true), pm.pieceLength i := by
  refine ⟨?_, ?_⟩
  · rw [tally.count]
    exact congrArg Finset.card (settled_of_idle rest)
  · rw [tally.bytes]
    exact congrArg (fun pieces => ∑ i ∈ pieces, pm.pieceLength i)
      (settled_of_idle (fun thread => Pc.unbooked_of_uncounted (rest thread)))

/-- The counter reaches the number of pieces only when all of them are kept. -/
theorem Tally.all_kept (tally : Tally pm s) (complete : pm.isComplete s.pieces = true) :
    ∀ i < pm.mNumPieces, s.kept i = true := by
  have full : pm.mNumPieces = (settled (Finset.range pm.mNumPieces) s.kept (Pc.uncounted ∘ s.pc)).card := by
    rw [← tally.count]
    exact (beq_iff_eq.mp complete).symm
  have all := Finset.eq_of_subset_of_card_le (settled_subset (Finset.range pm.mNumPieces) s.kept (Pc.uncounted ∘ s.pc))
    (by rw [Finset.card_range, ← full])
  intro i below
  rw [← Finset.mem_range, ← all] at below
  exact (mem_settled.mp below).2.1

/-- A complete torrent stays complete. -/
theorem Action.isComplete {label : Label} (action : Action pm w sha1 s label s') (owned : Owned pm sha1 s)
    (tally : Tally pm s) (complete : pm.isComplete s.pieces = true) : pm.isComplete s'.pieces = true := by
  cases action with
  | @counted thread index faults located =>
    have mine : (s.pc thread).uncounted = some index := by rw [located]; rfl
    exact absurd (beq_iff_eq.mp complete) (Nat.ne_of_lt (tally.count_lt owned mine))
  | _ => exact complete

theorem isComplete_of_exec {guard : State → Label → Prop} [∀ s label, Decidable (guard s label)]
    (reach : Reach Initial (step pm w sha1) guard s) (complete : pm.isComplete s.pieces = true) {labels : List Label}
    (run : exec (step pm w sha1) guard s labels = some s') : pm.isComplete s'.pieces = true := by
  have start : Reach (fun s => Owned pm sha1 s ∧ Tally pm s ∧ pm.isComplete s.pieces = true) (step pm w sha1) guard s :=
    .start ⟨owned_of_reach reach, tally_of_reach reach, complete⟩
  refine ((start.exec run).invariant (fun _ => id) fun _ _ _ before _ run => ?_).2.2
  have action := step_action run
  exact ⟨action.owned before.1, action.tally before.1 before.2.1, action.isComplete before.1 before.2.1 before.2.2⟩

/-- What `write_piece` reports if the thread's next operation is a call of it. -/
def writeOutcome (w : DiskWriter) (s : State) (thread : Nat) (faults : IoFaults) : Except DiskError Unit :=
  match s.pc thread with
  | .write index data => (w.writePiece faults index data s.disk).2
  | _ => .ok ()

/-- The guard of the runs in which every call of `write_piece` succeeds. -/
def NoWriteFails (w : DiskWriter) (s : State) : Label → Prop
  | .advance thread faults => writeOutcome w s thread faults = .ok ()
  | _ => True

instance (w : DiskWriter) (s : State) : (label : Label) → Decidable (NoWriteFails w s label)
  | .advance thread faults => inferInstanceAs (Decidable (writeOutcome w s thread faults = .ok ()))
  | .completePiece .. | .readBlock .. | .currentBitfield _ => inferInstanceAs (Decidable True)

theorem Action.succeeds {label : Label} (action : Action pm w sha1 s label s') (allowed : NoWriteFails w s label)
    (before : ∀ call ∈ s.writes, call.ok = true) : ∀ call ∈ s'.writes, call.ok = true := by
  cases action with
  | @wrote thread index data faults located success => exact List.forall_mem_cons.mpr ⟨rfl, before⟩
  | @failed thread index data faults error located failure =>
    simp only [NoWriteFails, writeOutcome, located, failure, reduceCtorEq] at allowed
  | _ => exact before

/-- Completing pieces from any number of threads, as long as no write fails:
each piece is written at most once, with verified data only, and whenever no
call is in progress the counters agree with the flags. -/
theorem counters_agree (reach : Reach Initial (step pm w sha1) (NoWriteFails w) s) :
    (s.writes.map WriteCall.index).Nodup ∧
    (∀ call ∈ s.writes, pm.mPieceHashes[call.index]? = some (sha1 call.data)) ∧
    ((∀ thread, (s.pc thread).inCompletePiece = false) →
      s.pieces.mCompletedCount = ((Finset.range pm.mNumPieces).filter (fun i => s.pieces.mHave i = true)).card ∧
      s.pieces.mCurrDownloadedBytes =
        ∑ i ∈ (Finset.range pm.mNumPieces).filter (fun i => s.pieces.mHave i = true), pm.pieceLength i ∧
      (pm.isComplete s.pieces = true ↔ ∀ i < pm.mNumPieces, s.pieces.mHave i = true)) := by
  have owned := owned_of_reach reach
  have tally := tally_of_reach reach
  refine ⟨owned.once, fun call member => beq_iff_eq.mp (owned.verified call member).2, ?_⟩
  intro quiet
  have succeeded : ∀ call ∈ s.writes, call.ok = true := by
    refine reach.invariant ?_ (fun _ _ _ before allowed run => (step_action run).succeeds allowed before)
    intro s initial
    rw [initial.2.2.1]
    exact fun _ member => absurd member List.not_mem_nil
  have same : s.kept = s.pieces.mHave := by
    funext i
    rw [Bool.eq_iff_iff, kept_iff]
    exact and_iff_left fun call member _ => succeeded call member
  have resting := tally.at_rest (fun thread => Pc.uncounted_of_outside (quiet thread))
  rw [same] at resting
  refine ⟨resting.1, resting.2, ?_⟩
  constructor
  · intro complete i below
    rw [← same]
    exact tally.all_kept complete i below
  · intro all
    refine beq_iff_eq.mpr ?_
    rw [resting.1, Finset.filter_true_of_mem (fun i member => all i (Finset.mem_range.mp member)), Finset.card_range]

def oneByteStart : State where
  pieces := .fresh
  disk := (oneByteWriter.preallocateFiles .none Disk.bare).1
  pc := fun _ => .idle
  writes := []
  returned := []

theorem oneByteStart_initial : Initial oneByteStart := ⟨rfl, fun _ => rfl, rfl, rfl⟩

/-- Two threads finish the piece at once, both past the hash check before
either swaps the flag, while a third brings wrong data. -/
def racedLabels : List Label :=
  [.completePiece 0 0 [1], .completePiece 1 0 [1], .completePiece 2 0 [0], .advance 0 .none, .advance 1 .none,
    .advance 2 .none, .advance 0 .none, .advance 1 .none, .advance 2 .none, .advance 2 .none, .advance 1 .none,
    .advance 0 .none, .advance 1 .none, .advance 1 .none, .advance 1 .none]

theorem counters_agree_race : ∃ s, exec (step oneByte oneByteWriter oneByteSha1) (NoWriteFails oneByteWriter)
      oneByteStart racedLabels = some s ∧
    s.writes.map WriteCall.index = [0] ∧ s.pieces.mCompletedCount = 1 ∧ s.pieces.mCurrDownloadedBytes = 1 ∧
    (oneByte.isComplete s.pieces = true ↔ ∀ i < 1, s.pieces.mHave i = true) := by
  have enabled : (exec (step oneByte oneByteWriter oneByteSha1) (NoWriteFails oneByteWriter)
      oneByteStart racedLabels).isSome = true := by decide +kernel
  have run := (Option.some_get enabled).symm
  obtain ⟨_, _, agree⟩ := counters_agree ((Reach.start oneByteStart_initial).exec run)
  have quiet : ∀ thread, (((exec (step oneByte oneByteWriter oneByteSha1) (NoWriteFails oneByteWriter)
      oneByteStart racedLabels).get enabled).pc thread).inCompletePiece = false := by
    intro thread
    match thread with
    | 0 | 1 | 2 | n + 3 => rfl
  exact ⟨_, run, rfl, rfl, rfl, (agree quiet).2.2⟩

end BittorrentClient.Threads
