import BittorrentClient.Pieces.Threads

namespace BittorrentClient.Threads
open Cpp Machine

/-- The piece a thread is in the middle of completing: it has won the
compare-and-swap and has not returned yet. -/
def Pc.uncounted : Pc → Option Nat
  | .write index _ | .addBytes index | .addCount index => some index
  | _ => none

/-- The piece whose bytes a thread has still to add to the byte counter. -/
def Pc.unbooked : Pc → Option Nat
  | .write index _ | .addBytes index => some index
  | _ => none

def Pc.inCompletePiece : Pc → Bool
  | .haveLoad .. | .hashCheck .. | .haveReload _ | .casHave .. | .write .. | .addBytes _ | .addCount _ => true
  | _ => false

theorem Pc.unbooked_of_uncounted {pc : Pc} (outside : pc.uncounted = none) : pc.unbooked = none := by
  cases pc <;> simp only [uncounted, reduceCtorEq] at outside <;> rfl

theorem Pc.uncounted_of_outside {pc : Pc} (outside : pc.inCompletePiece = false) : pc.uncounted = none := by
  cases pc <;> simp only [inCompletePiece, Bool.true_eq_false] at outside <;> rfl

variable (pm : PieceManager) (w : DiskWriter) (sha1 : Bytes → Sha1Hash)

/-- What the tests behind a position have established. Every clause stays
true when more pieces are had. -/
def Pc.Valid (had : Nat → Bool) : Pc → Prop
  | .haveLoad index _ | .hashCheck index _ | .haveReload index => index < pm.mNumPieces
  | .casHave index data => index < pm.mNumPieces ∧ pm.verifies sha1 index data = true
  | .write index data => index < pm.mNumPieces ∧ pm.verifies sha1 index data = true ∧ had index = true
  | .addBytes index | .addCount index => index < pm.mNumPieces ∧ had index = true
  | .readPiece index begin_ length =>
    index < pm.mNumPieces ∧ had index = true ∧ pm.checkRange index begin_ length = .ok ()
  | .bitfieldLoad next bf => bf.length = next ∧ ∀ i : Nat, bf[i]? = some true → i < pm.mNumPieces ∧ had i = true
  | .idle | .readHave .. => True

/-- The results whose content depends on what a thread has read. -/
inductive Handed (s : State) : Pc → Return → Prop
  | block {index begin_ length faults piece bytes} : w.readPiece faults index s.disk = .ok piece →
      PieceManager.copyBlock index begin_ length piece = .ok bytes →
      Handed s (.readPiece index begin_ length) (.block index begin_ length bytes)
  | bitfield {next bf} : Handed s (.bitfieldLoad next bf) (.bitfield bf)
  | completed {pc index ok} : Handed s pc (.completed index ok)
  | threw {pc error} : Handed s pc (.threw error)

/-- Everything a step can do to the shared state. Outside the part of
`complete_piece` behind the won compare-and-swap, a step moves one thread and
leaves the flags, the files and the two progress counters alone. -/
inductive Action (s : State) : Label → State → Prop
  | move {label : Label} {thread : Nat} {pc : Pc} {failures : Nat} {returned : List Return}
      (outside : (s.pc thread).uncounted = none) (stays : pc.uncounted = none)
      (valid : (s.pc thread).Valid pm sha1 s.pieces.mHave → pc.Valid pm sha1 s.pieces.mHave)
      (handed : ∀ r ∈ returned, r ∈ s.returned ∨ Handed w s (s.pc thread) r) :
      Action s label { s with
        pieces := { s.pieces with mPieceHashFailures := failures }
        pc := Function.update s.pc thread pc
        returned := returned }
  | win {thread index : Nat} {data : Bytes} {faults : IoFaults} (located : s.pc thread = .casHave index data)
      (missing : s.pieces.mHave index = false) :
      Action s (.advance thread faults) { s with
        pieces := { s.pieces with mHave := Function.update s.pieces.mHave index true }
        pc := Function.update s.pc thread (.write index data) }
  | wrote {thread index : Nat} {data : Bytes} {faults : IoFaults} (located : s.pc thread = .write index data)
      (success : (w.writePiece faults index data s.disk).2 = .ok ()) :
      Action s (.advance thread faults) { s with
        disk := (w.writePiece faults index data s.disk).1
        pc := Function.update s.pc thread (.addBytes index)
        writes := ⟨index, data, faults, true⟩ :: s.writes }
  | failed {thread index : Nat} {data : Bytes} {faults : IoFaults} {error : DiskError}
      (located : s.pc thread = .write index data)
      (failure : (w.writePiece faults index data s.disk).2 = .error error) :
      Action s (.advance thread faults) { s with
        disk := (w.writePiece faults index data s.disk).1
        pc := Function.update s.pc thread .idle
        writes := ⟨index, data, faults, false⟩ :: s.writes
        returned := .threw (.disk error) :: s.returned }
  | booked {thread index : Nat} {faults : IoFaults} (located : s.pc thread = .addBytes index) :
      Action s (.advance thread faults) { s with
        pieces := { s.pieces with
          mCurrDownloadedBytes := u64 (s.pieces.mCurrDownloadedBytes + pm.pieceLength index) }
        pc := Function.update s.pc thread (.addCount index) }
  | counted {thread index : Nat} {faults : IoFaults} (located : s.pc thread = .addCount index) :
      Action s (.advance thread faults) { s with
        pieces := { s.pieces with mCompletedCount := u32 (s.pieces.mCompletedCount + 1) }
        pc := Function.update s.pc thread .idle
        returned := .completed index true :: s.returned }

variable {pm w sha1}

theorem Action.goto {s : State} {label : Label} {thread : Nat} {pc : Pc} (outside : (s.pc thread).uncounted = none)
    (stays : pc.uncounted = none)
    (valid : (s.pc thread).Valid pm sha1 s.pieces.mHave → pc.Valid pm sha1 s.pieces.mHave) :
    Action pm w sha1 s label (s.goto thread pc) :=
  Action.move outside stays valid (fun _ member => Or.inl member)

theorem handed_cons {s : State} {thread : Nat} {result : Return} (handed : Handed w s (s.pc thread) result) :
    ∀ r ∈ result :: s.returned, r ∈ s.returned ∨ Handed w s (s.pc thread) r :=
  List.forall_mem_cons.mpr ⟨Or.inr handed, fun _ member => Or.inl member⟩

theorem Action.finish {s : State} {label : Label} {thread : Nat} {result : Return}
    (outside : (s.pc thread).uncounted = none) (handed : Handed w s (s.pc thread) result) :
    Action pm w sha1 s label (s.finish thread result) :=
  Action.move outside rfl (fun _ => trivial) (handed_cons handed)

/-- The loop of `current_bitfield` appends one load. -/
theorem Pc.Valid.load {had : Nat → Bool} {next : Nat} {bf : List Bool}
    (valid : (Pc.bitfieldLoad next bf).Valid pm sha1 had) (below : next < pm.mNumPieces) :
    (Pc.bitfieldLoad (next + 1) (bf ++ [had next])).Valid pm sha1 had := by
  obtain ⟨length, set⟩ := valid
  refine ⟨by rw [List.length_append, length, List.length_singleton], ?_⟩
  intro i found
  rcases Nat.lt_trichotomy i bf.length with before | rfl | after
  · rw [List.getElem?_append_left before] at found
    exact set i found
  · rw [List.getElem?_concat_length] at found
    rw [length]
    exact ⟨below, Option.some.inj found⟩
  · rw [List.getElem?_eq_none (by rw [List.length_append, List.length_singleton]; omega)] at found
    cases found

theorem advance_action {s s' : State} {thread : Nat} {faults : IoFaults}
    (run : advance pm w sha1 s thread faults = some s') : Action pm w sha1 s (.advance thread faults) s' := by
  unfold advance at run
  cases located : s.pc thread with
  | idle =>
    rw [located] at run
    cases run
  | haveLoad index data =>
    have outside : (s.pc thread).uncounted = none := by rw [located]; rfl
    simp only [located, Option.some.injEq] at run
    split at run <;> subst run
    · exact Action.finish outside .completed
    · exact Action.goto outside rfl (by rw [located]; exact id)
  | hashCheck index data =>
    have outside : (s.pc thread).uncounted = none := by rw [located]; rfl
    simp only [located, Option.some.injEq] at run
    subst run
    split
    case isTrue verified => exact Action.goto outside rfl (by rw [located]; exact fun below => ⟨below, verified⟩)
    case isFalse => exact Action.goto outside rfl (by rw [located]; exact id)
  | haveReload index =>
    have outside : (s.pc thread).uncounted = none := by rw [located]; rfl
    simp only [located, Option.some.injEq] at run
    split at run <;> subst run
    · exact Action.finish outside .completed
    · exact Action.move outside rfl (fun _ => trivial) (handed_cons (s := s) .completed)
  | casHave index data =>
    simp only [located, Option.some.injEq] at run
    split at run
    case isTrue =>
      subst run
      exact Action.finish (by rw [located]; rfl) .completed
    case isFalse missing =>
      subst run
      exact Action.win located (Bool.eq_false_iff.mpr missing)
  | write index data =>
    simp only [located, Option.some.injEq] at run
    split at run
    case h_1 written _ outcome =>
      subst run
      rw [show written = (w.writePiece faults index data s.disk).1 by rw [outcome]]
      exact Action.wrote located (by rw [outcome])
    case h_2 failed error outcome =>
      subst run
      rw [show failed = (w.writePiece faults index data s.disk).1 by rw [outcome]]
      exact Action.failed located (by rw [outcome])
  | addBytes index =>
    simp only [located, Option.some.injEq] at run
    subst run
    exact Action.booked located
  | addCount index =>
    simp only [located, Option.some.injEq] at run
    subst run
    exact Action.counted located
  | readHave index begin_ length =>
    have outside : (s.pc thread).uncounted = none := by rw [located]; rfl
    simp only [located, Option.some.injEq] at run
    split at run
    case isTrue =>
      subst run
      exact Action.finish outside .threw
    case isFalse available =>
      simp only [PieceManager.havePiece, Bool.not_eq_true', Bool.not_eq_false, Bool.and_eq_true,
        decide_eq_true_eq] at available
      split at run <;> subst run
      case h_1 inside => exact Action.goto outside rfl (fun _ => ⟨available.1, available.2, inside⟩)
      case h_2 => exact Action.finish outside .threw
  | readPiece index begin_ length =>
    have outside : (s.pc thread).uncounted = none := by rw [located]; rfl
    simp only [located, Option.some.injEq] at run
    split at run
    case h_1 =>
      subst run
      exact Action.finish outside .threw
    case h_2 piece found =>
      split at run <;> subst run
      case h_1 copied => exact Action.finish outside (by rw [located]; exact .block found copied)
      case h_2 => exact Action.finish outside .threw
  | bitfieldLoad next bf =>
    have outside : (s.pc thread).uncounted = none := by rw [located]; rfl
    simp only [located, Option.some.injEq] at run
    split at run <;> subst run
    case isTrue below => exact Action.goto outside rfl (by rw [located]; exact fun valid => valid.load below)
    case isFalse => exact Action.finish outside (by rw [located]; exact .bitfield)

theorem step_action {s s' : State} {label : Label} (run : step pm w sha1 s label = some s') :
    Action pm w sha1 s label s' := by
  cases label with
  | completePiece thread index data =>
    simp only [step] at run
    split at run
    case h_1 located =>
      have outside : (s.pc thread).uncounted = none := by rw [located]; rfl
      cases Option.some.inj run
      split
      case isTrue => exact Action.finish outside .threw
      case isFalse below => exact Action.goto outside rfl (fun _ => Nat.lt_of_not_le below)
    case h_2 => cases run
  | readBlock thread index begin_ length =>
    simp only [step] at run
    split at run
    case h_1 located =>
      cases run
      exact Action.goto (by rw [located]; rfl) rfl (fun _ => trivial)
    case h_2 => cases run
  | currentBitfield thread =>
    simp only [step] at run
    split at run
    case h_1 located =>
      cases run
      exact Action.goto (by rw [located]; rfl) rfl (fun _ => ⟨rfl, by simp⟩)
    case h_2 => cases run
  | advance thread faults => exact advance_action run

/-- No step takes a piece away. -/
theorem Action.have_mono {s s' : State} {label : Label} (action : Action pm w sha1 s label s') {i : Nat}
    (had : s.pieces.mHave i = true) : s'.pieces.mHave i = true := by
  cases action with
  | @win thread index data faults located missing =>
    by_cases same : i = index
    · subst same
      exact Function.update_self ..
    · exact (Function.update_of_ne same ..).trans had
  | _ => exact had

theorem Pc.Valid.mono {had had' : Nat → Bool} (more : ∀ i, had i = true → had' i = true) {pc : Pc}
    (valid : pc.Valid pm sha1 had) : pc.Valid pm sha1 had' := by
  cases pc with
  | write index data => exact ⟨valid.1, valid.2.1, more _ valid.2.2⟩
  | addBytes index => exact ⟨valid.1, more _ valid.2⟩
  | addCount index => exact ⟨valid.1, more _ valid.2⟩
  | readPiece index begin_ length => exact ⟨valid.1, more _ valid.2.1, valid.2.2⟩
  | bitfieldLoad next bf => exact ⟨valid.1, fun i found => ⟨(valid.2 i found).1, more _ (valid.2 i found).2⟩⟩
  | _ => exact valid

/-- A thread that moves to a valid position leaves all positions valid. -/
theorem valid_update {had had' : Nat → Bool} {pcs : Nat → Pc} (more : ∀ i, had i = true → had' i = true)
    (valid : ∀ thread, (pcs thread).Valid pm sha1 had) {thread : Nat} {pc : Pc} (moved : pc.Valid pm sha1 had')
    (other : Nat) : (Function.update pcs thread pc other).Valid pm sha1 had' := by
  by_cases same : other = thread
  · subst same
    rw [Function.update_self]
    exact moved
  · rw [Function.update_of_ne same]
    exact (valid other).mono more

theorem Action.valid {s s' : State} {label : Label} (action : Action pm w sha1 s label s')
    (valid : ∀ thread, (s.pc thread).Valid pm sha1 s.pieces.mHave) :
    ∀ thread, (s'.pc thread).Valid pm sha1 s'.pieces.mHave := by
  have more := fun i => action.have_mono (i := i)
  cases action with
  | @move label thread pc failures returned outside stays moved handed =>
    exact valid_update more valid (moved (valid thread))
  | @win thread index data faults located missing =>
    have before := valid thread
    rw [located] at before
    exact valid_update more valid ⟨before.1, before.2, Function.update_self ..⟩
  | @wrote thread index data faults located success =>
    have before := valid thread
    rw [located] at before
    exact valid_update more valid ⟨before.1, before.2.2⟩
  | @failed thread index data faults error located failure => exact valid_update more valid trivial
  | @booked thread index faults located =>
    have before := valid thread
    rw [located] at before
    exact valid_update more valid before
  | @counted thread index faults located => exact valid_update more valid trivial

theorem Initial.valid {s : State} (initial : Initial s) (thread : Nat) :
    (s.pc thread).Valid pm sha1 s.pieces.mHave := by
  rw [initial.2.1 thread]
  trivial

end BittorrentClient.Threads
