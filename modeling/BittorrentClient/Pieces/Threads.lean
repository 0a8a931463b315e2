import BittorrentClient.Library.Reach
import BittorrentClient.Pieces.PieceManager

namespace BittorrentClient.Threads
open Cpp

/-- Where one thread stands between two atomic operations: `complete_piece`
from its first load to its last counter, `read_block` and the loop of
`current_bitfield`. -/
inductive Pc
  | idle
  | haveLoad (index : Nat) (data : Bytes)
  | hashCheck (index : Nat) (data : Bytes)
  | haveReload (index : Nat)
  | casHave (index : Nat) (data : Bytes)
  | write (index : Nat) (data : Bytes)
  | addBytes (index : Nat)
  | addCount (index : Nat)
  | readHave (index begin_ length : Nat)
  | readPiece (index begin_ length : Nat)
  | bitfieldLoad (next : Nat) (bf : List Bool)

/-- A value or an exception that a call gave back. -/
inductive Return
  | completed (index : Nat) (ok : Bool)
  | block (index begin_ length : Nat) (bytes : Bytes)
  | bitfield (bf : List Bool)
  | threw (error : PieceError)

structure WriteCall where
  index : Nat
  data : Bytes
  faults : IoFaults
  ok : Bool

/-- The shared atomics, the files, and each thread's position. `writes` and
`returned` record the calls of `write_piece` and the results handed out; no
step reads them. -/
structure State where
  pieces : Pieces
  disk : Disk
  pc : Nat → Pc
  writes : List WriteCall
  returned : List Return

inductive Label
  | completePiece (thread index : Nat) (data : Bytes)
  | readBlock (thread index begin_ length : Nat)
  | currentBitfield (thread : Nat)
  | advance (thread : Nat) (faults : IoFaults)

namespace State

def goto (s : State) (thread : Nat) (pc : Pc) : State := { s with pc := Function.update s.pc thread pc }

def finish (s : State) (thread : Nat) (result : Return) : State :=
  { s with pc := Function.update s.pc thread .idle, returned := result :: s.returned }

end State

variable (pm : PieceManager) (w : DiskWriter) (sha1 : Bytes → Sha1Hash)

/-- One atomic operation of a thread that is inside a call. -/
def advance (s : State) (thread : Nat) (faults : IoFaults) : Option State :=
  match s.pc thread with
  | .idle => none
  | .haveLoad index data =>
    some (if s.pieces.mHave index then s.finish thread (.completed index true)
      else s.goto thread (.hashCheck index data))
  | .hashCheck index data =>
    some (s.goto thread (if pm.verifies sha1 index data then .casHave index data else .haveReload index))
  | .haveReload index =>
    some (if s.pieces.mHave index then s.finish thread (.completed index true)
      else
        { s with pieces := { s.pieces with mPieceHashFailures := u64 (s.pieces.mPieceHashFailures + 1) } }.finish
          thread (.completed index false))
  | .casHave index data =>
    some (if s.pieces.mHave index then s.finish thread (.completed index true)
      else
        { s with pieces := { s.pieces with mHave := Function.update s.pieces.mHave index true } }.goto
          thread (.write index data))
  | .write index data =>
    some (match w.writePiece faults index data s.disk with
      | (written, .ok _) =>
        { s with disk := written, writes := ⟨index, data, faults, true⟩ :: s.writes }.goto thread (.addBytes index)
      | (failed, .error error) =>
        { s with disk := failed, writes := ⟨index, data, faults, false⟩ :: s.writes }.finish thread (.threw (.disk error)))
  | .addBytes index =>
    some ({ s with pieces := { s.pieces with
        mCurrDownloadedBytes := u64 (s.pieces.mCurrDownloadedBytes + pm.pieceLength index) } }.goto
      thread (.addCount index))
  | .addCount index =>
    some ({ s with pieces := { s.pieces with mCompletedCount := u32 (s.pieces.mCompletedCount + 1) } }.finish
      thread (.completed index true))
  | .readHave index begin_ length =>
    some (if !pm.havePiece index s.pieces then s.finish thread (.threw (.notAvailable index))
      else
        match pm.checkRange index begin_ length with
        | .ok _ => s.goto thread (.readPiece index begin_ length)
        | .error error => s.finish thread (.threw error))
  | .readPiece index begin_ length =>
    some (match w.readPiece faults index s.disk with
      | .error error => s.finish thread (.threw (.disk error))
      | .ok piece =>
        match PieceManager.copyBlock index begin_ length piece with
        | .ok bytes => s.finish thread (.block index begin_ length bytes)
        | .error error => s.finish thread (.threw error))
  | .bitfieldLoad next bf =>
    some (if next < pm.mNumPieces then s.goto thread (.bitfieldLoad (next + 1) (bf ++ [s.pieces.mHave next]))
      else s.finish thread (.bitfield bf))

/-- Starting a call, or one atomic operation of a call in progress. -/
def step (s : State) : Label → Option State
  | .completePiece thread index data =>
    match s.pc thread with
    | .idle =>
      some (if pm.mNumPieces ≤ index then s.finish thread (.threw (.indexOutOfRange index pm.mNumPieces))
        else s.goto thread (.haveLoad index data))
    | _ => none
  | .readBlock thread index begin_ length =>
    match s.pc thread with
    | .idle => some (s.goto thread (.readHave index begin_ length))
    | _ => none
  | .currentBitfield thread =>
    match s.pc thread with
    | .idle => some (s.goto thread (.bitfieldLoad 0 []))
    | _ => none
  | .advance thread faults => advance pm w sha1 s thread faults

/-- A fresh manager over any files, with no call in progress. -/
def Initial (s : State) : Prop :=
  s.pieces = .fresh ∧ (∀ thread, s.pc thread = .idle) ∧ s.writes = [] ∧ s.returned = []

/-- What the caller of `complete_piece` gets back. -/
def completeReturn (index : Nat) : Except PieceError Bool → Return
  | .ok ok => .completed index ok
  | .error error => .threw error

variable {pm w sha1}

/-- A call that no other thread interrupts is the sequential `complete_piece`. -/
theorem completePiece_solo {s : State} {thread : Nat} (idle : s.pc thread = .idle) (faults : IoFaults) (index : Nat)
    (data : Bytes) : ∃ rounds s', Machine.exec (step pm w sha1) Machine.unguarded s
        (.completePiece thread index data :: List.replicate rounds (.advance thread faults)) = some s' ∧
      (s'.pieces, s'.disk) = (pm.completePiece w sha1 faults index data s.pieces s.disk).1 ∧
      s'.pc = s.pc ∧
      s'.returned = completeReturn index (pm.completePiece w sha1 faults index data s.pieces s.disk).2 ::
        s.returned := by
  have back : Function.update s.pc thread .idle = s.pc := by
    rw [← idle]
    exact Function.update_eq_self thread s.pc
  unfold PieceManager.completePiece
  by_cases outside : pm.mNumPieces ≤ index
  · refine ⟨0, s.finish thread (.threw (.indexOutOfRange index pm.mNumPieces)), ?_, ?_, back, ?_⟩
    · simp [Machine.exec, step, idle, outside, Machine.unguarded]
    · simp only [outside, if_true, State.finish]
    · simp only [outside, if_true, State.finish, completeReturn]
  cases had : s.pieces.mHave index with
  | true =>
    refine ⟨1, s.finish thread (.completed index true), ?_, ?_, back, ?_⟩
    · simp [Machine.exec, step, idle, outside, Machine.unguarded, advance, State.goto, State.finish, had]
    · simp only [outside, if_true, if_false, State.finish]
    · simp only [outside, if_true, if_false, State.finish, completeReturn]
  | false =>
    cases verified : pm.verifies sha1 index data with
    | false =>
      refine ⟨3, { s with
        pieces := { s.pieces with mPieceHashFailures := u64 (s.pieces.mPieceHashFailures + 1) }
        returned := .completed index false :: s.returned }, ?_, ?_, rfl, ?_⟩
      · simp [Machine.exec, step, idle, outside, Machine.unguarded, advance, State.goto, State.finish, had, verified,
          back, List.replicate]
      · simp [outside]
      · simp [outside, completeReturn]
    | true =>
      cases outcome : w.writePiece faults index data s.disk with
      | mk after result =>
        cases result with
        | error error =>
          refine ⟨4, { s with
            pieces := { s.pieces with mHave := Function.update s.pieces.mHave index true }
            disk := after
            writes := ⟨index, data, faults, false⟩ :: s.writes
            returned := .threw (.disk error) :: s.returned }, ?_, ?_, rfl, ?_⟩
          · simp [Machine.exec, step, idle, outside, Machine.unguarded, advance, State.goto, State.finish, had,
              verified, back, outcome, List.replicate]
          · simp [outside]
          · simp [outside, completeReturn]
        | ok value =>
          refine ⟨6, { s with
            pieces := { s.pieces with
              mHave := Function.update s.pieces.mHave index true
              mCurrDownloadedBytes := u64 (s.pieces.mCurrDownloadedBytes + pm.pieceLength index)
              mCompletedCount := u32 (s.pieces.mCompletedCount + 1) }
            disk := after
            writes := ⟨index, data, faults, true⟩ :: s.writes
            returned := .completed index true :: s.returned }, ?_, ?_, rfl, ?_⟩
          · simp [Machine.exec, step, idle, outside, Machine.unguarded, advance, State.goto, State.finish, had,
              verified, back, outcome, List.replicate]
          · simp [outside]
          · simp [outside, completeReturn]

end BittorrentClient.Threads
