import BittorrentClient.Disk.Refinement
import BittorrentClient.Library.LockOrder
import BittorrentClient.Library.Reach
import Mathlib.Data.List.Sort

namespace BittorrentClient.DiskWriter
open Cpp Splice LockOrder Machine

/-- A write or a read of a piece, and what the environment does to it. -/
structure Job where
  index : Nat
  data : Option Bytes
  faults : IoFaults

/-- The variables of the loop of `write_piece` or `read_piece`: the files that are
left, with their places, and what has been read. -/
structure Cursor where
  rest : List (FileEntry × Nat)
  offset : Nat
  remaining : Nat
  dataPos : Nat
  out : Bytes

namespace Cursor

def start (w : DiskWriter) (index length : Nat) : Cursor := ⟨w.files.zipIdx, w.pieceGlobalOffset index, length, 0, []⟩

/-- What the loop does with the next file. -/
inductive Turn
  | stop
  | skip (rest : List (FileEntry × Nat))
  | opens (file : FileEntry) (place : Nat) (rest : List (FileEntry × Nat))

def turn (c : Cursor) : Turn :=
  match c.rest with
  | [] => .stop
  | (file, place) :: rest =>
    if c.remaining = 0 then .stop
    else if u64 (file.offset + file.length) ≤ c.offset then .skip rest
    else if u64 (c.offset + c.remaining) ≤ file.offset then .stop
    else .opens file place rest

def chunk (c : Cursor) (file : FileEntry) : Nat := min c.remaining (sub64 file.length (startInFile c.offset file))

/-- The variables after a file was written or read. -/
def advance (c : Cursor) (file : FileEntry) (rest : List (FileEntry × Nat)) (bytes : Bytes) : Cursor where
  rest := rest
  offset := u64 (c.offset + c.chunk file)
  remaining := c.remaining - c.chunk file
  dataPos := c.dataPos + c.chunk file
  out := c.out ++ bytes

end Cursor

section Iterations
variable (w : DiskWriter) (faults : IoFaults)

/-- One round of the loop of `write_piece`. -/
def writeRound (data : Bytes) (c : Cursor) (disk : Disk) : Disk × (Cursor ⊕ Except DiskError Nat) :=
  match c.turn with
  | .stop => (disk, .inr (.ok c.remaining))
  | .skip rest => (disk, .inl { c with rest := rest })
  | .opens file _ rest =>
    match disk.writeAt faults (w.absolutePath file) (startInFile c.offset file) (slice data c.dataPos (c.chunk file)) with
    | (written, .ok _) => (written, .inl (c.advance file rest []))
    | (failed, .error error) => (failed, .inr (.error error))

/-- One round of the loop of `read_piece`. -/
def readRound (c : Cursor) (disk : Disk) : Cursor ⊕ Except DiskError (Bytes × Nat) :=
  match c.turn with
  | .stop => .inr (.ok (c.out, c.remaining))
  | .skip rest => .inl { c with rest := rest }
  | .opens file _ rest =>
    match disk.readAt faults (w.absolutePath file) (startInFile c.offset file) (c.chunk file) with
    | .ok bytes => .inl (c.advance file rest bytes)
    | .error error => .inr (.error error)

/-- The loop of `write_piece` is made of these rounds. -/
theorem writeLoop_eq_round (data : Bytes) (c : Cursor) (disk : Disk) :
    writeLoop w faults data (c.rest.map Prod.fst) c.offset c.remaining c.dataPos disk =
      match writeRound w faults data c disk with
      | (next, .inl c) => writeLoop w faults data (c.rest.map Prod.fst) c.offset c.remaining c.dataPos next
      | (last, .inr result) => (last, result) := by
  obtain ⟨rest, offset, remaining, dataPos, out⟩ := c
  cases rest with
  | nil => rfl
  | cons entry rest =>
    simp only [List.map_cons, writeLoop, writeRound, Cursor.turn]
    split
    case isTrue => rfl
    case isFalse =>
      split
      case isTrue => rfl
      case isFalse =>
        split
        case isTrue => rfl
        case isFalse =>
          simp only [Cursor.chunk]
          generalize disk.writeAt faults _ _ _ = outcome
          obtain ⟨after, result⟩ := outcome
          cases result with
          | ok => rfl
          | error => rfl

/-- The loop of `read_piece` is made of these rounds. -/
theorem readLoop_eq_round (c : Cursor) (disk : Disk) :
    readLoop w faults disk (c.rest.map Prod.fst) c.offset c.remaining c.out =
      match readRound w faults c disk with
      | .inl c => readLoop w faults disk (c.rest.map Prod.fst) c.offset c.remaining c.out
      | .inr result => result := by
  obtain ⟨rest, offset, remaining, dataPos, out⟩ := c
  cases rest with
  | nil => rfl
  | cons entry rest =>
    simp only [List.map_cons, readLoop, readRound, Cursor.turn]
    split
    case isTrue => rfl
    case isFalse =>
      split
      case isTrue => rfl
      case isFalse =>
        split
        case isTrue => rfl
        case isFalse =>
          simp only [Cursor.chunk]
          generalize disk.readAt faults _ _ _ = outcome
          cases outcome with
          | ok => rfl
          | error => rfl

end Iterations

namespace Job

/-- The checks before the loop. -/
def enter (w : DiskWriter) (job : Job) : Except DiskError Cursor :=
  match w.pieceLength job.index with
  | .error error => .error error
  | .ok length =>
    match job.data with
    | none => .ok (.start w job.index length)
    | some data =>
      if data.length ≠ length then .error (.writeSizeMismatch job.index length data.length)
      else .ok (.start w job.index data.length)

/-- A round of the loop, or the end of the call. -/
def round (w : DiskWriter) (job : Job) (c : Cursor) (disk : Disk) : Disk × (Cursor ⊕ Except DiskError Bytes) :=
  match job.data with
  | none =>
    match readRound w job.faults c disk with
    | .inl next => (disk, .inl next)
    | .inr (.ok (out, remaining)) =>
      (disk, .inr (if remaining ≠ 0 then .error (.readNotMapped job.index remaining) else .ok out))
    | .inr (.error error) => (disk, .inr (.error error))
  | some data =>
    match writeRound w job.faults data c disk with
    | (after, .inl next) => (after, .inl next)
    | (after, .inr (.ok remaining)) =>
      (after, .inr (if remaining ≠ 0 then .error (.writeNotMapped job.index remaining) else .ok []))
    | (after, .inr (.error error)) => (after, .inr (.error error))

end Job

/-- Where a thread is in its call. -/
inductive Phase
  | idle
  | locking (job : Job)
  | looping (job : Job) (c : Cursor)
  | unlocking (result : Except DiskError Bytes)

/-- Threads that write and read pieces of one torrent. -/
structure Access (τ : Type) where
  phase : τ → Phase
  locks : Table τ Nat
  disk : Disk

inductive Access.Label (τ : Type)
  | call (t : τ) (job : Job)
  | go (t : τ)

namespace Access
variable {τ : Type} [DecidableEq τ]

def set (s : Access τ) (t : τ) (phase : Phase) : Access τ := { s with phase := Function.update s.phase t phase }

/-- The beginning of `write_piece` and `read_piece`. -/
def call (w : DiskWriter) (s : Access τ) (t : τ) (job : Job) : Access τ :=
  if !s.disk.preallocated then s.set t (.unlocking (.error .notPreallocated))
  else
    match w.fileIndicesForPiece job.index with
    | .error error => s.set t (.unlocking (.error error))
    | .ok indices => { s.set t (.locking job) with locks := s.locks.request t (indices.insertionSort (· ≤ ·)) }

/-- The next thing that a thread does. The locks are taken one after the other, and
given back one after the other when the call ends. -/
def go (w : DiskWriter) (s : Access τ) (t : τ) : Option (Access τ) :=
  match s.phase t with
  | .idle => none
  | .locking job =>
    match s.locks.wanted t with
    | [] =>
      match job.enter w with
      | .ok c => some (s.set t (.looping job c))
      | .error error => some (s.set t (.unlocking (.error error)))
    | _ :: _ => (s.locks.acquire t).map fun locks => { s with locks := locks }
  | .looping job c =>
    match job.round w c s.disk with
    | (disk, .inl next) => some { s.set t (.looping job next) with disk := disk }
    | (disk, .inr result) => some { s.set t (.unlocking result) with disk := disk }
  | .unlocking _ =>
    match s.locks.held t with
    | [] => some (s.set t .idle)
    | _ :: _ => (s.locks.release t).map fun locks => { s with locks := locks }

def step (w : DiskWriter) (s : Access τ) : Label τ → Option (Access τ)
  | .call t job =>
    match s.phase t with
    | .idle => some (s.call w t job)
    | _ => none
  | .go t => s.go w t

/-- No thread is in a call. -/
def Initial (s : Access τ) : Prop := s.phase = (fun _ => .idle) ∧ s.locks = .vacant

end Access

section Cover
variable {w : DiskWriter} {index length : Nat} {c : Cursor} {file : FileEntry} {place : Nat} {rest : List (FileEntry × Nat)}

/-- No file reaches beyond the last `uint64_t`. -/
def Fits (w : DiskWriter) : Prop := ∀ file ∈ w.files, file.offset + file.length < 2 ^ 64

theorem Consecutive.end_le {base : Nat} {files : List FileEntry} (consecutive : Consecutive base files) :
    ∀ file ∈ files, file.offset + file.length ≤ base + totalLength files := by
  induction files generalizing base with
  | nil => exact fun _ member => absurd member List.not_mem_nil
  | cons first rest ih =>
    obtain ⟨here, later⟩ := consecutive
    rw [totalLength_cons]
    intro file member
    rcases List.mem_cons.mp member with rfl | inRest
    · omega
    · have bound := ih later file inRest
      omega

theorem fileIndices_ascending {indices : List Nat} (found : w.fileIndicesForPiece index = .ok indices) :
    indices.Pairwise (· < ·) := by
  rw [fileIndicesForPiece] at found
  split at found
  case h_1 => cases found
  case h_2 =>
    cases found
    have places : (w.files.zipIdx.map Prod.snd).Pairwise (· < ·) := by
      rw [List.zipIdx_map_snd]
      exact List.pairwise_lt_range'
    exact places.sublist (List.filter_sublist.map Prod.snd)

theorem Cursor.turn_opens (turn : c.turn = .opens file place rest) :
    c.rest = (file, place) :: rest ∧ c.offset < u64 (file.offset + file.length) ∧ file.offset < u64 (c.offset + c.remaining) := by
  rw [Cursor.turn] at turn
  split at turn
  case h_1 => cases turn
  case h_2 first at_ tail whole =>
    split at turn
    case isTrue => cases turn
    case isFalse =>
      split at turn
      case isTrue => cases turn
      case isFalse ahead =>
        split at turn
        case isTrue => cases turn
        case isFalse reaches =>
          cases turn
          exact ⟨whole, Nat.not_le.mp ahead, Nat.not_le.mp reaches⟩

theorem Cursor.turn_skip (turn : c.turn = .skip rest) : ∃ entry, c.rest = entry :: rest := by
  rw [Cursor.turn] at turn
  split at turn
  case h_1 => cases turn
  case h_2 first at_ tail whole =>
    split at turn
    case isTrue => cases turn
    case isFalse =>
      split at turn
      case isTrue =>
        cases turn
        exact ⟨_, whole⟩
      case isFalse =>
        split at turn
        case isTrue => cases turn
        case isFalse => cases turn

/-- A round that goes on has skipped a file or has dealt with it. -/
def Cursor.Moves (c next : Cursor) : Prop :=
  (∃ rest, c.turn = .skip rest ∧ next = { c with rest := rest }) ∨
    ∃ file place rest bytes, c.turn = .opens file place rest ∧ next = c.advance file rest bytes

theorem readRound_moves {faults : IoFaults} {disk : Disk} {next : Cursor} (run : readRound w faults c disk = .inl next) :
    c.Moves next := by
  rw [readRound] at run
  split at run
  case h_1 => cases run
  case h_2 rest turn =>
    cases run
    exact Or.inl ⟨rest, turn, rfl⟩
  case h_3 file place rest turn =>
    split at run
    case h_1 bytes _ =>
      cases run
      exact Or.inr ⟨file, place, rest, bytes, turn, rfl⟩
    case h_2 => cases run

theorem writeRound_moves {faults : IoFaults} {data : Bytes} {disk after : Disk} {next : Cursor}
    (run : writeRound w faults data c disk = (after, .inl next)) : c.Moves next := by
  rw [writeRound] at run
  split at run
  case h_1 => cases run
  case h_2 rest turn =>
    cases run
    exact Or.inl ⟨rest, turn, rfl⟩
  case h_3 file place rest turn =>
    split at run
    case h_1 =>
      cases run
      exact Or.inr ⟨file, place, rest, [], turn, rfl⟩
    case h_2 => cases run

theorem Job.round_moves {job : Job} {disk after : Disk} {next : Cursor} (run : job.round w c disk = (after, .inl next)) :
    c.Moves next := by
  rw [Job.round] at run
  split at run
  case h_1 =>
    split at run
    case h_1 _ read =>
      cases run
      exact readRound_moves read
    case h_2 => cases run
    case h_3 => cases run
  case h_2 =>
    split at run
    case h_1 _ _ wrote =>
      cases run
      exact writeRound_moves wrote
    case h_2 => cases run
    case h_3 => cases run

theorem writeAt_other {disk : Disk} {faults : IoFaults} {path : Path} {other : Place} {start : Nat} {bytes : Bytes}
    (different : other ≠ disk.place path) : (disk.writeAt faults path start bytes).1.files other = disk.files other := by
  rw [Disk.writeAt]
  split
  case h_1 => rfl
  case h_2 =>
    split
    case isTrue => rfl
    case isFalse =>
      split
      case isTrue => rfl
      case isFalse => exact Function.update_of_ne different _ _

/-- A round changes no file but the one that it opens. -/
theorem Job.round_changes {job : Job} {disk : Disk} {spot : Place} (changed : (job.round w c disk).1.files spot ≠ disk.files spot) :
    ∃ file place rest, c.turn = .opens file place rest ∧ w.filePlace disk file = spot := by
  rw [Job.round] at changed
  split at changed
  case h_1 =>
    split at changed
    case h_1 => exact absurd rfl changed
    case h_2 => exact absurd rfl changed
    case h_3 => exact absurd rfl changed
  case h_2 data _ =>
    have same : (writeRound w job.faults data c disk).1.files spot ≠ disk.files spot := by
      split at changed
      case h_1 after _ wrote => exact wrote ▸ changed
      case h_2 after _ wrote => exact wrote ▸ changed
      case h_3 after _ wrote => exact wrote ▸ changed
    rw [writeRound] at same
    split at same
    case h_1 => exact absurd rfl same
    case h_2 => exact absurd rfl same
    case h_3 file place rest turn =>
      refine ⟨file, place, rest, turn, ?_⟩
      by_contra different
      have kept := @writeAt_other disk job.faults _ _ (startInFile c.offset file) (slice data c.dataPos (c.chunk file))
        (Ne.symm different)
      split at same
      case h_1 written _ wrote =>
        rw [wrote] at kept
        exact same kept
      case h_2 failed _ wrote =>
        rw [wrote] at kept
        exact same kept

theorem Cursor.Moves.shorter {next : Cursor} (moves : c.Moves next) : next.rest.length < c.rest.length := by
  rcases moves with ⟨rest, turn, rfl⟩ | ⟨file, place, rest, bytes, turn, rfl⟩
  · obtain ⟨entry, whole⟩ := turn_skip turn
    rw [whole]
    exact Nat.lt_succ_self _
  · obtain ⟨whole, _⟩ := turn_opens turn
    rw [whole]
    exact Nat.lt_succ_self _

/-- What a call comes to when its loop runs without a break. -/
def Job.loopResult (w : DiskWriter) (job : Job) (c : Cursor) (disk : Disk) : Disk × Except DiskError Bytes :=
  match job.data with
  | none =>
    match readLoop w job.faults disk (c.rest.map Prod.fst) c.offset c.remaining c.out with
    | .ok (out, remaining) => (disk, if remaining ≠ 0 then .error (.readNotMapped job.index remaining) else .ok out)
    | .error error => (disk, .error error)
  | some data =>
    match writeLoop w job.faults data (c.rest.map Prod.fst) c.offset c.remaining c.dataPos disk with
    | (done, .ok remaining) => (done, if remaining ≠ 0 then .error (.writeNotMapped job.index remaining) else .ok [])
    | (failed, .error error) => (failed, .error error)

theorem Job.loopResult_round (job : Job) (c : Cursor) (disk : Disk) :
    job.loopResult w c disk =
      match job.round w c disk with
      | (after, .inl next) => job.loopResult w next after
      | (after, .inr result) => (after, result) := by
  obtain ⟨index, data, faults⟩ := job
  cases data with
  | none =>
    simp only [loopResult, round, readLoop_eq_round w faults c disk]
    rcases readRound w faults c disk with next | ⟨error | ⟨out, remaining⟩⟩
    · rfl
    · rfl
    · rfl
  | some data =>
    simp only [loopResult, round, writeLoop_eq_round w faults data c disk]
    rcases writeRound w faults data c disk with ⟨after, next | ⟨error | remaining⟩⟩
    · rfl
    · rfl
    · rfl

/-- The loop has not gone back, and it ends where the piece ends. -/
structure OnTrack (w : DiskWriter) (index length : Nat) (c : Cursor) : Prop where
  rest : ∀ entry ∈ c.rest, entry ∈ w.files.zipIdx
  past : w.pieceGlobalOffset index ≤ c.offset
  target : u64 (c.offset + c.remaining) = u64 (w.pieceGlobalOffset index + length)

namespace OnTrack

theorem start : OnTrack w index length (.start w index length) := ⟨fun _ => id, Nat.le_refl _, rfl⟩

theorem skip (track : OnTrack w index length c) (turn : c.turn = .skip rest) :
    OnTrack w index length { c with rest := rest } := by
  obtain ⟨entry, whole⟩ := Cursor.turn_skip turn
  exact ⟨fun other member => track.rest other (whole ▸ List.mem_cons_of_mem entry member), track.past, track.target⟩

theorem file_lt (track : OnTrack w index length c) (fits : w.Fits) (turn : c.turn = .opens file place rest) :
    (file, place) ∈ w.files.zipIdx ∧ file.offset + file.length < 2 ^ 64 ∧ c.offset < file.offset + file.length ∧
      file.offset < u64 (c.offset + c.remaining) := by
  obtain ⟨whole, ahead, reaches⟩ := Cursor.turn_opens turn
  have listed : (file, place) ∈ w.files.zipIdx := track.rest _ (whole ▸ List.mem_cons_self)
  have small := fits file (List.fst_mem_of_mem_zipIdx listed)
  rw [u64_eq small] at ahead
  exact ⟨listed, small, ahead, reaches⟩

theorem advance (track : OnTrack w index length c) (fits : w.Fits) (turn : c.turn = .opens file place rest) (bytes : Bytes) :
    OnTrack w index length (c.advance file rest bytes) := by
  obtain ⟨_, small, ahead, _⟩ := track.file_lt fits turn
  have end_ : c.offset + c.chunk file ≤ file.offset + file.length := by
    rw [Cursor.chunk, startInFile]
    split
    case isTrue inside =>
      rw [sub64_eq (Nat.le_of_lt inside) (by omega), sub64_eq (by omega) (by omega)]
      omega
    case isFalse before =>
      rw [sub64_eq (Nat.zero_le _) (by omega)]
      omega
  have part : c.chunk file ≤ c.remaining := Nat.min_le_left _ _
  have moved : (c.advance file rest bytes).offset = c.offset + c.chunk file := u64_eq (by omega)
  refine ⟨fun other member => track.rest other ?_, ?_, ?_⟩
  · obtain ⟨whole, _⟩ := Cursor.turn_opens turn
    exact whole ▸ List.mem_cons_of_mem _ member
  · rw [moved]
    exact Nat.le_trans track.past (Nat.le_add_right _ _)
  · have left : (c.advance file rest bytes).remaining = c.remaining - c.chunk file := rfl
    rw [moved, left, Nat.add_assoc, Nat.add_sub_cancel' part]
    exact track.target

/-- What the loop opens is locked. -/
theorem opens_mem (track : OnTrack w index length c) (fits : w.Fits) (size : w.pieceLength index = .ok length)
    (turn : c.turn = .opens file place rest) : ∃ indices, w.fileIndicesForPiece index = .ok indices ∧ place ∈ indices := by
  obtain ⟨listed, small, ahead, reaches⟩ := track.file_lt fits turn
  rw [track.target] at reaches
  have behind := Nat.lt_of_le_of_lt track.past ahead
  refine ⟨_, by rw [fileIndicesForPiece, size], List.mem_map.mpr ⟨(file, place), List.mem_filter.mpr ⟨listed, ?_⟩, rfl⟩⟩
  simp only [u64_eq small, Bool.not_eq_true', Bool.or_eq_false_iff, decide_eq_false_iff_not]
  exact ⟨Nat.not_le.mpr reaches, Nat.not_le.mpr behind⟩

theorem round {job : Job} {disk after : Disk} {next : Cursor} (track : OnTrack w index length c) (fits : w.Fits)
    (run : job.round w c disk = (after, .inl next)) : OnTrack w index length next := by
  rcases Job.round_moves run with ⟨rest, turn, rfl⟩ | ⟨file, place, rest, bytes, turn, rfl⟩
  · exact track.skip turn
  · exact track.advance fits turn bytes

end OnTrack

end Cover

namespace Access
variable {τ : Type} {w : DiskWriter} {s s' : Access τ} {t : τ}

/-- What a thread holds and wants in each phase. -/
def Holds (w : DiskWriter) (held wanted : List Nat) : Phase → Prop
  | .idle => held = [] ∧ wanted = []
  | .locking job => w.fileIndicesForPiece job.index = .ok (held ++ wanted)
  | .looping job c => w.fileIndicesForPiece job.index = .ok held ∧ wanted = [] ∧
      ∃ length, w.pieceLength job.index = .ok length ∧ OnTrack w job.index length c
  | .unlocking _ => wanted = []

structure Disciplined (w : DiskWriter) (s : Access τ) : Prop where
  ordered : s.locks.Ordered
  holds : ∀ t, Holds w (s.locks.held t) (s.locks.wanted t) (s.phase t)

namespace Disciplined

theorem initial (start : Initial s) : Disciplined w s := by
  obtain ⟨phase, locks⟩ := start
  refine ⟨locks ▸ .vacant, fun t => ?_⟩
  rw [phase, locks]
  exact ⟨rfl, rfl⟩

/-- The thread that is about to open a file has locked it. -/
theorem opens (disciplined : Disciplined w s) (fits : w.Fits) {job : Job} {c : Cursor} (looping : s.phase t = .looping job c)
    {file : FileEntry} {place : Nat} {rest : List (FileEntry × Nat)} (turn : c.turn = .opens file place rest) :
    w.files[place]? = some file ∧ s.locks.owner place = some t ∧
      ∃ indices, w.fileIndicesForPiece job.index = .ok indices ∧ place ∈ indices := by
  have here := disciplined.holds t
  rw [looping] at here
  obtain ⟨held, _, length, size, track⟩ := here
  obtain ⟨listed, _⟩ := track.file_lt fits turn
  obtain ⟨indices, found, member⟩ := track.opens_mem fits size turn
  have same : indices = s.locks.held t := Except.ok.inj (found.symm.trans held)
  exact ⟨List.mem_zipIdx_iff_getElem?.mp listed, (disciplined.ordered.owned place t).mpr (same ▸ member), indices, found, member⟩

variable [DecidableEq τ]

/-- A thread that changes its phase and not its locks. -/
theorem set (disciplined : Disciplined w s) (t : τ) (phase : Phase) (disk : Disk)
    (here : Holds w (s.locks.held t) (s.locks.wanted t) phase) : Disciplined w { s.set t phase with disk := disk } := by
  refine ⟨disciplined.ordered, fun u => ?_⟩
  by_cases same : u = t
  · subst same
    simp only [Access.set, Function.update_self]
    exact here
  · simp only [Access.set, Function.update_of_ne same]
    exact disciplined.holds u

theorem call (disciplined : Disciplined w s) (idle : s.phase t = .idle) (job : Job) : Disciplined w (s.call w t job) := by
  have free := disciplined.holds t
  rw [idle] at free
  obtain ⟨none, wants⟩ := free
  rw [Access.call]
  split
  case isTrue => exact disciplined.set t _ s.disk wants
  case isFalse =>
    split
    case h_1 => exact disciplined.set t _ s.disk wants
    case h_2 indices found =>
      have ascending := fileIndices_ascending found
      have sorted : indices.insertionSort (· ≤ ·) = indices := (ascending.imp Nat.le_of_lt).insertionSort_eq
      rw [sorted]
      refine ⟨disciplined.ordered.request none ascending, fun u => ?_⟩
      by_cases same : u = t
      · subst same
        simp only [Access.set, Table.request, Function.update_self, none, Holds, List.nil_append]
        exact found
      · simp only [Access.set, Table.request, Function.update_of_ne same]
        exact disciplined.holds u

theorem acquire (disciplined : Disciplined w s) {job : Job} (locking : s.phase t = .locking job) {locks : Table τ Nat}
    (run : s.locks.acquire t = some locks) : Disciplined w { s with locks := locks } := by
  refine ⟨disciplined.ordered.acquire run, fun u => ?_⟩
  have before := disciplined.holds u
  rw [Table.acquire] at run
  split at run
  case h_1 => cases run
  case h_2 lock rest wants =>
    split at run
    case h_1 => cases run
    case h_2 =>
      cases run
      by_cases same : u = t
      · subst same
        rw [locking, Holds, wants] at before
        simp only [locking, Holds, Function.update_self, List.append_assoc, List.singleton_append]
        exact before
      · simp only [Function.update_of_ne same]
        exact before

theorem release (disciplined : Disciplined w s) {result : Except DiskError Bytes} (unlocking : s.phase t = .unlocking result)
    {locks : Table τ Nat} (run : s.locks.release t = some locks) : Disciplined w { s with locks := locks } := by
  refine ⟨disciplined.ordered.release run, fun u => ?_⟩
  have before := disciplined.holds u
  rw [Table.release] at run
  split at run
  case h_1 => cases run
  case h_2 lock rest holds =>
    cases run
    by_cases same : u = t
    · subst same
      rw [unlocking] at before ⊢
      exact before
    · simp only [Function.update_of_ne same]
      exact before

theorem enter (disciplined : Disciplined w s) {job : Job} (locking : s.phase t = .locking job)
    (ready : s.locks.wanted t = []) {c : Cursor} (entered : job.enter w = .ok c) :
    Disciplined w (s.set t (.looping job c)) := by
  have before := disciplined.holds t
  rw [locking, Holds, ready, List.append_nil] at before
  refine disciplined.set t _ s.disk ⟨before, ready, ?_⟩
  rw [Job.enter] at entered
  split at entered
  case h_1 => cases entered
  case h_2 length size =>
    refine ⟨length, size, ?_⟩
    split at entered
    case h_1 =>
      cases entered
      exact .start
    case h_2 data _ =>
      split at entered
      case isTrue => cases entered
      case isFalse whole =>
        cases entered
        rw [Decidable.of_not_not whole]
        exact .start

theorem go (disciplined : Disciplined w s) (fits : w.Fits) (run : s.go w t = some s') : Disciplined w s' := by
  have before := disciplined.holds t
  rw [Access.go] at run
  split at run
  case h_1 => cases run
  case h_2 job locking =>
    split at run
    case h_1 ready =>
      split at run
      case h_1 c entered =>
        cases run
        exact disciplined.enter locking ready entered
      case h_2 =>
        cases run
        exact disciplined.set t _ s.disk ready
    case h_2 =>
      obtain ⟨locks, taken, rfl⟩ := Option.map_eq_some_iff.mp run
      exact disciplined.acquire locking taken
  case h_3 job c looping =>
    rw [looping] at before
    obtain ⟨held, ready, length, size, track⟩ := before
    split at run
    case h_1 disk next moved =>
      cases run
      exact disciplined.set t _ disk ⟨held, ready, length, size, track.round fits moved⟩
    case h_2 disk result _ =>
      cases run
      exact disciplined.set t _ disk ready
  case h_4 result unlocking =>
    rw [unlocking] at before
    split at run
    case h_1 none =>
      cases run
      exact disciplined.set t _ s.disk ⟨none, before⟩
    case h_2 =>
      obtain ⟨locks, given, rfl⟩ := Option.map_eq_some_iff.mp run
      exact disciplined.release unlocking given

theorem step (disciplined : Disciplined w s) (fits : w.Fits) {label : Label τ} (run : Access.step w s label = some s') :
    Disciplined w s' := by
  cases label with
  | call t job =>
    rw [Access.step] at run
    split at run
    case h_1 idle =>
      cases run
      exact disciplined.call idle job
    case h_2 => cases run
  | go t => exact disciplined.go fits run

theorem reach (fits : w.Fits) (reach : Reach Initial (Access.step w) unguarded s) : Disciplined w s :=
  reach.invariant (fun _ => initial) fun _ _ _ disciplined _ run => disciplined.step fits run

/-- Only files that are locked change. -/
theorem changes (disciplined : Disciplined w s) (fits : w.Fits) (run : s.go w t = some s') {spot : Place}
    (changed : s'.disk.files spot ≠ s.disk.files spot) :
    ∃ place file, w.files[place]? = some file ∧ w.filePlace s.disk file = spot ∧ s.locks.owner place = some t := by
  rw [Access.go] at run
  split at run
  case h_1 => cases run
  case h_2 =>
    split at run
    case h_1 =>
      split at run
      case h_1 =>
        cases run
        exact absurd rfl changed
      case h_2 =>
        cases run
        exact absurd rfl changed
    case h_2 =>
      obtain ⟨locks, _, rfl⟩ := Option.map_eq_some_iff.mp run
      exact absurd rfl changed
  case h_3 job c looping =>
    have moved : (job.round w c s.disk).1.files spot ≠ s.disk.files spot := by
      split at run
      case h_1 _ _ round =>
        cases run
        exact round ▸ changed
      case h_2 _ _ round =>
        cases run
        exact round ▸ changed
    obtain ⟨file, place, rest, turn, rfl⟩ := Job.round_changes moved
    obtain ⟨listed, owned, _⟩ := disciplined.opens fits looping turn
    exact ⟨place, file, listed, rfl, owned⟩
  case h_4 =>
    split at run
    case h_1 =>
      cases run
      exact absurd rfl changed
    case h_2 =>
      obtain ⟨locks, _, rfl⟩ := Option.map_eq_some_iff.mp run
      exact absurd rfl changed

end Disciplined

end Access

/-- A thread that is left alone goes through the loop of the sequential model. -/
theorem Access.loop_alone {τ : Type} [DecidableEq τ] {w : DiskWriter} {t : τ} {job : Job} {c : Cursor} {s : Access τ}
    (looping : s.phase t = .looping job c) :
    ∃ n s', exec (Access.step w) unguarded s (List.replicate n (.go t)) = some s' ∧
      s'.disk = (job.loopResult w c s.disk).1 ∧ s'.phase t = .unlocking (job.loopResult w c s.disk).2 := by
  induction length : c.rest.length using Nat.strongRecOn generalizing c s with
  | ind _ ih =>
    subst length
    have result := @Job.loopResult_round w job c s.disk
    cases round : job.round w c s.disk with
    | mk after outcome =>
      rw [round] at result
      cases outcome with
      | inl next =>
        have first : Access.step w s (.go t) = some { s.set t (.looping job next) with disk := after } := by
          simp only [Access.step, Access.go, looping, round]
        obtain ⟨n, s', run, disk, phase⟩ := ih _ (Job.round_moves round).shorter
          (s := { s.set t (.looping job next) with disk := after }) (Function.update_self ..) rfl
        refine ⟨n + 1, s', ?_, ?_, ?_⟩
        · rw [List.replicate_succ, exec_unguarded_cons, first, Option.bind_some, run]
        · rw [result, disk]
        · rw [result, phase]
      | inr last =>
        have first : Access.step w s (.go t) = some { s.set t (.unlocking last) with disk := after } := by
          simp only [Access.step, Access.go, looping, round]
        refine ⟨1, { s.set t (.unlocking last) with disk := after }, ?_, ?_, ?_⟩
        · rw [List.replicate_one, exec_unguarded_cons, first, Option.bind_some, exec]
        · rw [result]
        · rw [result]
          exact Function.update_self ..

theorem make_files {outputDir : Path} {pieceSize totalSize : Nat} {layout : List (Path × Nat)} {w : DiskWriter}
    (made : make outputDir pieceSize totalSize layout = .ok w) : w.files = (layoutFiles 0 layout).1 := by
  simp only [make] at made
  split at made
  case isTrue => cases made
  case isFalse =>
    split at made
    case isTrue => cases made
    case isFalse =>
      split at made
      case isTrue => cases made
      case isFalse =>
        split at made
        case isTrue => cases made
        case isFalse =>
          cases made
          rfl

theorem fits_of_make {outputDir : Path} {pieceSize totalSize : Nat} {layout : List (Path × Nat)} {w : DiskWriter}
    (made : make outputDir pieceSize totalSize layout = .ok w) (sum : (layout.map Prod.snd).sum = totalSize)
    (small : totalSize < 2 ^ 64) : w.Fits := by
  obtain ⟨consecutive, _, files⟩ := @layoutFiles_spec 0 layout (by omega)
  have lengths : totalLength (layoutFiles 0 layout).1 = totalSize := by
    have mapped := congrArg (fun layout => (layout.map Prod.snd).sum) files
    rw [List.map_map] at mapped
    exact mapped.trans sum
  intro file member
  have bound := consecutive.end_le file (make_files made ▸ member)
  omega

/-- Every file is locked by the thread that opens it, and threads never wait for each
other in a circle. -/
theorem locks_cover_files {outputDir : Path} {pieceSize totalSize : Nat} {layout : List (Path × Nat)} {w : DiskWriter}
    (made : make outputDir pieceSize totalSize layout = .ok w) (sum : (layout.map Prod.snd).sum = totalSize)
    (small : totalSize < 2 ^ 64) :
    (∀ index indices, w.fileIndicesForPiece index = .ok indices → indices.Pairwise (· < ·)) ∧
      ∀ (τ : Type) [DecidableEq τ] (s : Access τ), Reach Access.Initial (Access.step w) unguarded s →
        (∀ t job c file place rest, s.phase t = .looping job c → c.turn = .opens file place rest →
          w.files[place]? = some file ∧ s.locks.owner place = some t ∧
            ∃ indices, w.fileIndicesForPiece job.index = .ok indices ∧ place ∈ indices) ∧
        (∀ t s' spot, s.go w t = some s' → s'.disk.files spot ≠ s.disk.files spot →
          ∃ place file, w.files[place]? = some file ∧ w.filePlace s.disk file = spot ∧ s.locks.owner place = some t) ∧
        ∀ t, ¬ Relation.TransGen s.locks.Waits t t := by
  have fits := fits_of_make made sum small
  refine ⟨fun _ _ => fileIndices_ascending, fun τ _ s reach => ?_⟩
  have disciplined := Access.Disciplined.reach fits reach
  refine ⟨?_, ?_, disciplined.ordered.acyclic⟩
  · intro t job c file place rest looping turn
    exact disciplined.opens fits looping turn
  · intro t s' spot run changed
    exact disciplined.changes fits run changed

/-- Eight bytes in three files, the second of which has none. -/
def threeFiles : List (Path × Nat) := [(⟨text ['a']⟩, 3), (⟨text ['b']⟩, 0), (⟨text ['c']⟩, 5)]

/-- One thread writes the first piece and another one wants to read it. -/
def writerAndReader : List (Access.Label Bool) :=
  [.call false ⟨0, some [1, 2, 3, 4], .none⟩, .go false, .call true ⟨0, none, .none⟩]

/-- Nobody has called anything. -/
def calm : Access Bool := ⟨fun _ => .idle, .vacant, { Disk.bare with preallocated := true }⟩

theorem locks_cover_three :
    ∃ w s, make ⟨text ['o']⟩ 4 8 threeFiles = .ok w ∧ w.fileIndicesForPiece 0 = .ok [0, 1, 2] ∧
      exec (Access.step w) unguarded calm writerAndReader = some s ∧
      s.locks.Waits true false ∧ ∀ t, ¬ Relation.TransGen s.locks.Waits t t := by
  have made : make ⟨text ['o']⟩ 4 8 threeFiles =
      .ok ⟨⟨text ['o']⟩, 4, 8, [⟨⟨text ['a']⟩, 3, 0⟩, ⟨⟨text ['b']⟩, 0, 3⟩, ⟨⟨text ['c']⟩, 5, 3⟩]⟩ := rfl
  have enabled : (exec (Access.step ⟨⟨text ['o']⟩, 4, 8, [⟨⟨text ['a']⟩, 3, 0⟩, ⟨⟨text ['b']⟩, 0, 3⟩, ⟨⟨text ['c']⟩, 5, 3⟩]⟩)
      unguarded calm writerAndReader).isSome = true := rfl
  have run := (Option.some_get enabled).symm
  have start : Access.Initial calm := ⟨rfl, rfl⟩
  refine ⟨_, _, made, rfl, run, ⟨0, [1, 2], rfl, rfl⟩, ?_⟩
  exact ((locks_cover_files made rfl (by decide)).2 Bool _ ((Reach.start start).exec run)).2.2

end BittorrentClient.DiskWriter
