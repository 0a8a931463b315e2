import BittorrentClient.Disk.Locking
import BittorrentClient.Library.Simulation

namespace BittorrentClient.DiskWriter
open Cpp Splice LockOrder Machine

/-- `write_piece` or `read_piece` as one call of the sequential model. -/
def Job.perform (w : DiskWriter) (job : Job) (disk : Disk) : Disk × Except DiskError Bytes :=
  match job.data with
  | none => (disk, w.readPiece job.faults job.index disk)
  | some data => ((w.writePiece job.faults job.index data disk).1, (w.writePiece job.faults job.index data disk).2.map fun _ => [])

/-- What the callers of the threads see. -/
inductive Event (τ : Type)
  | called (t : τ) (job : Job)
  | returned (t : τ) (result : Except DiskError Bytes)

/-- A call begins with its label, and ends with the step that finds nothing left to unlock. -/
def Access.event {τ : Type} (s : Access τ) : Access.Label τ → Option (Event τ)
  | .call t job => some (.called t job)
  | .go t =>
    match s.phase t, s.locks.held t with
    | .unlocking result, [] => some (.returned t result)
    | _, _ => none

/-- Where a thread is in its call when a call takes place at one instant. -/
inductive Stage
  | idle
  | asked (job : Job)
  | answered (job : Job) (result : Except DiskError Bytes)

/-- The threads without locks: each call is one step on the files. -/
structure Instant (τ : Type) where
  stage : τ → Stage
  disk : Disk

inductive Instant.Label (τ : Type)
  | call (t : τ) (job : Job)
  | act (t : τ)
  | back (t : τ)

namespace Instant
variable {τ : Type}

/-- Nobody has called anything yet. -/
def start (disk : Disk) : Instant τ := ⟨fun _ => .idle, disk⟩

def event (s : Instant τ) : Label τ → Option (Event τ)
  | .call t job => some (.called t job)
  | .act _ => none
  | .back t =>
    match s.stage t with
    | .answered _ result => some (.returned t result)
    | _ => none

variable [DecidableEq τ]

def set (s : Instant τ) (t : τ) (stage : Stage) : Instant τ := { s with stage := Function.update s.stage t stage }

def step (w : DiskWriter) (s : Instant τ) : Label τ → Option (Instant τ)
  | .call t job =>
    match s.stage t with
    | .idle => some (s.set t (.asked job))
    | _ => none
  | .act t =>
    match s.stage t with
    | .asked job => some { s.set t (.answered job (job.perform w s.disk).2) with disk := (job.perform w s.disk).1 }
    | _ => none
  | .back t =>
    match s.stage t with
    | .answered _ _ => some (s.set t .idle)
    | _ => none

end Instant

section Frame
variable {w : DiskWriter} {index length : Nat} {c : Cursor} {disk other : Disk}

/-- The places of the files with these indices, seen from a working directory. -/
def Reserves (w : DiskWriter) (cwd : Place) (indices : List Nat) (spot : Place) : Prop :=
  ∃ place ∈ indices, ∃ file, w.files[place]? = some file ∧ (w.absolutePath file).place cwd = spot

theorem writeAt_frame {faults : IoFaults} {path : Path} {start : Nat} {bytes : Bytes} (alike : disk.Alike other.toFileTree)
    (same : disk.files (disk.place path) = other.files (disk.place path)) :
    (disk.writeAt faults path start bytes).2 = (other.writeAt faults path start bytes).2 ∧
      ∀ spot, disk.files spot = other.files spot →
        (disk.writeAt faults path start bytes).1.files spot = (other.writeAt faults path start bytes).1.files spot := by
  simp only [Disk.writeAt, ← alike.content same]
  cases disk.content path with
  | none => exact ⟨rfl, fun _ => id⟩
  | some content =>
    simp only
    split
    case isTrue => exact ⟨rfl, fun _ => id⟩
    case isFalse =>
      split
      case isTrue => exact ⟨rfl, fun _ => id⟩
      case isFalse =>
        refine ⟨rfl, fun spot agree => ?_⟩
        simp only [Disk.store, FileTree.store_files, agree, alike.place path]

theorem readAt_frame {faults : IoFaults} {path : Path} {start chunk : Nat} (alike : disk.Alike other.toFileTree)
    (same : disk.files (disk.place path) = other.files (disk.place path)) :
    disk.readAt faults path start chunk = other.readAt faults path start chunk := by
  simp only [Disk.readAt, alike.content same]

/-- Two disks that differ in the contents of their files at most. -/
def SameTree (disk other : Disk) : Prop := disk.Alike other.toFileTree ∧ disk.preallocated = other.preallocated

theorem writeAt_sameTree {faults : IoFaults} {path : Path} {start : Nat} {bytes : Bytes} :
    SameTree (disk.writeAt faults path start bytes).1 disk := by
  rw [Disk.writeAt]
  split
  case h_1 => exact ⟨.refl _, rfl⟩
  case h_2 =>
    split
    case isTrue => exact ⟨.refl _, rfl⟩
    case isFalse =>
      split
      case isTrue => exact ⟨.refl _, rfl⟩
      case isFalse => exact ⟨FileTree.store_alike, rfl⟩

/-- A round looks at the file that it opens and at no other one. -/
theorem Job.round_frame (job : Job) (alike : disk.Alike other.toFileTree)
    (same : ∀ file place rest, c.turn = .opens file place rest →
      disk.files (w.filePlace disk file) = other.files (w.filePlace disk file)) :
    (job.round w c disk).2 = (job.round w c other).2 ∧
      ∀ spot, disk.files spot = other.files spot → (job.round w c disk).1.files spot = (job.round w c other).1.files spot := by
  obtain ⟨index, data, faults⟩ := job
  cases data with
  | none =>
    have agree : readRound w faults c disk = readRound w faults c other := by
      simp only [readRound]
      split
      case h_1 => rfl
      case h_2 => rfl
      case h_3 file place rest turn => rw [readAt_frame alike (same file place rest turn)]
    simp only [Job.round, agree]
    rcases readRound w faults c other with next | ⟨error | ⟨out, remaining⟩⟩
    · exact ⟨rfl, fun _ => id⟩
    · exact ⟨rfl, fun _ => id⟩
    · exact ⟨rfl, fun _ => id⟩
  | some data =>
    have agree : (writeRound w faults data c disk).2 = (writeRound w faults data c other).2 ∧
        ∀ spot, disk.files spot = other.files spot →
          (writeRound w faults data c disk).1.files spot = (writeRound w faults data c other).1.files spot := by
      simp only [writeRound]
      split
      case h_1 => exact ⟨rfl, fun _ => id⟩
      case h_2 => exact ⟨rfl, fun _ => id⟩
      case h_3 file place rest turn =>
        obtain ⟨result, files⟩ := @writeAt_frame _ _ faults _ (startInFile c.offset file) (slice data c.dataPos (c.chunk file))
          alike (same file place rest turn)
        generalize disk.writeAt faults _ _ _ = first at result files ⊢
        generalize other.writeAt faults _ _ _ = second at result files ⊢
        obtain ⟨after, outcome⟩ := first
        obtain ⟨after', outcome'⟩ := second
        cases result
        cases outcome with
        | ok => exact ⟨rfl, files⟩
        | error => exact ⟨rfl, files⟩
    simp only [Job.round]
    generalize writeRound w faults data c disk = first at agree ⊢
    generalize writeRound w faults data c other = second at agree ⊢
    obtain ⟨after, outcome⟩ := first
    obtain ⟨after', outcome'⟩ := second
    obtain ⟨result, files⟩ := agree
    cases result
    rcases outcome with next | ⟨error | remaining⟩
    · exact ⟨rfl, files⟩
    · exact ⟨rfl, files⟩
    · exact ⟨rfl, files⟩

/-- A round leaves the directories alone. -/
theorem Job.round_sameTree (job : Job) : SameTree (job.round w c disk).1 disk := by
  obtain ⟨index, data, faults⟩ := job
  cases data with
  | none =>
    simp only [Job.round]
    rcases readRound w faults c disk with next | ⟨error | ⟨out, remaining⟩⟩
    · exact ⟨.refl _, rfl⟩
    · exact ⟨.refl _, rfl⟩
    · exact ⟨.refl _, rfl⟩
  | some data =>
    have kept : SameTree (writeRound w faults data c disk).1 disk := by
      simp only [writeRound]
      split
      case h_1 => exact ⟨.refl _, rfl⟩
      case h_2 => exact ⟨.refl _, rfl⟩
      case h_3 file place rest turn =>
        have step := @writeAt_sameTree disk faults (w.absolutePath file) (startInFile c.offset file)
          (slice data c.dataPos (c.chunk file))
        split
        case h_1 _ _ wrote =>
          rw [wrote] at step
          exact step
        case h_2 _ _ wrote =>
          rw [wrote] at step
          exact step
    simp only [Job.round]
    generalize writeRound w faults data c disk = outcome at kept ⊢
    rcases outcome with ⟨after, next | ⟨error | remaining⟩⟩
    · exact kept
    · exact kept
    · exact kept

theorem SameTree.trans {first second third : Disk} (one : SameTree first second) (two : SameTree second third) :
    SameTree first third := ⟨one.1.trans two.1, one.2.trans two.2⟩

variable {indices : List Nat}

/-- What the next file is, the loop has reserved it. -/
theorem OnTrack.reserves (track : OnTrack w index length c) (fits : w.Fits) (size : w.pieceLength index = .ok length)
    (found : w.fileIndicesForPiece index = .ok indices) {file : FileEntry} {place : Nat} {rest : List (FileEntry × Nat)}
    (turn : c.turn = .opens file place rest) (cwd : Place) : w.Reserves cwd indices ((w.absolutePath file).place cwd) := by
  obtain ⟨listed, _⟩ := track.file_lt fits turn
  obtain ⟨indices', found', member⟩ := track.opens_mem fits size turn
  cases found.symm.trans found'
  exact ⟨place, member, file, List.mem_zipIdx_iff_getElem?.mp listed, rfl⟩

theorem Job.loopResult_invariant {P : Disk → Prop} (job : Job) (track : OnTrack w index length c) (fits : w.Fits)
    (keep : ∀ c disk, OnTrack w index length c → P disk → P (job.round w c disk).1) (base : P disk) :
    P (job.loopResult w c disk).1 := by
  induction size : c.rest.length using Nat.strongRecOn generalizing c disk with
  | ind _ ih =>
    subst size
    have kept := keep c disk track base
    rw [job.loopResult_round c disk]
    cases round : job.round w c disk with
    | mk after outcome =>
      rw [round] at kept
      cases outcome with
      | inl next => exact ih _ (Job.round_moves round).shorter (track.round fits round) kept rfl
      | inr last => exact kept

theorem Job.loopResult_sameTree (job : Job) (track : OnTrack w index length c) (fits : w.Fits) :
    SameTree (job.loopResult w c disk).1 disk :=
  job.loopResult_invariant (P := fun after => SameTree after disk) track fits
    (fun _ _ _ kept => job.round_sameTree.trans kept) ⟨.refl _, rfl⟩

/-- The loop leaves alone what it has not reserved. -/
theorem Job.loopResult_outside (job : Job) (disk : Disk) (track : OnTrack w index length c) (fits : w.Fits)
    (size : w.pieceLength index = .ok length) (found : w.fileIndicesForPiece index = .ok indices) {spot : Place}
    (outside : ¬ w.Reserves disk.cwd indices spot) : (job.loopResult w c disk).1.files spot = disk.files spot := by
  refine (job.loopResult_invariant (P := fun after => after.cwd = disk.cwd ∧ after.files spot = disk.files spot) track fits ?_
    ⟨rfl, rfl⟩).2
  intro c middle track kept
  refine ⟨job.round_sameTree.1.cwd.trans kept.1, ?_⟩
  by_contra changed
  obtain ⟨file, place, rest, turn, rfl⟩ := Job.round_changes (kept.2 ▸ changed)
  refine outside ?_
  rw [← kept.1]
  exact track.reserves fits size found turn middle.cwd

/-- The loop looks at what it has reserved and at nothing else. -/
theorem Job.loopResult_frame (job : Job) (track : OnTrack w index length c) (fits : w.Fits)
    (size : w.pieceLength index = .ok length) (found : w.fileIndicesForPiece index = .ok indices)
    (alike : disk.Alike other.toFileTree) (same : ∀ spot, w.Reserves disk.cwd indices spot → disk.files spot = other.files spot) :
    (job.loopResult w c disk).2 = (job.loopResult w c other).2 ∧
      ∀ spot, w.Reserves disk.cwd indices spot → (job.loopResult w c disk).1.files spot = (job.loopResult w c other).1.files spot := by
  induction shrinks : c.rest.length using Nat.strongRecOn generalizing c disk other with
  | ind _ ih =>
    subst shrinks
    obtain ⟨result, files⟩ := @Job.round_frame w c disk other job alike
      (fun file place rest turn => same _ (track.reserves fits size found turn disk.cwd))
    have kept := @Job.round_sameTree w c disk job
    have kept' := @Job.round_sameTree w c other job
    rw [job.loopResult_round c disk, job.loopResult_round c other]
    cases round : job.round w c disk with
    | mk after outcome =>
      cases round' : job.round w c other with
      | mk after' outcome' =>
        rw [round, round'] at result files
        rw [round] at kept
        rw [round'] at kept'
        cases result
        cases outcome with
        | inl next =>
          have later := ih _ (Job.round_moves round).shorter (track.round fits round)
            (kept.1.trans (alike.trans kept'.1.symm))
            (fun spot reserved => files spot (same spot (kept.1.cwd ▸ reserved))) rfl
          exact ⟨later.1, fun spot reserved => later.2 spot (kept.1.cwd.symm ▸ reserved)⟩
        | inr last => exact ⟨rfl, fun spot reserved => files spot (same spot reserved)⟩

end Frame

section Whole
variable {w : DiskWriter} {job : Job} {disk : Disk}

/-- A call that gets into its loop is its loop. -/
theorem Job.perform_enter {c : Cursor} (ready : disk.preallocated = true) (entered : job.enter w = .ok c) :
    job.perform w disk = job.loopResult w c disk := by
  obtain ⟨index, data, faults⟩ := job
  rw [Job.enter] at entered
  split at entered
  case h_1 => cases entered
  case h_2 length size =>
    cases data with
    | none =>
      cases entered
      simp only [Job.perform, Job.loopResult, readPiece, ready, Bool.not_true, Bool.false_eq_true, if_false, size,
        Cursor.start, List.zipIdx_map_fst]
      rcases readLoop w faults disk w.files (w.pieceGlobalOffset index) length [] with error | ⟨out, remaining⟩
      · rfl
      · rfl
    | some data =>
      simp only at entered
      split at entered
      case isTrue => cases entered
      case isFalse whole =>
        cases entered
        simp only [Job.perform, Job.loopResult, writePiece, ready, Bool.not_true, Bool.false_eq_true, if_false, size,
          if_neg whole, Cursor.start, List.zipIdx_map_fst]
        rcases writeLoop w faults data w.files (w.pieceGlobalOffset index) data.length 0 disk with ⟨after, error | remaining⟩
        · rfl
        · simp only
          split
          case isTrue => rfl
          case isFalse => rfl

theorem Job.perform_refused {error : DiskError} (ready : disk.preallocated = true) (refused : job.enter w = .error error) :
    job.perform w disk = (disk, .error error) := by
  obtain ⟨index, data, faults⟩ := job
  rw [Job.enter] at refused
  split at refused
  case h_1 size =>
    cases refused
    cases data with
    | none => simp [Job.perform, readPiece, ready, size]
    | some data => simp [Job.perform, writePiece, ready, size, Except.map]
  case h_2 length size =>
    cases data with
    | none => cases refused
    | some data =>
      simp only at refused
      split at refused
      case isTrue unequal =>
        cases refused
        simp [Job.perform, writePiece, ready, size, unequal, Except.map]
      case isFalse => cases refused

theorem Job.perform_unready (unready : disk.preallocated = false) : job.perform w disk = (disk, .error .notPreallocated) := by
  obtain ⟨index, data, faults⟩ := job
  cases data with
  | none => simp [Job.perform, readPiece, unready]
  | some data => simp [Job.perform, writePiece, unready, Except.map]

theorem Job.enter_of_unmapped {error : DiskError} (unmapped : w.fileIndicesForPiece job.index = .error error) :
    job.enter w = .error error := by
  cases size : w.pieceLength job.index with
  | error other =>
    rw [fileIndicesForPiece, size] at unmapped
    cases unmapped
    rw [Job.enter, size]
  | ok length =>
    rw [fileIndicesForPiece, size] at unmapped
    cases unmapped

end Whole

namespace Access
variable {τ : Type} {w : DiskWriter} {s s' : Access τ} {a : Instant τ} {t : τ}

/-- The places of the files that a thread has locked. -/
def Locked (w : DiskWriter) (s : Access τ) (t : τ) (spot : Place) : Prop := w.Reserves s.disk.cwd (s.locks.held t) spot

/-- What a thread in this phase looks like when its call takes place as it enters its loop. -/
def Shows (w : DiskWriter) (disk : Disk) : Phase → Stage → Prop
  | .idle, stage => stage = .idle
  | .locking job, stage => stage = .asked job ∧ disk.preallocated = true
  | .looping job c, stage => stage = .answered job (job.loopResult w c disk).2
  | .unlocking result, stage => ∃ job, stage = .answered job result

/-- The files of the threads without locks are those of the threads with locks, with the
loops that are under way run to their ends. -/
structure Matches (w : DiskWriter) (s : Access τ) (a : Instant τ) : Prop where
  disciplined : Disciplined w s
  shows : ∀ t, Shows w s.disk (s.phase t) (a.stage t)
  ahead : ∀ t job c spot, s.phase t = .looping job c → Locked w s t spot →
    a.disk.files spot = (job.loopResult w c s.disk).1.files spot
  still : ∀ spot, (∀ t job c, s.phase t = .looping job c → ¬ Locked w s t spot) → a.disk.files spot = s.disk.files spot
  sameTree : SameTree a.disk s.disk
  apart : w.Apart s.disk

/-- Two threads have no file in common. -/
theorem Disciplined.locked_inj (disciplined : Disciplined w s) (apart : w.Apart s.disk) {u : τ}
    {spot : Place} (mine : Locked w s t spot) (yours : Locked w s u spot) : t = u := by
  obtain ⟨place, member, file, atPlace, isSpot⟩ := mine
  obtain ⟨place', member', file', atPlace', isSpot'⟩ := yours
  have first : (w.files.map (w.filePlace s.disk))[place]? = some spot := by
    rw [List.getElem?_map, atPlace, Option.map_some, ← isSpot]
    rfl
  have second : (w.files.map (w.filePlace s.disk))[place']? = some spot := by
    rw [List.getElem?_map, atPlace', Option.map_some, ← isSpot']
    rfl
  obtain ⟨inside, _⟩ := List.getElem?_eq_some_iff.mp first
  have same : place = place' := (List.getElem?_inj inside apart).mp (first.trans second.symm)
  subst same
  have owned := (disciplined.ordered.owned place t).mpr member
  have owned' := (disciplined.ordered.owned place u).mpr member'
  exact Option.some.inj (owned.symm.trans owned')

/-- What a looping thread knows about its piece. -/
theorem Disciplined.looping (disciplined : Disciplined w s) {job : Job} {c : Cursor} (looping : s.phase t = .looping job c) :
    w.fileIndicesForPiece job.index = .ok (s.locks.held t) ∧
      ∃ length, w.pieceLength job.index = .ok length ∧ OnTrack w job.index length c := by
  have here := disciplined.holds t
  rw [looping] at here
  exact ⟨here.1, here.2.2⟩

namespace Matches

/-- When nobody is in a loop, both have the same files. -/
theorem disk_eq (related : Matches w s a) (calm : ∀ t job c, s.phase t ≠ .looping job c) : a.disk = s.disk := by
  have files : a.disk.files = s.disk.files :=
    funext fun spot => related.still spot fun t job c looping => absurd looping (calm t job c)
  obtain ⟨⟨cwd, directories⟩, flags⟩ := related.sameTree
  generalize a.disk = mine at files cwd directories flags ⊢
  generalize s.disk = theirs at files cwd directories flags ⊢
  obtain ⟨⟨_, _, _⟩, _⟩ := mine
  obtain ⟨⟨_, _, _⟩, _⟩ := theirs
  cases files
  cases cwd
  cases directories
  cases flags
  rfl

theorem initial (start : Initial s) (apart : w.Apart s.disk) : Matches w s (.start s.disk) := by
  obtain ⟨phase, locks⟩ := start
  refine ⟨.initial ⟨phase, locks⟩, fun t => ?_, fun t job c spot looping => ?_, fun _ _ => rfl, ⟨.refl _, rfl⟩, apart⟩
  · rw [phase]
    exact rfl
  · rw [phase] at looping
    cases looping

variable [DecidableEq τ]

/-- A thread that is not in its loop, and does not enter it, moves without any effect on the files. -/
theorem set (related : Matches w s a) {phase : Phase} {stage : Stage} (locks : Table τ Nat)
    (disciplined : Disciplined w { s.set t phase with locks := locks }) (shows : Shows w s.disk phase stage)
    (before : ∀ job c, s.phase t ≠ .looping job c) (after : ∀ job c, phase ≠ .looping job c)
    (others : ∀ u, u ≠ t → locks.held u = s.locks.held u) :
    Matches w { s.set t phase with locks := locks } (a.set t stage) := by
  have elsewhere : ∀ {u job c}, Function.update s.phase t phase u = .looping job c → u ≠ t ∧ s.phase u = .looping job c := by
    intro u job c looping
    by_cases same : u = t
    · subst same
      rw [Function.update_self] at looping
      exact absurd looping (after job c)
    · rw [Function.update_of_ne same] at looping
      exact ⟨same, looping⟩
  refine ⟨disciplined, fun u => ?_, fun u job c spot looping locked => ?_, fun spot free => ?_, related.sameTree, related.apart⟩
  · by_cases same : u = t
    · subst same
      simp only [Access.set, Instant.set, Function.update_self]
      exact shows
    · simp only [Access.set, Instant.set, Function.update_of_ne same]
      exact related.shows u
  · obtain ⟨different, looping⟩ := elsewhere looping
    refine related.ahead u job c spot looping ?_
    rw [Locked, ← others u different]
    exact locked
  · refine related.still spot fun u job c looping locked => ?_
    have different : u ≠ t := fun same => before job c (same ▸ looping)
    refine free u job c ?_ ?_
    · simp only [Access.set, Function.update_of_ne different]
      exact looping
    · rw [Locked]
      exact (others u different).symm ▸ locked

/-- A thread that enters its loop has its call done at this instant. -/
theorem enter (related : Matches w s a) (fits : w.Fits) {job : Job} {c : Cursor}
    (locking : s.phase t = .locking job) (disciplined : Disciplined w (s.set t (.looping job c)))
    (entered : job.enter w = .ok c) :
    Matches w (s.set t (.looping job c))
      { a.set t (.answered job (job.perform w a.disk).2) with disk := (job.perform w a.disk).1 } := by
  have shown := related.shows t
  rw [locking] at shown
  obtain ⟨_, ready⟩ := shown
  obtain ⟨found, length, size, track⟩ := disciplined.looping (Function.update_self ..)
  have alone : ∀ u job' c' spot, s.phase u = .looping job' c' → Locked w s u spot → ¬ Locked w s t spot := by
    intro u job' c' spot looping theirs mine
    have same := related.disciplined.locked_inj related.apart mine theirs
    rw [same, looping] at locking
    cases locking
  have cwd := related.sameTree.1.cwd
  have agree : ∀ spot, w.Reserves a.disk.cwd (s.locks.held t) spot → a.disk.files spot = s.disk.files spot := fun spot mine =>
    related.still spot fun u job' c' looping theirs => alone u job' c' spot looping theirs (by rwa [Locked, ← cwd])
  obtain ⟨result, files⟩ := job.loopResult_frame track fits size found related.sameTree.1 agree
  rw [job.perform_enter (related.sameTree.2.trans ready) entered]
  refine ⟨disciplined, fun u => ?_, fun u job' c' spot looping locked => ?_, fun spot free => ?_, ?_, related.apart⟩
  · by_cases same : u = t
    · subst same
      simp only [Access.set, Instant.set, Function.update_self, Shows, result]
    · simp only [Access.set, Instant.set, Function.update_of_ne same]
      exact related.shows u
  · by_cases same : u = t
    · subst same
      simp only [Access.set, Function.update_self] at looping
      cases looping
      exact files spot (by rwa [cwd])
    · simp only [Access.set, Function.update_of_ne same] at looping
      have outside := job.loopResult_outside a.disk track fits size found
        (by rw [cwd]; exact alone u job' c' spot looping locked)
      exact outside.trans (related.ahead u job' c' spot looping locked)
  · have outside := job.loopResult_outside a.disk track fits size found
      (by rw [cwd]; exact free t job c (Function.update_self ..))
    refine outside.trans (related.still spot fun u job' c' looping locked => ?_)
    have different : u ≠ t := by
      intro same
      rw [same, locking] at looping
      cases looping
    exact free u job' c' ((Function.update_of_ne different ..).trans looping) locked
  · exact (job.loopResult_sameTree track fits).trans related.sameTree

/-- A round of a loop is nothing new to those who have seen the whole loop. -/
theorem round (related : Matches w s a) (fits : w.Fits) {job : Job} {c : Cursor}
    (looping : s.phase t = .looping job c) {phase : Phase}
    (disciplined : Disciplined w { s.set t phase with disk := (job.round w c s.disk).1 })
    (shows : Shows w (job.round w c s.disk).1 phase (a.stage t))
    (goes : ∀ job' c', phase = .looping job' c' →
      (job'.loopResult w c' (job.round w c s.disk).1).1 = (job.loopResult w c s.disk).1)
    (ends : (∀ job' c', phase ≠ .looping job' c') → (job.round w c s.disk).1 = (job.loopResult w c s.disk).1) :
    Matches w { s.set t phase with disk := (job.round w c s.disk).1 } a := by
  obtain ⟨found, length, size, track⟩ := related.disciplined.looping looping
  have tree := @Job.round_sameTree w c s.disk job
  have cwd := tree.1.cwd
  have kept : ∀ spot, ¬ Locked w s t spot → s.disk.files spot = (job.round w c s.disk).1.files spot := by
    intro spot outside
    by_contra changed
    obtain ⟨file, place, rest, turn, rfl⟩ := Job.round_changes (Ne.symm changed)
    exact outside (track.reserves fits size found turn s.disk.cwd)
  have others : ∀ {u job' c'}, u ≠ t → s.phase u = .looping job' c' →
      (job'.loopResult w c' s.disk).2 = (job'.loopResult w c' (job.round w c s.disk).1).2 ∧
      ∀ spot, Locked w s u spot → (job'.loopResult w c' s.disk).1.files spot =
        (job'.loopResult w c' (job.round w c s.disk).1).1.files spot := by
    intro u job' c' different looping'
    obtain ⟨found', length', size', track'⟩ := related.disciplined.looping looping'
    refine job'.loopResult_frame track' fits size' found' tree.1.symm fun spot theirs => kept spot fun mine => ?_
    exact different (related.disciplined.locked_inj related.apart theirs mine)
  have same : ∀ {u spot}, Locked w { s.set t phase with disk := (job.round w c s.disk).1 } u spot ↔ Locked w s u spot := by
    intro u spot
    rw [Locked, Locked, cwd]
    rfl
  refine ⟨disciplined, fun u => ?_, fun u job' c' spot looping' locked => ?_, fun spot free => ?_, ?_, related.apart.alike tree.1⟩
  · by_cases same : u = t
    · subst same
      simp only [Access.set, Function.update_self]
      exact shows
    · have shown := related.shows u
      simp only [Access.set, Function.update_of_ne same]
      cases phaseOf : s.phase u with
      | idle =>
        rw [phaseOf] at shown
        exact shown
      | locking job' =>
        rw [phaseOf] at shown
        exact ⟨shown.1, tree.2.trans shown.2⟩
      | looping job' c' =>
        rw [phaseOf, Shows, (others same phaseOf).1] at shown
        exact shown
      | unlocking result =>
        rw [phaseOf] at shown
        exact shown
  · rw [same] at locked
    by_cases here : u = t
    · subst here
      simp only [Access.set, Function.update_self] at looping'
      exact (related.ahead u job c spot looping locked).trans (congrArg (·.files spot) (goes job' c' looping')).symm
    · simp only [Access.set, Function.update_of_ne here] at looping'
      exact (related.ahead u job' c' spot looping' locked).trans ((others here looping').2 spot locked)
  · have apart : ∀ u job' c', u ≠ t → s.phase u = .looping job' c' → ¬ Locked w s u spot :=
      fun u job' c' different looping' locked =>
        free u job' c' ((Function.update_of_ne different ..).trans looping') (same.mpr locked)
    by_cases mine : Locked w s t spot
    · have done : ∀ job' c', phase ≠ .looping job' c' := fun job' c' still =>
        free t job' c' ((Function.update_self ..).trans still) (same.mpr mine)
      exact (related.ahead t job c spot looping mine).trans (congrArg (·.files spot) (ends done)).symm
    · refine (related.still spot fun u job' c' looping' locked => ?_).trans (kept spot mine)
      by_cases here : u = t
      · exact mine (here ▸ locked)
      · exact apart u job' c' here looping' locked
  · exact related.sameTree.trans ⟨tree.1.symm, tree.2.symm⟩

end Matches

end Access

namespace Instant
variable {τ : Type} [DecidableEq τ] {w : DiskWriter} {a : Instant τ} {t : τ} {job : Job}

theorem set_self (stage : Stage) : (a.set t stage).stage t = stage := Function.update_self ..

theorem set_other {u : τ} (different : u ≠ t) (stage : Stage) : (a.set t stage).stage u = a.stage u :=
  Function.update_of_ne different ..

theorem set_set (first second : Stage) : (a.set t first).set t second = a.set t second := by
  simp only [set, Function.update_idem]

theorem called (w : DiskWriter) (job : Job) (idle : a.stage t = .idle) :
    exec (step w) unguarded a [.call t job] = some (a.set t (.asked job)) ∧
      trace (step w) event a [.call t job] = [.called t job] := by
  have first : step w a (.call t job) = some (a.set t (.asked job)) := by simp only [step, idle]
  rw [exec_unguarded_cons, trace_cons _ _ first, first]
  exact ⟨rfl, rfl⟩

theorem acted (w : DiskWriter) (asked : a.stage t = .asked job) :
    exec (step w) unguarded a [.act t] =
        some { a.set t (.answered job (job.perform w a.disk).2) with disk := (job.perform w a.disk).1 } ∧
      trace (step w) event a [.act t] = [] := by
  have first : step w a (.act t) =
      some { a.set t (.answered job (job.perform w a.disk).2) with disk := (job.perform w a.disk).1 } := by
    simp only [step, asked]
  rw [exec_unguarded_cons, trace_cons _ _ first, first]
  exact ⟨rfl, rfl⟩

theorem came_back (w : DiskWriter) {result : Except DiskError Bytes} (answered : a.stage t = .answered job result) :
    exec (step w) unguarded a [.back t] = some (a.set t .idle) ∧ trace (step w) event a [.back t] = [.returned t result] := by
  have first : step w a (.back t) = some (a.set t .idle) := by simp only [step, answered]
  rw [exec_unguarded_cons, trace_cons _ _ first, first, event, answered]
  exact ⟨rfl, rfl⟩

/-- A call that leaves the files alone. -/
theorem acted_still {error : DiskError} (asked : a.stage t = .asked job) (fails : job.perform w a.disk = (a.disk, .error error)) :
    exec (step w) unguarded a [.act t] = some (a.set t (.answered job (.error error))) := by
  rw [(acted w asked).1, fails]
  rfl

theorem called_acted {error : DiskError} (idle : a.stage t = .idle) (fails : job.perform w a.disk = (a.disk, .error error)) :
    exec (step w) unguarded a [.call t job, .act t] = some (a.set t (.answered job (.error error))) ∧
      trace (step w) event a [.call t job, .act t] = [.called t job] := by
  obtain ⟨first, seen⟩ := called w job idle
  have asked : (a.set t (.asked job)).stage t = .asked job := set_self _
  obtain ⟨same, seen'⟩ := exec_append event [Label.act t] first
  rw [List.singleton_append] at same seen'
  exact ⟨same.trans ((acted_still asked fails).trans (by rw [set_set])), by rw [seen', seen, (acted w asked).2, List.append_nil]⟩

end Instant

namespace Access
variable {τ : Type} [DecidableEq τ] {w : DiskWriter} {s s' : Access τ} {a : Instant τ} {t : τ}

theorem Matches.answer_call (related : Matches w s a) (idle : s.phase t = .idle) (job : Job) :
    ∃ moves a', exec (Instant.step w) unguarded a moves = some a' ∧
      trace (Instant.step w) Instant.event a moves = [.called t job] ∧ Matches w (s.call w t job) a' := by
  have shown := related.shows t
  rw [idle] at shown
  have disciplined := related.disciplined.call idle job
  have before : ∀ job c, s.phase t ≠ .looping job c := fun _ _ => by simp only [idle, ne_eq, reduceCtorEq, not_false_eq_true]
  have failed : ∀ {error}, job.perform w a.disk = (a.disk, .error error) → Disciplined w (s.set t (.unlocking (.error error))) →
      ∃ moves a', exec (Instant.step w) unguarded a moves = some a' ∧
        trace (Instant.step w) Instant.event a moves = [.called t job] ∧ Matches w (s.set t (.unlocking (.error error))) a' := by
    intro error fails disciplined
    obtain ⟨run, seen⟩ := Instant.called_acted shown fails
    exact ⟨_, _, run, seen, related.set s.locks disciplined ⟨job, rfl⟩ before (fun _ _ => by simp) fun _ _ => rfl⟩
  rw [Access.call] at disciplined ⊢
  split at disciplined
  case isTrue unready =>
    rw [if_pos unready]
    have fresh : a.disk.preallocated = false := related.sameTree.2.trans (Bool.not_eq_true' _ |>.mp unready)
    exact failed (job.perform_unready fresh) disciplined
  case isFalse ready =>
    rw [if_neg ready]
    have allocated : s.disk.preallocated = true := by simpa using ready
    split at disciplined
    case h_1 error unmapped =>
      exact failed (job.perform_refused (related.sameTree.2.trans allocated) (job.enter_of_unmapped unmapped)) disciplined
    case h_2 =>
      obtain ⟨run, seen⟩ := Instant.called w job shown
      exact ⟨_, _, run, seen, related.set _ disciplined ⟨rfl, allocated⟩ before (fun _ _ => by simp) fun _ _ => rfl⟩

/-- Locks that are taken or given back are of no interest outside. -/
theorem Matches.relock (related : Matches w s a) {locks : Table τ Nat} (disciplined : Disciplined w { s with locks := locks })
    (before : ∀ job c, s.phase t ≠ .looping job c) (others : ∀ u, u ≠ t → locks.held u = s.locks.held u) :
    Matches w { s with locks := locks } a := by
  have same : { s with locks := locks } = { s.set t (s.phase t) with locks := locks } := by
    simp only [Access.set, Function.update_eq_self]
  have same' : a = a.set t (a.stage t) := by simp only [Instant.set, Function.update_eq_self]
  rw [same] at disciplined ⊢
  rw [same']
  exact related.set _ disciplined (related.shows t) before before others

theorem acquire_others {locks after : Table τ Nat} (run : locks.acquire t = some after) :
    ∀ u, u ≠ t → after.held u = locks.held u := by
  rw [Table.acquire] at run
  split at run
  case h_1 => cases run
  case h_2 =>
    split at run
    case h_1 => cases run
    case h_2 =>
      cases run
      exact fun u different => Function.update_of_ne different ..

theorem release_others {locks after : Table τ Nat} (run : locks.release t = some after) :
    ∀ u, u ≠ t → after.held u = locks.held u := by
  rw [Table.release] at run
  split at run
  case h_1 => cases run
  case h_2 =>
    cases run
    exact fun u different => Function.update_of_ne different ..

theorem Matches.answer_go (related : Matches w s a) (fits : w.Fits) (run : s.go w t = some s') :
    ∃ moves a', exec (Instant.step w) unguarded a moves = some a' ∧
      trace (Instant.step w) Instant.event a moves = (s.event (.go t)).toList ∧ Matches w s' a' := by
  have shown := related.shows t
  have disciplined := related.disciplined.go fits run
  rw [Access.go] at run
  split at run
  case h_1 => cases run
  case h_2 job locking =>
    have before : ∀ job c, s.phase t ≠ .looping job c := fun _ _ => by simp only [locking, ne_eq, reduceCtorEq, not_false_eq_true]
    have quiet : (s.event (.go t)).toList = [] := by simp only [Access.event, locking, Option.toList_none]
    rw [locking] at shown
    obtain ⟨asked, ready⟩ := shown
    rw [quiet]
    split at run
    case h_1 =>
      split at run
      case h_1 c entered =>
        cases run
        obtain ⟨ran, seen⟩ := Instant.acted w asked
        exact ⟨_, _, ran, seen, related.enter fits locking disciplined entered⟩
      case h_2 error refused =>
        cases run
        have ran := Instant.acted_still asked (job.perform_refused (related.sameTree.2.trans ready) refused)
        exact ⟨_, _, ran, (Instant.acted w asked).2,
          related.set s.locks disciplined ⟨job, rfl⟩ before (fun _ _ => by simp) fun _ _ => rfl⟩
    case h_2 =>
      obtain ⟨locks, acquired, rfl⟩ := Option.map_eq_some_iff.mp run
      exact ⟨[], a, rfl, rfl, related.relock disciplined before (acquire_others acquired)⟩
  case h_3 job c looping =>
    have quiet : (s.event (.go t)).toList = [] := by simp only [Access.event, looping, Option.toList_none]
    have result := job.loopResult_round (w := w) c s.disk
    rw [looping, Shows] at shown
    refine ⟨[], a, rfl, quiet.symm, ?_⟩
    split at run
    case h_1 after next round =>
      cases run
      rw [round] at result
      have disk : after = (job.round w c s.disk).1 := by rw [round]
      subst disk
      refine related.round fits looping disciplined ?_ ?_ fun done => absurd rfl (done job next)
      · rw [Shows, shown, result]
      · intro job' c' same
        cases same
        rw [result]
    case h_2 after last round =>
      cases run
      rw [round] at result
      have disk : after = (job.round w c s.disk).1 := by rw [round]
      subst disk
      refine related.round fits looping disciplined ⟨job, ?_⟩ (fun _ _ same => by cases same) fun _ => by rw [result]
      rw [shown, result]
  case h_4 result unlocking =>
    have before : ∀ job c, s.phase t ≠ .looping job c := fun _ _ => by
      simp only [unlocking, ne_eq, reduceCtorEq, not_false_eq_true]
    rw [unlocking] at shown
    obtain ⟨job, answered⟩ := shown
    split at run
    case h_1 none =>
      cases run
      have loud : (s.event (.go t)).toList = [.returned t result] := by
        simp only [Access.event, unlocking, none, Option.toList_some]
      obtain ⟨ran, seen⟩ := Instant.came_back w answered
      rw [loud]
      exact ⟨_, _, ran, seen, related.set s.locks disciplined rfl before (fun _ _ => by simp) fun _ _ => rfl⟩
    case h_2 lock rest holds =>
      obtain ⟨locks, released, rfl⟩ := Option.map_eq_some_iff.mp run
      have quiet : (s.event (.go t)).toList = [] := by simp only [Access.event, unlocking, holds, Option.toList_none]
      exact ⟨[], a, rfl, quiet.symm, related.relock disciplined before (release_others released)⟩

/-- Every run of the threads with locks looks like a run in which each call is one step. -/
theorem simulated (fits : w.Fits) (start : Initial s) (apart : w.Apart s.disk) {labels : List (Label τ)}
    (run : exec (step w) unguarded s labels = some s') :
    ∃ moves a, exec (Instant.step w) unguarded (.start s.disk) moves = some a ∧
      trace (Instant.step w) Instant.event (.start s.disk) moves = trace (step w) event s labels ∧ Matches w s' a := by
  refine Machine.simulated ?_ (Matches.initial start apart) run
  intro s a s' label related run
  cases label with
  | call t job =>
    rw [step] at run
    split at run
    case h_1 idle =>
      cases run
      exact related.answer_call idle job
    case h_2 => cases run
  | go t => exact related.answer_go fits run

end Access

/-- If the output paths lead to different files: whatever the threads do, their callers see
a run in which every write and every read of a piece takes place at one instant between
its beginning and its end, and the files are those of that run whenever no thread is in
the middle of one. -/
theorem calls_take_place_at_once {outputDir : Path} {pieceSize totalSize : Nat} {layout : List (Path × Nat)} {w : DiskWriter}
    (made : make outputDir pieceSize totalSize layout = .ok w) (sum : (layout.map Prod.snd).sum = totalSize)
    (small : totalSize < 2 ^ 64) {τ : Type} [DecidableEq τ] {s s' : Access τ} (start : Access.Initial s)
    (distinct : (layout.map (fun entry => s.disk.place (outputDir / entry.1))).Nodup) {labels : List (Access.Label τ)}
    (run : exec (Access.step w) unguarded s labels = some s') :
    ∃ moves a, exec (Instant.step w) unguarded (.start s.disk) moves = some a ∧
      trace (Instant.step w) Instant.event (.start s.disk) moves = trace (Access.step w) Access.event s labels ∧
      ((∀ t job c, s'.phase t ≠ .looping job c) → a.disk = s'.disk) := by
  obtain ⟨moves, a, ran, looks, related⟩ :=
    Access.simulated (fits_of_make made sum small) start (apart_of_make made sum small distinct) run
  exact ⟨moves, a, ran, looks, related.disk_eq⟩

/-- Three files, of which the first piece lies in the first and in the last one. -/
def splitFiles : List (Path × Nat) := [(⟨text ['a']⟩, 2), (⟨text ['b']⟩, 0), (⟨text ['c']⟩, 3)]

/-- One thread writes the first piece, and another one wants to read it before that is done. -/
def interleaved : List (Access.Label Bool) :=
  [.call false ⟨0, some [1, 2, 3], .none⟩, .go false, .call true ⟨0, none, .none⟩, .go false, .go false, .go false, .go false,
    .go false, .go false, .go false, .go false, .go true, .go false, .go false, .go true, .go true, .go true, .go false,
    .go true, .go true, .go true, .go true, .go true, .go true, .go true, .go true]

def splitWriter : DiskWriter := ⟨⟨text ['o']⟩, 3, 5, [⟨⟨text ['a']⟩, 2, 0⟩, ⟨⟨text ['b']⟩, 0, 2⟩, ⟨⟨text ['c']⟩, 3, 2⟩]⟩

/-- The files of two bytes, of none and of three, full of zeros. -/
def blankDisk : Disk :=
  (splitWriter.preallocateFiles .none Disk.bare).1

def quietThreads : Access Bool := ⟨fun _ => .idle, .vacant, blankDisk⟩

theorem make_splitFiles : make ⟨text ['o']⟩ 3 5 splitFiles = .ok splitWriter := rfl

theorem interleaved_runs : (exec (Access.step splitWriter) unguarded quietThreads interleaved).isSome = true := rfl

/-- The read that began while the piece was being written gets all of it. -/
theorem calls_take_place_at_once_interleaved :
    ∃ s', exec (Access.step splitWriter) unguarded quietThreads interleaved = some s' ∧
      ∃ moves a, exec (Instant.step splitWriter) unguarded (.start blankDisk) moves = some a ∧
        trace (Instant.step splitWriter) Instant.event (.start blankDisk) moves =
          [.called false ⟨0, some [1, 2, 3], .none⟩, .called true ⟨0, none, .none⟩, .returned false (.ok []),
            .returned true (.ok [1, 2, 3])] ∧ a.disk = s'.disk := by
  have run := (Option.some_get interleaved_runs).symm
  have start : Access.Initial quietThreads := ⟨rfl, rfl⟩
  obtain ⟨moves, a, ran, looks, same⟩ := calls_take_place_at_once make_splitFiles rfl (by decide) start (by decide) run
  refine ⟨_, run, moves, a, ran, looks.trans rfl, same fun t job c looping => ?_⟩
  cases t
  · exact Phase.noConfusion looping
  · exact Phase.noConfusion looping

end BittorrentClient.DiskWriter
