import BittorrentClient.Disk.Atomic
import BittorrentClient.Pieces.OnDisk

namespace BittorrentClient.DiskWriter
open Cpp Splice LockOrder Machine

section Plain
variable {w : DiskWriter} {disk : Disk} {job : Job}

theorem Job.perform_prepared (sound : w.Sound) (prepared : w.Prepared disk) (typed : job.index < 2 ^ 32) :
    w.Prepared (job.perform w disk).1 := by
  obtain ⟨index, data, faults⟩ := job
  cases data with
  | none => exact prepared
  | some data => exact (writePiece_pieces sound prepared faults typed data).1

/-- A call changes no piece but its own, and that one only if it writes. -/
theorem Job.perform_elsewhere (sound : w.Sound) (prepared : w.Prepared disk) (typed : job.index < 2 ^ 32) {index : Nat}
    (elsewhere : job.data = none ∨ job.index ≠ index) :
    w.pieceOnDisk (job.perform w disk).1 index = w.pieceOnDisk disk index := by
  obtain ⟨place, data, faults⟩ := job
  cases data with
  | none => rfl
  | some data =>
    have different : index ≠ place := Ne.symm (elsewhere.resolve_left (Option.some_ne_none data))
    exact (writePiece_pieces sound prepared faults typed data).2.1 index different

/-- A write that nothing disturbs replaces the whole piece, or is refused. -/
theorem Job.perform_write (sound : w.Sound) (prepared : w.Prepared disk) {index : Nat} (typed : index < 2 ^ 32) (data : Bytes) :
    w.pieceOnDisk (Job.perform w ⟨index, some data, .none⟩ disk).1 index = data ∨
      (Job.perform w ⟨index, some data, .none⟩ disk).1 = disk := by
  simp only [Job.perform]
  by_cases passes : disk.preallocated = true ∧ w.InRange index ∧ data.length = w.pieceBytes index
  case pos =>
    obtain ⟨allocated, inRange, sized⟩ := passes
    left
    rcases (writePiece_spec sound ⟨allocated, prepared.apart, prepared.stored allocated⟩ .none inRange sized).2.2 with ⟨done, _⟩ | ⟨_, hits⟩
    · exact (writePiece_pieces sound prepared .none typed data).2.2.1 (none_loud w w.files) done
    · exact absurd hits (none_not_hits w w.files)
  case neg =>
    obtain ⟨error, refused⟩ := writePiece_refused sound .none typed passes
    right
    rw [refused]

end Plain

namespace Event
variable {τ : Type} [DecidableEq τ]

/-- The call that a thread has made last. -/
def lastCall (t : τ) (seen : List (Event τ)) : Option Job :=
  (seen.filterMap fun
    | .called u job => if u = t then some job else none
    | .returned _ _ => none).getLast?

theorem lastCall_called (t : τ) (job : Job) (seen : List (Event τ)) : lastCall t (seen ++ [.called t job]) = some job := by
  simp [lastCall, List.filterMap_append]

theorem lastCall_called_other {t u : τ} (different : u ≠ t) (job : Job) (seen : List (Event τ)) :
    lastCall t (seen ++ [.called u job]) = lastCall t seen := by
  simp [lastCall, List.filterMap_append, different]

theorem lastCall_returned (t u : τ) (result : Except DiskError Bytes) (seen : List (Event τ)) :
    lastCall t (seen ++ [.returned u result]) = lastCall t seen := by
  simp [lastCall, List.filterMap_append]

end Event

section Whole
variable {τ : Type} (w : DiskWriter) (initial : Bytes) (index : Nat)

/-- Indices are 32 bits wide, and nothing disturbs the writes of this piece. -/
def Undisturbed (seen : List (Event τ)) : Prop :=
  (∀ t job, Event.called t job ∈ seen → job.index < 2 ^ 32) ∧
    ∀ t data faults, Event.called t ⟨index, some data, faults⟩ ∈ seen → faults = .none

/-- What the piece was at first, or what somebody has set out to write. -/
def FromOneWrite (seen : List (Event τ)) (bytes : Bytes) : Prop :=
  bytes = initial ∨ ∃ t faults, Event.called t ⟨index, some bytes, faults⟩ ∈ seen

variable {initial index} {seen : List (Event τ)}

theorem Undisturbed.before {later : List (Event τ)} (undisturbed : Undisturbed index (seen ++ later)) : Undisturbed index seen :=
  ⟨fun t job member => undisturbed.1 t job (List.mem_append_left later member),
    fun t data faults member => undisturbed.2 t data faults (List.mem_append_left later member)⟩

theorem FromOneWrite.later {bytes : Bytes} (found : FromOneWrite initial index seen bytes) (more : List (Event τ)) :
    FromOneWrite initial index (seen ++ more) bytes := by
  rcases found with same | ⟨t, faults, member⟩
  · exact Or.inl same
  · exact Or.inr ⟨t, faults, List.mem_append_left more member⟩

variable [DecidableEq τ] (initial index)

/-- What the threads without locks know of the piece. -/
structure Whole (s : Instant τ) (seen : List (Event τ)) : Prop where
  prepared : w.Prepared s.disk
  piece : FromOneWrite initial index seen (w.pieceOnDisk s.disk index)
  asked : ∀ t job, s.stage t = .asked job → Event.lastCall t seen = some job ∧ Event.called t job ∈ seen
  answered : ∀ t job result, s.stage t = .answered job result → Event.lastCall t seen = some job ∧
    ∀ bytes faults, job = ⟨index, none, faults⟩ → result = .ok bytes → FromOneWrite initial index seen bytes

variable {w initial index}

namespace Whole
variable {s s' : Instant τ} {t : τ} {job : Job}

theorem call (whole : Whole w initial index s seen) (job : Job) :
    Whole w initial index (s.set t (.asked job)) (seen ++ [.called t job]) := by
  refine ⟨whole.prepared, whole.piece.later _, fun u job' asked => ?_, fun u job' result answered => ?_⟩
  · by_cases same : u = t
    · subst same
      rw [Instant.set_self] at asked
      cases asked
      exact ⟨Event.lastCall_called u job seen, List.mem_append_right seen List.mem_cons_self⟩
    · rw [Instant.set_other same] at asked
      obtain ⟨last, member⟩ := whole.asked u job' asked
      exact ⟨(Event.lastCall_called_other (Ne.symm same) job seen).trans last, List.mem_append_left _ member⟩
  · by_cases same : u = t
    · subst same
      rw [Instant.set_self] at answered
      cases answered
    · rw [Instant.set_other same] at answered
      obtain ⟨last, found⟩ := whole.answered u job' result answered
      exact ⟨(Event.lastCall_called_other (Ne.symm same) job seen).trans last,
        fun bytes faults read ok => (found bytes faults read ok).later _⟩

theorem act (sound : w.Sound) (whole : Whole w initial index s seen) (undisturbed : Undisturbed index seen)
    (asked : s.stage t = .asked job) :
    Whole w initial index { s.set t (.answered job (job.perform w s.disk).2) with disk := (job.perform w s.disk).1 } seen := by
  obtain ⟨last, member⟩ := whole.asked t job asked
  have typed := undisturbed.1 t job member
  refine ⟨job.perform_prepared sound whole.prepared typed, ?_, fun u job' asked' => ?_, fun u job' result answered => ?_⟩
  · obtain ⟨place, data, faults⟩ := job
    by_cases here : place = index
    · subst here
      cases data with
      | none => exact whole.piece
      | some data =>
        cases undisturbed.2 t data faults member
        rcases Job.perform_write sound whole.prepared typed data with written | refused
        · rw [written]
          exact Or.inr ⟨t, _, member⟩
        · rw [refused]
          exact whole.piece
    · rw [Job.perform_elsewhere sound whole.prepared typed (Or.inr here)]
      exact whole.piece
  · by_cases same : u = t
    · subst same
      simp only [Instant.set, Function.update_self] at asked'
      cases asked'
    · simp only [Instant.set, Function.update_of_ne same] at asked'
      exact whole.asked u job' asked'
  · by_cases same : u = t
    · subst same
      simp only [Instant.set, Function.update_self] at answered
      cases answered
      refine ⟨last, fun bytes faults read ok => ?_⟩
      subst read
      rw [readPiece_pieceOnDisk sound whole.prepared typed ok]
      exact whole.piece
    · simp only [Instant.set, Function.update_of_ne same] at answered
      exact whole.answered u job' result answered

theorem back (whole : Whole w initial index s seen) (result : Except DiskError Bytes) :
    Whole w initial index (s.set t .idle) (seen ++ [.returned t result]) := by
  refine ⟨whole.prepared, whole.piece.later _, fun u job' asked => ?_, fun u job' result' answered => ?_⟩
  · by_cases same : u = t
    · subst same
      rw [Instant.set_self] at asked
      cases asked
    · rw [Instant.set_other same] at asked
      obtain ⟨last, member⟩ := whole.asked u job' asked
      exact ⟨(Event.lastCall_returned u t result seen).trans last, List.mem_append_left _ member⟩
  · by_cases same : u = t
    · subst same
      rw [Instant.set_self] at answered
      cases answered
    · rw [Instant.set_other same] at answered
      obtain ⟨last, found⟩ := whole.answered u job' result' answered
      exact ⟨(Event.lastCall_returned u t result seen).trans last,
        fun bytes faults read ok => (found bytes faults read ok).later _⟩

end Whole

/-- What an event says of the events before it: a read that comes back with bytes has
one write or the beginning to show for them. -/
def ReadsWhole (initial : Bytes) (index : Nat) (seen : List (Event τ)) (event : Event τ) : Prop :=
  ∀ t bytes faults, event = .returned t (.ok bytes) → Event.lastCall t seen = some ⟨index, none, faults⟩ →
    Undisturbed index seen → FromOneWrite initial index seen bytes

theorem Whole.step (sound : w.Sound) (s s' : Instant τ) (label : Instant.Label τ) (seen : List (Event τ))
    (whole : Undisturbed index seen → Whole w initial index s seen) (run : s.step w label = some s') :
    (Undisturbed index (seen ++ (s.event label).toList) → Whole w initial index s' (seen ++ (s.event label).toList)) ∧
      ∀ event, s.event label = some event → ReadsWhole initial index seen event := by
  cases label with
  | call t job =>
    rw [Instant.step] at run
    split at run
    case h_1 =>
      cases run
      refine ⟨fun undisturbed => (whole undisturbed.before).call job, fun event seen' => ?_⟩
      cases seen'
      intro _ _ _ same
      cases same
    case h_2 => cases run
  | act t =>
    rw [Instant.step] at run
    split at run
    case h_1 job asked =>
      cases run
      rw [Instant.event, Option.toList_none, List.append_nil]
      refine ⟨fun undisturbed => (whole undisturbed).act sound undisturbed asked, fun event seen' => ?_⟩
      cases seen'
    case h_2 => cases run
  | back t =>
    rw [Instant.step] at run
    split at run
    case h_1 job result answered =>
      cases run
      have loud : s.event (.back t) = some (.returned t result) := by rw [Instant.event, answered]
      rw [loud]
      refine ⟨fun undisturbed => (whole undisturbed.before).back result, fun event seen' => ?_⟩
      cases seen'
      intro u bytes faults same last undisturbed
      cases same
      obtain ⟨last', found⟩ := (whole undisturbed).answered t job _ answered
      exact found bytes faults (Option.some.inj (last'.symm.trans last)) rfl
    case h_2 => cases run

end Whole

/-- What the constructor builds is sound, if the sizes add up. -/
theorem sound_of_make {outputDir : Path} {pieceSize totalSize : Nat} {layout : List (Path × Nat)} {w : DiskWriter}
    (made : make outputDir pieceSize totalSize layout = .ok w) (sum : (layout.map Prod.snd).sum = totalSize)
    (small : totalSize < 2 ^ 64) (sizeSmall : pieceSize < 2 ^ 32) : w.Sound := by
  have positive : 0 < pieceSize ∧ 0 < totalSize := by
    simp only [make] at made
    split_ifs at made with zeroPiece zeroTotal
    exact ⟨Nat.pos_of_ne_zero zeroPiece, Nat.pos_of_ne_zero zeroTotal⟩
  obtain ⟨built, made', sound⟩ := make_sound sum positive.2 small positive.1 sizeSmall
  cases made.symm.trans made'
  exact sound

/-- If the output paths lead to different files: however the threads get in each other's
way, a piece that is read is what it was at first or what one write brought, from its
first byte to its last. -/
theorem reads_are_whole {outputDir : Path} {pieceSize totalSize : Nat} {layout : List (Path × Nat)} {w : DiskWriter}
    (made : make outputDir pieceSize totalSize layout = .ok w) (sum : (layout.map Prod.snd).sum = totalSize)
    (small : totalSize < 2 ^ 64) (sizeSmall : pieceSize < 2 ^ 32) {τ : Type} [DecidableEq τ] {s s' : Access τ}
    (start : Access.Initial s) (distinct : (layout.map (fun entry => s.disk.place (outputDir / entry.1))).Nodup)
    (stored : Stored w w.files s.disk) {labels : List (Access.Label τ)}
    (run : exec (Access.step w) unguarded s labels = some s')
    {before after : List (Event τ)} {t : τ} {bytes : Bytes}
    (seen : trace (Access.step w) Access.event s labels = before ++ .returned t (.ok bytes) :: after)
    {index : Nat} {faults : IoFaults} (asked : Event.lastCall t before = some ⟨index, none, faults⟩)
    (typed : ∀ u job, Event.called u job ∈ before → job.index < 2 ^ 32)
    (undisturbed : ∀ u data faults, Event.called u ⟨index, some data, faults⟩ ∈ before → faults = .none) :
    bytes = w.pieceOnDisk s.disk index ∨ ∃ u faults, Event.called u ⟨index, some bytes, faults⟩ ∈ before := by
  have sound := sound_of_make made sum small sizeSmall
  have apart := apart_of_make made sum small distinct
  obtain ⟨moves, a, ran, looks, _⟩ := Access.simulated (fits_of_make made sum small) start apart run
  have base : Undisturbed index ([] : List (Event τ)) →
      Whole w (w.pieceOnDisk s.disk index) index (Instant.start s.disk) ([] : List (Event τ)) := fun _ =>
    ⟨⟨apart, fun _ => stored⟩, Or.inl rfl, fun _ _ asked => Stage.noConfusion asked, fun _ _ _ answered => Stage.noConfusion answered⟩
  obtain ⟨_, each⟩ := trace_invariant (P := fun s seen => Undisturbed index seen → Whole w (w.pieceOnDisk _ index) index s seen)
    (fun s s' label seen whole run => Whole.step sound s s' label seen whole run) base ran
  have found := each before _ after (looks.trans seen)
  rw [List.nil_append] at found
  exact found t bytes faults rfl asked ⟨typed, undisturbed⟩

/-- What was seen before the read that began while the piece was being written came back. -/
def seenBefore : List (Event Bool) :=
  [.called false ⟨0, some [1, 2, 3], .none⟩, .called true ⟨0, none, .none⟩, .returned false (.ok [])]

theorem reads_are_whole_interleaved :
    ([1, 2, 3] : Bytes) = splitWriter.pieceOnDisk blankDisk 0 ∨
      ∃ u faults, Event.called u ⟨0, some [1, 2, 3], faults⟩ ∈ seenBefore := by
  have run := (Option.some_get interleaved_runs).symm
  have stored : Stored splitWriter splitWriter.files quietThreads.disk := by
    intro file member
    simp only [splitWriter, List.mem_cons, List.not_mem_nil, or_false] at member
    rcases member with rfl | rfl | rfl
    · exact ⟨[0, 0], rfl, rfl, by decide⟩
    · exact ⟨[], rfl, rfl, by decide⟩
    · exact ⟨[0, 0, 0], rfl, rfl, by decide⟩
  have seen : trace (Access.step splitWriter) Access.event quietThreads interleaved =
      seenBefore ++ .returned true (.ok [1, 2, 3]) :: [] := rfl
  have asked : Event.lastCall true seenBefore = some ⟨0, none, .none⟩ := rfl
  refine reads_are_whole make_splitFiles rfl (by decide) (by decide) ⟨rfl, rfl⟩ (by decide) stored run seen asked ?_ ?_
  · intro u job member
    simp only [seenBefore, List.mem_cons, List.not_mem_nil, or_false, reduceCtorEq, Event.called.injEq] at member
    rcases member with ⟨_, rfl⟩ | ⟨_, rfl⟩
    · decide
    · decide
  · intro u data faults member
    simp only [seenBefore, List.mem_cons, List.not_mem_nil, or_false, reduceCtorEq, Event.called.injEq, Job.mk.injEq, true_and,
      and_false, false_and] at member
    exact member.2.2

end BittorrentClient.DiskWriter
