import BittorrentClient.Disk.DiskWriter

namespace BittorrentClient.DiskWriter
open Cpp Splice

/-- Offsets follow one another without gaps from `base` on. -/
def Consecutive : Nat → List FileEntry → Prop
  | _, [] => True
  | base, file :: rest => file.offset = base ∧ Consecutive (base + file.length) rest

def totalLength (files : List FileEntry) : Nat := (files.map FileEntry.length).sum

@[simp] theorem totalLength_cons (file : FileEntry) (rest : List FileEntry) :
    totalLength (file :: rest) = file.length + totalLength rest := rfl

/-- The layouts under which the files make up one array: sizes that do not wrap. -/
structure Sound (w : DiskWriter) : Prop where
  pieceSize_pos : 0 < w.pieceSize
  pieceSize_lt : w.pieceSize < 2 ^ 32
  totalSize_lt : w.totalSize < 2 ^ 64
  consecutive : Consecutive 0 w.files
  total : totalLength w.files = w.totalSize

/-- Where the path of an output file leads to. -/
def filePlace (w : DiskWriter) (disk : Disk) (file : FileEntry) : Place := disk.place (w.absolutePath file)

/-- No two output paths lead to one file. -/
def Apart (w : DiskWriter) (disk : Disk) : Prop := (w.files.map (w.filePlace disk)).Nodup

instance (w : DiskWriter) (disk : Disk) : Decidable (w.Apart disk) := inferInstanceAs (Decidable (List.Nodup _))

/-- Every file exists with its full length. -/
def Stored (w : DiskWriter) (files : List FileEntry) (disk : Disk) : Prop :=
  ∀ file ∈ files, ∃ content, disk.content (w.absolutePath file) = some content ∧
    content.length = file.length ∧ file.length ≤ 2 ^ 63

/-- The concatenation of the files in layout order. -/
def flat (w : DiskWriter) (files : List FileEntry) (disk : Disk) : Bytes :=
  (files.map (fun file => (disk.content (w.absolutePath file)).getD [])).flatten

theorem flat_cons {w : DiskWriter} {file : FileEntry} {rest : List FileEntry} {disk : Disk} {content : Bytes}
    (atFile : disk.content (w.absolutePath file) = some content) :
    flat w (file :: rest) disk = content ++ flat w rest disk := by
  simp only [flat, List.map_cons, List.flatten_cons, atFile, Option.getD_some]

theorem flat_congr {w : DiskWriter} {files : List FileEntry} {disk disk' : Disk}
    (same : ∀ file ∈ files, disk'.content (w.absolutePath file) = disk.content (w.absolutePath file)) :
    flat w files disk' = flat w files disk := by
  unfold flat
  congr 1
  exact List.map_congr_left (fun file member => by rw [same file member])

theorem Stored.flat_length {w : DiskWriter} {files : List FileEntry} {disk : Disk} (stored : Stored w files disk) :
    (flat w files disk).length = totalLength files := by
  induction files with
  | nil => rfl
  | cons file rest ih =>
    obtain ⟨content, atFile, length, _⟩ := stored file (List.mem_cons_self ..)
    rw [flat_cons atFile, List.length_append, length, totalLength_cons,
      ih (fun f member => stored f (List.mem_cons_of_mem _ member))]

theorem Stored.congr {w : DiskWriter} {files : List FileEntry} {disk disk' : Disk} (stored : Stored w files disk)
    (same : ∀ file ∈ files, disk'.content (w.absolutePath file) = disk.content (w.absolutePath file)) :
    Stored w files disk' := by
  intro file member
  rw [same file member]
  exact stored file member

/-- Storing one file is invisible to the files at other places. -/
theorem store_other {w : DiskWriter} {rest : List FileEntry} {path : Path} (disk : Disk) (content : Bytes)
    (fresh : disk.place path ∉ rest.map (w.filePlace disk)) :
    ∀ file ∈ rest, (disk.store path content).content (w.absolutePath file) = disk.content (w.absolutePath file) := by
  intro file member
  refine FileTree.content_store_other fun same => fresh ?_
  rw [← same]
  exact List.mem_map_of_mem member

theorem store_self {disk : Disk} {path : Path} {old : Bytes} (atPath : disk.content path = some old) (content : Bytes) :
    (disk.store path content).content path = some content := FileTree.content_store_self atPath

/-- What a write to any of these files loses is noticed. -/
def Loud (w : DiskWriter) (faults : IoFaults) (files : List FileEntry) : Prop :=
  ∀ file ∈ files, faults.Tells (w.absolutePath file)

instance (w : DiskWriter) (faults : IoFaults) (files : List FileEntry) : Decidable (w.Loud faults files) :=
  inferInstanceAs (Decidable (∀ file ∈ files, _))

/-- Inside an existing file a write is an overwrite of what the device accepts. -/
theorem writeAt_cases {disk : Disk} (faults : IoFaults) (bytes : Bytes) {path : Path} {start : Nat}
    {content : Bytes} (atPath : disk.content path = some content) (small : start < 2 ^ 63) (inside : start ≤ content.length) :
    (∃ error, disk.writeAt faults path start bytes = (disk, .error error) ∧ faults.openFails path = true) ∨
    ∃ count, (∃ error, disk.writeAt faults path start bytes =
        (disk.store path (overwrite content start (bytes.take count)), .error error) ∧ faults.accepts path = some count) ∨
      disk.writeAt faults path start bytes = (disk.store path (overwrite content start (bytes.take count)), .ok ()) ∧
        (faults.Tells path → bytes.take count = bytes) := by
  have padded : content ++ List.replicate (start - content.length) 0 = content := by
    rw [Nat.sub_eq_zero_of_le inside, List.replicate_zero, List.append_nil]
  unfold Disk.writeAt
  rw [atPath]
  by_cases opens : faults.openFails path = true
  · left
    exact ⟨.writeOpenFailed path, by simp only [opens, if_true], opens⟩
  right
  simp only [opens, Bool.false_eq_true, if_false, if_neg (Nat.not_le.mpr small), padded]
  cases limit : faults.accepts path with
  | none => exact ⟨bytes.length, Or.inr ⟨by simp, fun _ => List.take_length⟩⟩
  | some count =>
    refine ⟨count, ?_⟩
    by_cases short : (bytes.take count).length < bytes.length ∧ faults.reports path = true
    · left
      exact ⟨.writeFailed path, by simp only [Option.getD_some, if_pos short], rfl⟩
    · right
      refine ⟨by simp only [Option.getD_some, if_neg short], fun tells => ?_⟩
      have reported := tells.resolve_left (by rw [limit]; exact Option.some_ne_none count)
      have whole : ¬(bytes.take count).length < bytes.length := fun less => short ⟨less, reported⟩
      rw [List.length_take] at whole
      exact List.take_of_length_le (by omega)

theorem sub64_eq {a b : Nat} (le : b ≤ a) (lt : a < 2 ^ 64) : sub64 a b = a - b := by
  unfold sub64
  omega

theorem u64_eq {n : Nat} (lt : n < 2 ^ 64) : u64 n = n := Nat.mod_eq_of_lt lt

theorem startInFile_eq {offset : Nat} {file : FileEntry} (le : file.offset ≤ offset) (lt : offset < 2 ^ 64) :
    startInFile offset file = offset - file.offset := by
  unfold startInFile
  split
  · exact sub64_eq le lt
  · omega

/-- The environment interferes with one of the files. -/
def IoFaults.Hits (faults : IoFaults) (w : DiskWriter) (files : List FileEntry) : Prop :=
  ∃ file ∈ files, faults.openFails (w.absolutePath file) = true ∨ (faults.accepts (w.absolutePath file)).isSome

/-- What a write of `bytes` at `offset` of the concatenation may do: it keeps
the shape of the files and directories, touches nothing else, patches only its own
range, does all of it when it reports success and nothing gets lost unnoticed, and
fails only through a fault. -/
structure WriteSpec (w : DiskWriter) (faults : IoFaults) (files : List FileEntry) (offset : Nat) (bytes : Bytes)
    (disk : Disk) (result : Disk × Except DiskError Nat) : Prop where
  stored : Stored w files result.1
  alike : result.1.Alike disk.toFileTree
  preallocated : result.1.preallocated = disk.preallocated
  others : ∀ place, place ∉ files.map (w.filePlace disk) → result.1.files place = disk.files place
  patched : Patched (flat w files disk) (flat w files result.1) offset bytes
  mapped : ∀ remaining, result.2 = .ok remaining → remaining = 0
  complete : w.Loud faults files → ∀ remaining, result.2 = .ok remaining →
    flat w files result.1 = overwrite (flat w files disk) offset bytes
  fails : ∀ error, result.2 = .error error → IoFaults.Hits faults w files

theorem WriteSpec.content_other {w : DiskWriter} {faults : IoFaults} {files : List FileEntry} {offset : Nat}
    {bytes : Bytes} {disk : Disk} {result : Disk × Except DiskError Nat} (spec : WriteSpec w faults files offset bytes disk result)
    {path : Path} (outside : disk.place path ∉ files.map (w.filePlace disk)) : result.1.content path = disk.content path := by
  refine spec.alike.content ?_
  rw [spec.alike.place]
  exact spec.others _ outside

theorem WriteSpec.unchanged {w : DiskWriter} {faults : IoFaults} {files : List FileEntry} {offset : Nat}
    {bytes : Bytes} {disk : Disk} {outcome : Except DiskError Nat} (stored : Stored w files disk)
    (finished : ∀ remaining, outcome = .ok remaining → remaining = 0 ∧ bytes = [])
    (fails : ∀ error, outcome = .error error → IoFaults.Hits faults w files) :
    WriteSpec w faults files offset bytes disk (disk, outcome) := by
  refine ⟨stored, .refl _, rfl, fun _ _ => rfl, Patched.refl _ _ _, fun remaining ok => (finished remaining ok).1, ?_, fails⟩
  intro _ remaining ok
  rw [(finished remaining ok).2, overwrite_nil]

theorem IoFaults.Hits.cons {faults : IoFaults} {w : DiskWriter} {file : FileEntry} {rest : List FileEntry}
    (hits : IoFaults.Hits faults w rest) : IoFaults.Hits faults w (file :: rest) := by
  obtain ⟨f, member, fault⟩ := hits
  exact ⟨f, List.mem_cons_of_mem _ member, fault⟩

/-- A file that ends before the write starts is skipped. -/
theorem WriteSpec.skip {w : DiskWriter} {faults : IoFaults} {file : FileEntry} {rest : List FileEntry} {offset : Nat} {bytes : Bytes}
    {disk : Disk} {result : Disk × Except DiskError Nat} (stored : Stored w (file :: rest) disk)
    (fresh : w.filePlace disk file ∉ rest.map (w.filePlace disk)) (past : file.length ≤ offset)
    (spec : WriteSpec w faults rest (offset - file.length) bytes disk result) :
    WriteSpec w faults (file :: rest) offset bytes disk result := by
  obtain ⟨content, atFile, length, bound⟩ := stored file (List.mem_cons_self ..)
  have atFile' := (spec.content_other fresh).trans atFile
  rw [← length] at past spec
  refine ⟨?_, spec.alike, spec.preallocated, ?_, ?_, spec.mapped, ?_, fun error failed => (spec.fails error failed).cons⟩
  · intro f member
    rcases List.mem_cons.mp member with rfl | member
    · exact ⟨content, atFile', length, bound⟩
    · exact spec.stored f member
  · intro place outside
    exact spec.others place (fun member => outside (List.mem_cons_of_mem _ member))
  · rw [flat_cons atFile, flat_cons atFile']
    exact spec.patched.append_right past
  · intro loud remaining ok
    rw [flat_cons atFile, flat_cons atFile', spec.complete (fun f member => loud f (List.mem_cons_of_mem _ member)) remaining ok,
      overwrite_append_right past]

/-- A write that starts in a file fills it to its end, as far as the device takes
it, and goes on at the start of the next one. -/
theorem WriteSpec.split {w : DiskWriter} {faults : IoFaults} {file : FileEntry} {rest : List FileEntry} {start count : Nat}
    {bytes content : Bytes} {disk : Disk} {result : Disk × Except DiskError Nat}
    (stored : Stored w (file :: rest) disk) (fresh : w.filePlace disk file ∉ rest.map (w.filePlace disk))
    (atFile : disk.content (w.absolutePath file) = some content) (inside : start ≤ content.length)
    (whole : faults.Tells (w.absolutePath file) → (bytes.take (content.length - start)).take count = bytes.take (content.length - start))
    (spec : WriteSpec w faults rest 0 (bytes.drop (content.length - start))
      (disk.store (w.absolutePath file) (overwrite content start ((bytes.take (content.length - start)).take count))) result) :
    WriteSpec w faults (file :: rest) start bytes disk result := by
  obtain ⟨content', atFile', length, bound⟩ := stored file (List.mem_cons_self ..)
  cases Option.some.inj (atFile'.symm.trans atFile)
  have fits : start + (bytes.take (content.length - start)).length ≤ content.length := by
    rw [List.length_take]
    omega
  have first := Patched.of_overwrite count fits
  have others := store_other disk (overwrite content start ((bytes.take (content.length - start)).take count)) fresh
  have written := (spec.content_other fresh).trans (store_self atFile _)
  have restSame := flat_congr others
  refine ⟨?_, spec.alike.trans FileTree.store_alike, spec.preallocated, ?_, ?_, spec.mapped, ?_,
    fun error failed => (spec.fails error failed).cons⟩
  · intro f member
    rcases List.mem_cons.mp member with rfl | member
    · exact ⟨_, written, first.length_eq.trans length, bound⟩
    · exact spec.stored f member
  · intro place outside
    have different : place ≠ w.filePlace disk file := fun same => outside (same ▸ List.mem_cons_self ..)
    rw [spec.others place (fun member => outside (List.mem_cons_of_mem _ member))]
    exact Function.update_of_ne different _ _
  · rw [flat_cons atFile, flat_cons written]
    exact Patched.append_split inside first (restSame ▸ spec.patched)
  · intro loud remaining ok
    rw [flat_cons atFile, flat_cons written, spec.complete (fun f member => loud f (List.mem_cons_of_mem _ member)) remaining ok,
      restSame, whole (loud file (List.mem_cons_self ..)), overwrite_append_split inside]

/-- A write that the device cuts short inside one file. -/
theorem WriteSpec.cut {w : DiskWriter} {faults : IoFaults} {file : FileEntry} {rest : List FileEntry} {start count : Nat}
    {bytes content : Bytes} {disk : Disk} {error : DiskError}
    (stored : Stored w (file :: rest) disk) (fresh : w.filePlace disk file ∉ rest.map (w.filePlace disk))
    (atFile : disk.content (w.absolutePath file) = some content) (inside : start ≤ content.length)
    (limited : faults.accepts (w.absolutePath file) = some count) :
    WriteSpec w faults (file :: rest) start bytes disk
      (disk.store (w.absolutePath file)
        (overwrite content start ((bytes.take (content.length - start)).take count)), .error error) := by
  obtain ⟨content', atFile', length, bound⟩ := stored file (List.mem_cons_self ..)
  cases Option.some.inj (atFile'.symm.trans atFile)
  have fits : start + (bytes.take (content.length - start)).length ≤ content.length := by
    rw [List.length_take]
    omega
  have first := Patched.of_overwrite count fits
  have others := store_other disk
    (overwrite content start ((bytes.take (content.length - start)).take count)) fresh
  have written := store_self atFile
    (overwrite content start ((bytes.take (content.length - start)).take count))
  have hit : IoFaults.Hits faults w (file :: rest) := ⟨file, List.mem_cons_self .., Or.inr (by rw [limited]; rfl)⟩
  refine ⟨?_, FileTree.store_alike, rfl, ?_, ?_, by rintro _ ⟨⟩, by rintro _ _ ⟨⟩, fun _ _ => hit⟩
  · intro f member
    rcases List.mem_cons.mp member with rfl | member
    · exact ⟨_, written, first.length_eq.trans length, bound⟩
    · rw [others f member]
      exact stored f (List.mem_cons_of_mem _ member)
  · intro place outside
    have different : place ≠ w.filePlace disk file := fun same => outside (same ▸ List.mem_cons_self ..)
    exact Function.update_of_ne different _ _
  · rw [flat_cons atFile, flat_cons written, flat_congr others]
    exact Patched.append_split inside first (Patched.refl _ _ _)

/-- Where a loop meets a file, and how much of the file is behind that place. -/
theorem startInFile_room {file : FileEntry} {base offset : Nat} {content : Bytes} (atBase : file.offset = base)
    (length : content.length = file.length) (behind : base ≤ offset) (before : offset < base + file.length)
    (small : base + file.length < 2 ^ 64) :
    startInFile offset file = offset - base ∧ sub64 file.length (offset - base) = content.length - (offset - base) := by
  constructor
  · rw [startInFile_eq (by omega) (by omega), atBase]
  · rw [sub64_eq (by omega) (by omega), length]

/-- The write loop, from any file of the layout on. The position is inside
the remaining files as long as something remains to be written. -/
theorem writeLoop_spec {w : DiskWriter} {faults : IoFaults} {data : Bytes} {files : List FileEntry}
    {base writeOffset remaining dataPos : Nat} {disk : Disk} (consecutive : Consecutive base files)
    (distinct : (files.map (w.filePlace disk)).Nodup) (stored : Stored w files disk)
    (small : base + totalLength files < 2 ^ 64) (rest : data.length = dataPos + remaining)
    (bounds : remaining = 0 ∨ base ≤ writeOffset ∧ writeOffset + remaining ≤ base + totalLength files) :
    WriteSpec w faults files (writeOffset - base) (data.drop dataPos) disk
      (writeLoop w faults data files writeOffset remaining dataPos disk) := by
  induction files generalizing base writeOffset remaining dataPos disk with
  | nil =>
    have zero : remaining = 0 := by
      simp only [totalLength, List.map_nil, List.sum_nil] at bounds
      omega
    refine WriteSpec.unchanged stored ?_ (by rintro _ ⟨⟩)
    rintro _ ⟨⟩
    exact ⟨zero, List.drop_eq_nil_of_le (by omega)⟩
  | cons file files ih =>
    obtain ⟨atBase, consecutive⟩ := consecutive
    obtain ⟨fresh, distinct⟩ := List.nodup_cons.mp distinct
    have storedRest : Stored w files disk := fun f member => stored f (List.mem_cons_of_mem _ member)
    obtain ⟨content, atFile, length, bound⟩ := stored file (List.mem_cons_self ..)
    rw [totalLength_cons] at small bounds
    unfold writeLoop
    by_cases zero : remaining = 0
    · rw [if_pos zero]
      refine WriteSpec.unchanged stored ?_ (by rintro _ ⟨⟩)
      rintro _ ⟨⟩
      exact ⟨zero, List.drop_eq_nil_of_le (by omega)⟩
    rw [if_neg zero, u64_eq (by omega), u64_eq (by omega), atBase]
    by_cases before : base + file.length ≤ writeOffset
    · rw [if_pos before]
      have later := @ih (base + file.length) writeOffset remaining dataPos disk consecutive distinct storedRest
        (by omega) rest (by omega)
      rw [← Nat.sub_sub] at later
      exact WriteSpec.skip stored fresh (by omega) later
    rw [if_neg before, if_neg (by omega)]
    obtain ⟨start, room⟩ := startInFile_room atBase length (by omega : base ≤ writeOffset) (by omega) (by omega)
    have left : remaining = data.length - dataPos := by omega
    have chunkBytes : slice data dataPos (min remaining (content.length - (writeOffset - base))) =
        (data.drop dataPos).take (content.length - (writeOffset - base)) := by rw [left, slice_min]
    simp only [start, room, chunkBytes]
    rcases writeAt_cases faults ((data.drop dataPos).take (content.length - (writeOffset - base))) atFile
        (by omega : writeOffset - base < 2 ^ 63) (by omega) with
      ⟨error, failed, closed⟩ | ⟨count, ⟨error, failed, limited⟩ | ⟨written, whole⟩⟩
    · rw [failed]
      exact WriteSpec.unchanged stored (by rintro _ ⟨⟩) (fun _ _ => ⟨file, List.mem_cons_self .., Or.inl closed⟩)
    · rw [failed]
      exact WriteSpec.cut stored fresh atFile (by omega) limited
    · rw [written]
      refine WriteSpec.split stored fresh atFile (by omega) whole ?_
      have later := @ih (base + file.length)
        (u64 (writeOffset + min remaining (content.length - (writeOffset - base))))
        (remaining - min remaining (content.length - (writeOffset - base)))
        (dataPos + min remaining (content.length - (writeOffset - base)))
        (disk.store (w.absolutePath file) (overwrite content (writeOffset - base)
          (((data.drop dataPos).take (content.length - (writeOffset - base))).take count)))
        consecutive distinct (storedRest.congr (store_other disk _ fresh)) (by omega) (by omega)
        (by rw [u64_eq (by omega)]; omega)
      have atStart : u64 (writeOffset + min remaining (content.length - (writeOffset - base))) -
          (base + file.length) = 0 := by
        rw [u64_eq (by omega)]
        omega
      have dropped : data.drop (dataPos + min remaining (content.length - (writeOffset - base))) =
          (data.drop dataPos).drop (content.length - (writeOffset - base)) := by rw [left, drop_add_min]
      rw [atStart, dropped] at later
      exact later

theorem readAt_cases {disk : Disk} (faults : IoFaults) {path : Path} {start chunk : Nat} {content : Bytes}
    (atPath : disk.content path = some content) (small : start < 2 ^ 63) (inside : start + chunk ≤ content.length) :
    (∃ error, disk.readAt faults path start chunk = .error error ∧ faults.openFails path = true) ∨
      disk.readAt faults path start chunk = .ok (slice content start chunk) := by
  unfold Disk.readAt
  rw [atPath]
  by_cases opens : faults.openFails path = true
  · exact Or.inl ⟨.readOpenFailed path, by simp only [opens, if_true], opens⟩
  · right
    simp only [opens, Bool.false_eq_true, if_false, if_neg (Nat.not_le.mpr small), slice_length inside, if_true]

/-- The read loop returns the bytes of its range, or fails through a fault. -/
theorem readLoop_spec {w : DiskWriter} {faults : IoFaults} {disk : Disk} {files : List FileEntry}
    {base readOffset remaining : Nat} {out : Bytes} (consecutive : Consecutive base files)
    (stored : Stored w files disk) (small : base + totalLength files < 2 ^ 64)
    (bounds : remaining = 0 ∨ base ≤ readOffset ∧ readOffset + remaining ≤ base + totalLength files) :
    readLoop w faults disk files readOffset remaining out =
      .ok (out ++ slice (flat w files disk) (readOffset - base) remaining, 0) ∨
    (∃ error, readLoop w faults disk files readOffset remaining out = .error error ∧ IoFaults.Hits faults w files) := by
  induction files generalizing base readOffset remaining out with
  | nil =>
    left
    have zero : remaining = 0 := by
      simp only [totalLength, List.map_nil, List.sum_nil] at bounds
      omega
    subst zero
    simp [readLoop, slice]
  | cons file files ih =>
    obtain ⟨atBase, consecutive⟩ := consecutive
    have storedRest : Stored w files disk := fun f member => stored f (List.mem_cons_of_mem _ member)
    obtain ⟨content, atFile, length, bound⟩ := stored file (List.mem_cons_self ..)
    rw [totalLength_cons] at small bounds
    unfold readLoop
    by_cases zero : remaining = 0
    · left
      subst zero
      simp [slice]
    rw [if_neg zero, u64_eq (by omega), u64_eq (by omega), atBase, flat_cons atFile]
    by_cases before : base + file.length ≤ readOffset
    · rw [if_pos before, slice_append_right (by omega), length, Nat.sub_sub]
      exact (@ih (base + file.length) readOffset remaining out consecutive storedRest (by omega)
        (by omega)).imp id fun later => later.imp fun _ found => ⟨found.1, found.2.cons⟩
    rw [if_neg before, if_neg (by omega)]
    obtain ⟨start, room⟩ := startInFile_room atBase length (by omega : base ≤ readOffset) (by omega) (by omega)
    simp only [start, room]
    rcases readAt_cases faults atFile (by omega : readOffset - base < 2 ^ 63)
        (by omega : readOffset - base + min remaining (content.length - (readOffset - base)) ≤ content.length) with
      ⟨error, failed, closed⟩ | found
    · rw [failed]
      exact Or.inr ⟨error, rfl, file, List.mem_cons_self .., Or.inl closed⟩
    · rw [found, slice_append_split (by omega), ← List.append_assoc]
      have later := @ih (base + file.length)
        (u64 (readOffset + min remaining (content.length - (readOffset - base))))
        (remaining - min remaining (content.length - (readOffset - base)))
        (out ++ slice content (readOffset - base) (min remaining (content.length - (readOffset - base))))
        consecutive storedRest (by omega) (by rw [u64_eq (by omega)]; omega)
      have atStart : u64 (readOffset + min remaining (content.length - (readOffset - base))) -
          (base + file.length) = 0 := by
        rw [u64_eq (by omega)]
        omega
      have left : remaining - min remaining (content.length - (readOffset - base)) =
          remaining - (content.length - (readOffset - base)) := by omega
      rw [atStart, left] at later
      rw [left]
      exact later.imp id fun later => later.imp fun _ found => ⟨found.1, found.2.cons⟩

/-- The piece indices that a `uint32_t` can name and the array contains. -/
def InRange (w : DiskWriter) (index : Nat) : Prop := index < 2 ^ 32 ∧ index * w.pieceSize < w.totalSize

instance (w : DiskWriter) (index : Nat) : Decidable (w.InRange index) := by
  unfold InRange
  infer_instance

/-- The bytes piece `index` occupies from `index * pieceSize` on. -/
def pieceBytes (w : DiskWriter) (index : Nat) : Nat := min w.pieceSize (w.totalSize - index * w.pieceSize)

theorem Sound.offset_lt {w : DiskWriter} (sound : w.Sound) {index : Nat} (inRange : w.InRange index) :
    index * w.pieceSize + w.pieceSize < 2 ^ 64 := by
  have size := sound.pieceSize_lt
  have product : index * w.pieceSize ≤ (2 ^ 32 - 1) * (2 ^ 32 - 1) :=
    Nat.mul_le_mul (by have := inRange.1; omega) (by omega)
  omega

theorem Sound.pieceGlobalOffset_eq {w : DiskWriter} (sound : w.Sound) {index : Nat} (inRange : w.InRange index) :
    w.pieceGlobalOffset index = index * w.pieceSize := by
  have bound := sound.offset_lt inRange
  exact u64_eq (by omega)

/-- No 64-bit sum wraps for an index in range: the largest one stays below
`2^64` because index and piece size are both below `2^32`. -/
theorem Sound.pieceLength_eq {w : DiskWriter} (sound : w.Sound) {index : Nat} (inRange : w.InRange index) :
    w.pieceLength index = .ok (w.pieceBytes index) := by
  have bound := sound.offset_lt inRange
  have size := sound.pieceSize_lt
  have total := sound.totalSize_lt
  have inside := inRange.2
  simp only [pieceLength, sound.pieceGlobalOffset_eq inRange, if_neg (Nat.not_le.mpr inside), u64_eq bound]
  rw [sub64_eq (by omega) (by omega), u32, Nat.mod_eq_of_lt (by omega), pieceBytes]
  congr 1
  omega

theorem pieceBytes_bound {w : DiskWriter} {index : Nat} (inRange : w.InRange index) :
    index * w.pieceSize + w.pieceBytes index ≤ w.totalSize := by
  have inside := inRange.2
  unfold pieceBytes
  omega

/-- A disk on which every file of the layout exists with its length, each in a place
of its own. -/
structure Ready (w : DiskWriter) (disk : Disk) : Prop where
  preallocated : disk.preallocated = true
  apart : w.Apart disk
  stored : Stored w w.files disk

/-- The flat array that the output files stand for. -/
def contents (w : DiskWriter) (disk : Disk) : Bytes := flat w w.files disk

theorem Ready.contents_length {w : DiskWriter} {disk : Disk} (ready : w.Ready disk) (sound : w.Sound) :
    (w.contents disk).length = w.totalSize :=
  ready.stored.flat_length.trans sound.total

theorem Apart.alike {w : DiskWriter} {disk after : Disk} (apart : w.Apart disk) (alike : after.Alike disk.toFileTree) :
    w.Apart after := by
  have places : w.filePlace after = w.filePlace disk := funext fun file => alike.place (w.absolutePath file)
  rw [Apart, places]
  exact apart

/-- One `write_piece` call on a sound layout: whatever the environment does,
only the piece's own range is patched; success means it holds the data, unless some
of it got lost unnoticed. -/
theorem writePiece_spec {w : DiskWriter} {disk : Disk} (sound : w.Sound) (ready : w.Ready disk) (faults : IoFaults)
    {index : Nat} (inRange : w.InRange index) {data : Bytes} (sized : data.length = w.pieceBytes index) :
    w.Ready (w.writePiece faults index data disk).1 ∧
    Patched (w.contents disk) (w.contents (w.writePiece faults index data disk).1) (index * w.pieceSize) data ∧
    ((w.writePiece faults index data disk).2 = .ok () ∧ (w.Loud faults w.files →
      w.contents (w.writePiece faults index data disk).1 =
        overwrite (w.contents disk) (index * w.pieceSize) data) ∨
    (∃ error, (w.writePiece faults index data disk).2 = .error error) ∧ IoFaults.Hits faults w w.files) := by
  have bound := pieceBytes_bound inRange
  have total := sound.total
  have small := sound.totalSize_lt
  have spec : WriteSpec w faults w.files (index * w.pieceSize - 0) (data.drop 0) disk
      (writeLoop w faults data w.files (index * w.pieceSize) data.length 0 disk) :=
    writeLoop_spec sound.consecutive ready.apart ready.stored (by omega) (by omega) (by omega)
  simp only [Nat.sub_zero, List.drop_zero] at spec
  simp only [writePiece, ready.preallocated, sound.pieceLength_eq inRange, sound.pieceGlobalOffset_eq inRange, sized,
    ne_eq, not_true_eq_false, if_false, Bool.not_true, Bool.false_eq_true]
  rw [sized] at spec
  cases outcome : writeLoop w faults data w.files (index * w.pieceSize) (w.pieceBytes index) 0 disk with
  | mk done result =>
    rw [outcome] at spec
    have kept : done.preallocated = true ∧ w.Apart done ∧ Stored w w.files done :=
      ⟨spec.preallocated.trans ready.preallocated, ready.apart.alike spec.alike, spec.stored⟩
    cases result with
    | ok remaining =>
      have zero := spec.mapped remaining rfl
      subst zero
      exact ⟨⟨kept.1, kept.2.1, kept.2.2⟩, spec.patched, Or.inl ⟨rfl, fun loud => spec.complete loud 0 rfl⟩⟩
    | error error => exact ⟨⟨kept.1, kept.2.1, kept.2.2⟩, spec.patched, Or.inr ⟨⟨error, rfl⟩, spec.fails error rfl⟩⟩

theorem readPiece_spec {w : DiskWriter} {disk : Disk} (sound : w.Sound) (ready : w.Ready disk) (faults : IoFaults)
    {index : Nat} (inRange : w.InRange index) :
    w.readPiece faults index disk = .ok (slice (w.contents disk) (index * w.pieceSize) (w.pieceBytes index)) ∨
      (∃ error, w.readPiece faults index disk = .error error) ∧ IoFaults.Hits faults w w.files := by
  have bound := pieceBytes_bound inRange
  have total := sound.total
  have small := sound.totalSize_lt
  have spec := @readLoop_spec w faults disk w.files 0 (index * w.pieceSize) (w.pieceBytes index) []
    sound.consecutive ready.stored (by omega) (by omega)
  simp only [Nat.sub_zero, List.nil_append] at spec
  simp only [readPiece, ready.preallocated, sound.pieceLength_eq inRange, sound.pieceGlobalOffset_eq inRange,
    Bool.not_true, Bool.false_eq_true, if_false]
  rcases spec with found | ⟨error, failed, hits⟩
  · left
    simp only [found, ne_eq, not_true_eq_false, if_false]
    rfl
  · right
    simp only [failed]
    exact ⟨⟨error, rfl⟩, hits⟩

end BittorrentClient.DiskWriter
