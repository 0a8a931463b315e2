import BittorrentClient.Disk.FlatArray

namespace BittorrentClient
open Cpp Splice

/-- One call on a preallocated `DiskWriter`. -/
inductive DiskOp
  | write (index : Nat) (data : Bytes)
  | read (index : Nat)

namespace DiskOp

/-- An index in range and, for a write, data of the piece's length. -/
def Valid (w : DiskWriter) : DiskOp → Prop
  | .write index data => w.InRange index ∧ w.pieceLength index = .ok data.length
  | .read index => w.InRange index

/-- The call on the files; a read returns its bytes. -/
def run (w : DiskWriter) : DiskOp → Disk → Disk × Except DiskError (Option Bytes)
  | .write index data, disk =>
    match w.writePiece .none index data disk with
    | (done, .ok _) => (done, .ok none)
    | (failed, .error error) => (failed, .error error)
  | .read index, disk => (disk, (w.readPiece .none index disk).map some)

/-- The call on one flat array. -/
def apply (w : DiskWriter) : DiskOp → Bytes → Bytes × Option Bytes
  | .write index data, array => (overwrite array (index * w.pieceSize) data, none)
  | .read index, array => (array, some (slice array (index * w.pieceSize) (w.pieceBytes index)))

def runAll (w : DiskWriter) : List DiskOp → Disk → Disk × List (Except DiskError (Option Bytes))
  | [], disk => (disk, [])
  | op :: rest, disk =>
    let (next, result) := op.run w disk
    let (last, results) := runAll w rest next
    (last, result :: results)

def applyAll (w : DiskWriter) : List DiskOp → Bytes → Bytes × List (Option Bytes)
  | [], array => (array, [])
  | op :: rest, array =>
    let (next, result) := op.apply w array
    let (last, results) := applyAll w rest next
    (last, result :: results)

end DiskOp

namespace DiskWriter

theorem none_loud (w : DiskWriter) (files : List FileEntry) : w.Loud .none files := fun _ _ => Or.inl rfl

theorem none_not_hits (w : DiskWriter) (files : List FileEntry) : ¬IoFaults.Hits .none w files := by
  rintro ⟨file, _, closed | limited⟩
  · exact absurd closed (by simp [IoFaults.none])
  · exact absurd limited (by simp [IoFaults.none])

/-- One call refines the same call on the flat array. -/
theorem run_refines {w : DiskWriter} (sound : w.Sound) {disk : Disk} (ready : w.Ready disk) {op : DiskOp}
    (valid : op.Valid w) : w.Ready (op.run w disk).1 ∧
      w.contents (op.run w disk).1 = (op.apply w (w.contents disk)).1 ∧
      (op.run w disk).2 = .ok (op.apply w (w.contents disk)).2 := by
  cases op with
  | write index data =>
    obtain ⟨inRange, sized⟩ := valid
    rw [sound.pieceLength_eq inRange] at sized
    obtain ⟨kept, _, ⟨done, written⟩ | ⟨_, hits⟩⟩ :=
      writePiece_spec sound ready .none inRange (Except.ok.inj sized).symm
    · cases outcome : w.writePiece .none index data disk with
      | mk after result =>
        rw [outcome] at kept done written
        cases done
        simp only [DiskOp.run, outcome]
        exact ⟨kept, written (none_loud w w.files), rfl⟩
    · exact absurd hits (none_not_hits w w.files)
  | read index =>
    rcases readPiece_spec sound ready .none valid with found | ⟨_, hits⟩
    · simp only [DiskOp.run, found]
      exact ⟨ready, rfl, rfl⟩
    · exact absurd hits (none_not_hits w w.files)

theorem runAll_refines {w : DiskWriter} (sound : w.Sound) {ops : List DiskOp} (valid : ∀ op ∈ ops, op.Valid w)
    {disk : Disk} (ready : w.Ready disk) :
    w.contents (DiskOp.runAll w ops disk).1 = (DiskOp.applyAll w ops (w.contents disk)).1 ∧
      (DiskOp.runAll w ops disk).2 = (DiskOp.applyAll w ops (w.contents disk)).2.map .ok := by
  induction ops generalizing disk with
  | nil => exact ⟨rfl, rfl⟩
  | cons op rest ih =>
    obtain ⟨ready', same, result⟩ := run_refines sound ready (valid op (List.mem_cons_self ..))
    obtain ⟨contents, results⟩ := ih (fun o member => valid o (List.mem_cons_of_mem _ member)) ready'
    rw [same] at contents results
    simp only [DiskOp.runAll, DiskOp.applyAll]
    exact ⟨contents, by rw [results, result, List.map_cons]⟩

/-- The ranges of two pieces do not meet. -/
theorem pieces_apart (w : DiskWriter) {i j : Nat} (different : i ≠ j) :
    i * w.pieceSize + w.pieceBytes i ≤ j * w.pieceSize ∨ j * w.pieceSize + w.pieceBytes j ≤ i * w.pieceSize := by
  have first : w.pieceBytes i ≤ w.pieceSize := Nat.min_le_left _ _
  have second : w.pieceBytes j ≤ w.pieceSize := Nat.min_le_left _ _
  rcases Nat.lt_or_gt_of_ne different with less | greater
  · left
    have step := Nat.mul_le_mul_right w.pieceSize (Nat.succ_le_of_lt less)
    rw [Nat.succ_mul] at step
    omega
  · right
    have step := Nat.mul_le_mul_right w.pieceSize (Nat.succ_le_of_lt greater)
    rw [Nat.succ_mul] at step
    omega

/-- Writing pieces one after another, each at most once: a piece that has its
turn holds its data at the end, the others are left as they were. -/
theorem applyAll_writes (w : DiskWriter) (pieces : Nat → Bytes) {order : List Nat} (distinct : order.Nodup)
    (sized : ∀ i ∈ order, (pieces i).length = w.pieceBytes i ∧ i * w.pieceSize < w.totalSize) {array : Bytes}
    (length : array.length = w.totalSize) :
    (DiskOp.applyAll w (order.map (fun i => .write i (pieces i))) array).1.length = w.totalSize ∧
    ∀ i, slice (DiskOp.applyAll w (order.map (fun i => .write i (pieces i))) array).1 (i * w.pieceSize)
        (w.pieceBytes i) =
      if i ∈ order then pieces i else slice array (i * w.pieceSize) (w.pieceBytes i) := by
  induction order generalizing array with
  | nil => exact ⟨length, fun i => by simp [DiskOp.applyAll]⟩
  | cons j rest ih =>
    obtain ⟨fresh, distinct⟩ := List.nodup_cons.mp distinct
    obtain ⟨jLength, jInside⟩ := sized j (List.mem_cons_self ..)
    have fits : j * w.pieceSize + (pieces j).length ≤ array.length := by
      rw [jLength, length, pieceBytes]
      omega
    obtain ⟨total, rest_⟩ := ih distinct (fun i member => sized i (List.mem_cons_of_mem _ member))
      ((overwrite_length fits).trans length)
    refine ⟨total, ?_⟩
    intro i
    simp only [List.map_cons, DiskOp.applyAll, DiskOp.apply, rest_, List.mem_cons]
    by_cases later : i ∈ rest
    · simp only [later, or_true, if_true]
    · by_cases same : i = j
      · subst i
        simp only [fresh, or_false, if_true, if_false]
        rw [← jLength]
        exact slice_overwrite_self fits
      · simp only [later, same, or_false, if_false]
        have apart := pieces_apart w same
        rw [← jLength] at apart
        exact slice_overwrite_apart fits apart

/-- The number of pieces that cover the array. -/
def pieceCount (w : DiskWriter) : Nat := (w.totalSize + w.pieceSize - 1) / w.pieceSize

theorem Sound.lt_pieceCount {w : DiskWriter} (sound : w.Sound) {i : Nat} (below : i < w.pieceCount) :
    i * w.pieceSize < w.totalSize := by
  have positive := sound.pieceSize_pos
  have product : (i + 1) * w.pieceSize ≤ w.totalSize + w.pieceSize - 1 := by
    rw [← Nat.le_div_iff_mul_le positive]
    exact below
  rw [Nat.succ_mul] at product
  omega

theorem Sound.total_le {w : DiskWriter} (sound : w.Sound) : w.totalSize ≤ w.pieceCount * w.pieceSize := by
  have positive := sound.pieceSize_pos
  have above := Nat.lt_succ_self w.pieceCount
  rw [pieceCount, Nat.div_lt_iff_lt_mul positive, Nat.succ_mul] at above
  rw [pieceCount]
  omega

theorem writes_all_pieces {w : DiskWriter} (sound : w.Sound) {pieces : Nat → Bytes} {order : List Nat}
    (once : order.Perm (List.range w.pieceCount)) (sized : ∀ i < w.pieceCount, (pieces i).length = w.pieceBytes i)
    {array : Bytes} (length : array.length = w.totalSize) :
    (DiskOp.applyAll w (order.map (fun i => .write i (pieces i))) array).1 =
      ((List.range w.pieceCount).map pieces).flatten := by
  have members : ∀ i, i ∈ order ↔ i < w.pieceCount := fun i => once.mem_iff.trans List.mem_range
  obtain ⟨total, written⟩ := applyAll_writes w pieces (once.nodup_iff.mpr List.nodup_range)
    (fun i member => ⟨sized i ((members i).mp member), sound.lt_pieceCount ((members i).mp member)⟩) length
  have whole := flatten_slices (DiskOp.applyAll w (order.map (fun i => .write i (pieces i))) array).1
    w.pieceSize w.pieceCount
  rw [List.take_of_length_le (by rw [total]; exact sound.total_le), total] at whole
  rw [← whole]
  congr 1
  apply List.map_congr_left
  intro i member
  have here := written i
  rwa [if_pos ((members i).mpr (List.mem_range.mp member))] at here

/-- Offsets of the constructor's loop, for lengths whose sum does not wrap. -/
theorem layoutFiles_spec {running : Nat} {fileLayout : List (Path × Nat)}
    (small : running + (fileLayout.map Prod.snd).sum < 2 ^ 64) :
    Consecutive running (layoutFiles running fileLayout).1 ∧
      (layoutFiles running fileLayout).2 = running + (fileLayout.map Prod.snd).sum ∧
      (layoutFiles running fileLayout).1.map (fun file => (file.relPath, file.length)) = fileLayout := by
  induction fileLayout generalizing running with
  | nil => exact ⟨trivial, rfl, rfl⟩
  | cons entry rest ih =>
    obtain ⟨relPath, length⟩ := entry
    simp only [List.map_cons, List.sum_cons] at small ⊢
    obtain ⟨consecutive, total, files⟩ := @ih (running + length) (by omega)
    simp only [layoutFiles, u64_eq (by omega : running + length < 2 ^ 64)]
    exact ⟨⟨rfl, consecutive⟩, by omega, by simp only [List.map_cons, files]⟩

/-- The constructor accepts every layout whose sizes add up, and what it builds is sound. -/
theorem make_sound {outputDir : Path} {pieceSize totalSize : Nat} {fileLayout : List (Path × Nat)}
    (sum : (fileLayout.map Prod.snd).sum = totalSize) (positive : 0 < totalSize) (small : totalSize < 2 ^ 64)
    (sizePositive : 0 < pieceSize) (sizeSmall : pieceSize < 2 ^ 32) :
    ∃ w, make outputDir pieceSize totalSize fileLayout = .ok w ∧ w.Sound := by
  obtain ⟨consecutive, total, files⟩ := @layoutFiles_spec 0 fileLayout (by omega)
  have nonempty : (layoutFiles 0 fileLayout).1 ≠ [] := by
    intro empty
    rw [empty, List.map_nil] at files
    simp only [← files, List.map_nil, List.sum_nil] at sum
    omega
  have lengths : totalLength (layoutFiles 0 fileLayout).1 = totalSize := by
    have mapped := congrArg (fun layout => (layout.map Prod.snd).sum) files
    rw [List.map_map] at mapped
    exact mapped.trans sum
  refine ⟨⟨outputDir, pieceSize, totalSize, (layoutFiles 0 fileLayout).1⟩, ?_,
    ⟨sizePositive, sizeSmall, small, consecutive, lengths⟩⟩
  simp only [make, if_neg (Nat.pos_iff_ne_zero.mp sizePositive), if_neg (Nat.pos_iff_ne_zero.mp positive),
    List.isEmpty_iff, if_neg nonempty, total, Nat.zero_add, sum, ne_eq, not_true_eq_false, if_false]

theorem createDirectories_grown {disk made : Disk} {faults : IoFaults} {paths : List Path} {all : Bool}
    (run : disk.createDirectories faults paths = (made, all)) : disk.Grown made.toFileTree := by
  rw [Disk.createDirectories] at run
  have grown := @FileTree.makeDirectories_grown faults.openFails paths disk.toFileTree
  cases outcome : FileTree.makeDirectories faults.openFails paths disk.toFileTree with
  | mk tree result =>
    rw [outcome] at run grown
    cases run
    exact grown

theorem create_eq_some {disk created : Disk} {faults : IoFaults} {path : Path} (run : disk.create faults path = some created) :
    disk.opens path = true ∧ created = disk.store path [] := by
  rw [Disk.create] at run
  split at run
  case isTrue => cases run
  case isFalse =>
    rw [FileTree.create] at run
    split at run
    case isTrue opens =>
      cases run
      exact ⟨opens, rfl⟩
    case isFalse => cases run

/-- A new file that was extended by its last byte has its full length. A length
above `2^63` cannot be reached: the seek to its last byte is refused. -/
theorem extend_writeAt {disk extended : Disk} {faults : IoFaults} {path : Path} (tells : faults.Tells path) {length : Nat}
    {result : Unit} (empty : disk.content path = some []) (positive : length ≠ 0)
    (run : disk.writeAt faults path (length - 1) [0] = (extended, .ok result)) :
    length ≤ 2 ^ 63 ∧ ∃ content : Bytes, content.length = length ∧ extended = disk.store path content := by
  simp only [Disk.writeAt, empty] at run
  split at run
  case isTrue => cases run
  case isFalse =>
    split at run
    case isTrue => cases run
    case isFalse small =>
      have accepted : ([0] : Bytes).take ((faults.accepts path).getD ([0] : Bytes).length) = [0] := by
        cases limit : faults.accepts path with
        | none => rfl
        | some count =>
          by_contra short
          cases count with
          | zero =>
            have reported := tells.resolve_left (by rw [limit]; exact Option.some_ne_none 0)
            rw [limit, reported, if_pos ⟨Nat.one_pos, rfl⟩] at run
            cases run
          | succ count => exact short (by simp)
      rw [accepted, if_neg (by simp)] at run
      cases run
      refine ⟨by omega, _, ?_, rfl⟩
      simp only [overwrite, List.nil_append, List.length_append, List.length_take, List.length_replicate,
        List.length_drop, List.length_singleton, List.length_nil, Nat.sub_zero]
      omega

/-- What `preallocate_files` leaves alone as it goes on: the working directory, and the
files that are not at these places. -/
def Keeps (disk after : Disk) (places : List Place) : Prop :=
  after.cwd = disk.cwd ∧ ∀ path content, disk.place path ∉ places → disk.content path = some content →
    after.content path = some content

/-- One round of the loop of `preallocate_files`. -/
theorem preallocateLoop_cons {w : DiskWriter} {faults : IoFaults} {file : FileEntry} (tells : faults.Tells (w.absolutePath file))
    {rest : List FileEntry} {disk done : Disk} {result : Unit}
    (run : preallocateLoop w faults (file :: rest) disk = (done, .ok result)) :
    ∃ middle, preallocateLoop w faults rest middle = (done, .ok result) ∧ Keeps disk middle [w.filePlace disk file] ∧
      ∃ content, middle.content (w.absolutePath file) = some content ∧ content.length = file.length ∧ file.length ≤ 2 ^ 63 := by
  simp only [preallocateLoop] at run
  split at run
  case h_1 => cases run
  case h_2 made directories =>
    have grown := createDirectories_grown directories
    have keeps : ∀ content, Keeps disk (made.store (w.absolutePath file) content) [w.filePlace disk file] := by
      refine fun content => ⟨grown.cwd, fun path old outside found => ?_⟩
      rw [← grown.content found]
      refine FileTree.content_store_other fun same => outside (List.mem_singleton.mpr ?_)
      rwa [grown.place, grown.place] at same
    split at run
    case h_1 => cases run
    case h_2 created new =>
      obtain ⟨opens, rfl⟩ := create_eq_some new
      have empty : (made.store (w.absolutePath file) []).content (w.absolutePath file) = some [] :=
        FileTree.content_store_of_opens opens
      split at run
      case isTrue zero => exact ⟨_, run, keeps [], [], empty, zero.symm, by omega⟩
      case isFalse positive =>
        split at run
        case h_1 extended _ written =>
          obtain ⟨bound, content, length, rfl⟩ := extend_writeAt tells empty positive written
          refine ⟨_, run, ⟨(keeps []).1, fun path old outside found => ?_⟩, content, store_self empty content, length, bound⟩
          refine Eq.trans (FileTree.content_store_other fun same => outside (List.mem_singleton.mpr ?_))
            ((keeps []).2 path old outside found)
          rw [← grown.place]
          exact same.trans (grown.place _)
        case h_2 => cases run

theorem preallocateLoop_spec {w : DiskWriter} {faults : IoFaults} {files : List FileEntry} (loud : w.Loud faults files)
    {disk done : Disk} {result : Unit} (distinct : (files.map (w.filePlace disk)).Nodup)
    (run : preallocateLoop w faults files disk = (done, .ok result)) :
    Stored w files done ∧ Keeps disk done (files.map (w.filePlace disk)) := by
  induction files generalizing disk with
  | nil =>
    cases run
    exact ⟨by rintro _ ⟨⟩, rfl, fun _ _ _ found => found⟩
  | cons file rest ih =>
    obtain ⟨fresh, distinct⟩ := List.nodup_cons.mp distinct
    obtain ⟨middle, later, ⟨cwd, untouched⟩, content, atFile, length, bound⟩ := preallocateLoop_cons (loud file (List.mem_cons_self ..)) run
    have places : w.filePlace middle = w.filePlace disk := by
      funext other
      rw [filePlace, filePlace, FileTree.place, FileTree.place, cwd]
    rw [← places] at distinct fresh
    obtain ⟨stored, cwd', kept⟩ := ih (fun f member => loud f (List.mem_cons_of_mem _ member)) distinct later
    refine ⟨?_, cwd'.trans cwd, ?_⟩
    · intro f member
      rcases List.mem_cons.mp member with rfl | member
      · exact ⟨content, kept _ content fresh atFile, length, bound⟩
      · exact stored f member
    · intro path old outside found
      rw [List.map_cons, List.mem_cons, not_or] at outside
      obtain ⟨first, others⟩ := outside
      refine kept path old ?_ (untouched path old (fun member => first (List.mem_singleton.mp member)) found)
      rw [places, FileTree.place, cwd]
      exact others

/-- After `preallocate_files` the files are there, if no two paths lead to one of them. -/
theorem ready_of_preallocateFiles {w : DiskWriter} {faults : IoFaults} (loud : w.Loud faults w.files) {disk done : Disk}
    (apart : w.Apart disk) (run : w.preallocateFiles faults disk = (done, .ok ())) : w.Ready done := by
  rw [preallocateFiles] at run
  split at run
  case isTrue => cases run
  case isFalse =>
    split at run
    case h_1 => cases run
    case h_2 made directories =>
      have grown := createDirectories_grown directories
      have places : w.filePlace made = w.filePlace disk := funext fun file => grown.place (w.absolutePath file)
      split at run
      case h_1 finished _ loop =>
        cases run
        have distinct : (w.files.map (w.filePlace made)).Nodup := places ▸ apart
        obtain ⟨stored, cwd, _⟩ := preallocateLoop_spec loud distinct loop
        refine ⟨rfl, ?_, stored⟩
        have after : w.filePlace ⟨finished.toFileTree, true⟩ = w.filePlace made := by
          funext file
          rw [filePlace, filePlace, FileTree.place, FileTree.place, cwd]
        rw [Apart, after]
        exact distinct
      case h_2 => cases run

/-- The output files are apart if the paths that the constructor is given lead apart. -/
theorem apart_of_make {outputDir : Path} {pieceSize totalSize : Nat} {fileLayout : List (Path × Nat)} {w : DiskWriter}
    (made : make outputDir pieceSize totalSize fileLayout = .ok w) (sum : (fileLayout.map Prod.snd).sum = totalSize)
    (small : totalSize < 2 ^ 64) {disk : Disk}
    (distinct : (fileLayout.map (fun entry => disk.place (outputDir / entry.1))).Nodup) : w.Apart disk := by
  obtain ⟨_, _, files⟩ := @layoutFiles_spec 0 fileLayout (by omega)
  have built : w.files = (layoutFiles 0 fileLayout).1 ∧ w.outputDir = outputDir := by
    simp only [make] at made
    split_ifs at made
    cases made
    exact ⟨rfl, rfl⟩
  rw [← files, List.map_map, ← built.1] at distinct
  have same : w.files.map (w.filePlace disk) = w.files.map fun file => disk.place (outputDir / file.relPath) := by
    refine List.map_congr_left fun file _ => ?_
    rw [filePlace, absolutePath, built.2]
  rw [Apart, same]
  exact distinct

/-- The output files are one flat array, if the output paths lead to different files.
Every layout the statement covers is accepted; after preallocation every sequence of
calls behaves as on the array, and the pieces in any order make up its whole content. -/
theorem disk_refines_flat_array {outputDir : Path} {pieceSize totalSize : Nat} {fileLayout : List (Path × Nat)}
    (sum : (fileLayout.map Prod.snd).sum = totalSize) (positive : 0 < totalSize) (noOverflow : totalSize < 2 ^ 64)
    (sizePositive : 0 < pieceSize) (sizeSmall : pieceSize < 2 ^ 32) :
    ∃ w, make outputDir pieceSize totalSize fileLayout = .ok w ∧
      ∀ (faults : IoFaults) (start disk : Disk), w.Loud faults w.files →
        (fileLayout.map (fun entry => start.place (outputDir / entry.1))).Nodup →
        w.preallocateFiles faults start = (disk, .ok ()) →
        (w.contents disk).length = totalSize ∧
        (∀ ops : List DiskOp, (∀ op ∈ ops, op.Valid w) →
          w.contents (DiskOp.runAll w ops disk).1 = (DiskOp.applyAll w ops (w.contents disk)).1 ∧
          (DiskOp.runAll w ops disk).2 = (DiskOp.applyAll w ops (w.contents disk)).2.map .ok) ∧
        ∀ (pieces : Nat → Bytes) (order : List Nat), order.Perm (List.range w.pieceCount) → w.pieceCount ≤ 2 ^ 32 →
          (∀ i < w.pieceCount, w.pieceLength i = .ok (pieces i).length) →
          w.contents (DiskOp.runAll w (order.map (fun i => .write i (pieces i))) disk).1 =
            ((List.range w.pieceCount).map pieces).flatten := by
  obtain ⟨w, made, sound⟩ := make_sound sum positive noOverflow sizePositive sizeSmall
  have total : w.totalSize = totalSize := by
    simp only [make] at made
    split_ifs at made
    cases made
    rfl
  refine ⟨w, made, ?_⟩
  intro faults start disk loud distinct run
  have ready := ready_of_preallocateFiles loud (apart_of_make made sum noOverflow distinct) run
  have length := ready.contents_length sound
  refine ⟨length.trans total, fun ops valid => runAll_refines sound valid ready, ?_⟩
  intro pieces order once addressable sized
  have inRange : ∀ i < w.pieceCount, w.InRange i := fun i below => ⟨by omega, sound.lt_pieceCount below⟩
  have valid : ∀ op ∈ order.map (fun i => DiskOp.write i (pieces i)), op.Valid w := by
    intro op member
    obtain ⟨i, inOrder, rfl⟩ := List.mem_map.mp member
    have below := List.mem_range.mp (once.mem_iff.mp inOrder)
    exact ⟨inRange i below, sized i below⟩
  have lengths : ∀ i < w.pieceCount, (pieces i).length = w.pieceBytes i := by
    intro i below
    have given := sized i below
    rw [sound.pieceLength_eq (inRange i below)] at given
    exact (Except.ok.inj given).symm
  rw [(runAll_refines sound valid ready).1]
  exact writes_all_pieces sound once lengths length

/-- Two pieces over three files, the middle one empty, written last to first. -/
theorem disk_refines_flat_array_three_files :
    ∃ w disk, make ⟨text ['o']⟩ 4 7 [(⟨text ['a']⟩, 3), (⟨text ['b']⟩, 0), (⟨text ['c']⟩, 4)] = .ok w ∧
      w.preallocateFiles .none Disk.bare = (disk, .ok ()) ∧
      w.contents (DiskOp.runAll w [.write 1 [5, 6, 7], .write 0 [1, 2, 3, 4]] disk).1 = [1, 2, 3, 4, 5, 6, 7] := by
  obtain ⟨w, made, refines⟩ := @disk_refines_flat_array ⟨text ['o']⟩ 4 7
    [(⟨text ['a']⟩, 3), (⟨text ['b']⟩, 0), (⟨text ['c']⟩, 4)]
    (by decide) (by decide) (by decide) (by decide) (by decide)
  have allocated : (w.preallocateFiles .none Disk.bare).2 = .ok () := by
    cases made
    rfl
  have run : w.preallocateFiles .none Disk.bare = ((w.preallocateFiles .none Disk.bare).1, .ok ()) := Prod.ext rfl allocated
  refine ⟨w, _, made, run, ?_⟩
  have whole := (refines .none Disk.bare _ (none_loud w w.files) (by decide) run).2.2
  cases made
  exact whole (fun i => if i = 0 then [1, 2, 3, 4] else [5, 6, 7]) [1, 0] (by decide) (by decide) (by decide)

/-- The layout of the paths `a` and `./a`. -/
def twoNames : DiskWriter := ⟨⟨text ['o']⟩, 2, 2, [⟨⟨text ['a']⟩, 1, 0⟩, ⟨⟨text ['.', '/', 'a']⟩, 1, 1⟩]⟩

/-- Two different paths that lead to one file: of a piece of two bytes only the second
one is left. -/
theorem one_file_under_two_names :
    ([⟨text ['a']⟩, ⟨text ['.', '/', 'a']⟩] : List Path).Nodup ∧
      make ⟨text ['o']⟩ 2 2 [(⟨text ['a']⟩, 1), (⟨text ['.', '/', 'a']⟩, 1)] = .ok twoNames ∧
      (twoNames.preallocateFiles .none Disk.bare).2 = .ok () ∧
      (DiskOp.runAll twoNames [.write 0 [1, 2], .read 0] (twoNames.preallocateFiles .none Disk.bare).1).2 =
        [.ok none, .ok (some [2, 2])] :=
  ⟨by decide, rfl, rfl, rfl⟩

end DiskWriter

end BittorrentClient
