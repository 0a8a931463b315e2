import BittorrentClient.Library.Outcome
import BittorrentClient.Library.PathNormal
import BittorrentClient.Torrent.TorrentFile

namespace BittorrentClient
open Cpp Path

namespace TorrentFile

/-- The parts of one `path` list. -/
def fileParts : BType → List Bytes
  | .dict fileDict =>
    match mapFind (text ['p', 'a', 't', 'h']) fileDict with
    | some (.list parts) => parts.filterMap fun part => (asString part).toOption
    | _ => []
  | _ => []

/-- The parts of each output path that a metadata dictionary lists: the
`path` lists of its files, or its name alone. -/
def pathParts (metadataDict : List (Bytes × BType)) : List (List Bytes) :=
  match mapFind (text ['i', 'n', 'f', 'o']) metadataDict with
  | some (.dict infoDict) =>
    match mapFind (text ['f', 'i', 'l', 'e', 's']) infoDict, mapFind (text ['n', 'a', 'm', 'e']) infoDict with
    | some (.list files), _ => files.map fileParts
    | none, some (.string name) => [[name]]
    | _, _ => []
  | _ => []

/-- No part is absolute, and the names in all parts together never climb above
their start and end below it. -/
def PartsDescend (parts : List Bytes) : Prop :=
  (∀ part ∈ parts, isAbsolute ⟨part⟩ = false) ∧
    ∃ depth, walk 0 (parts.flatMap fun part => components ⟨part⟩) = some (depth + 1)

theorem append_isAbsolute_iff {p q : Path} :
    (p / q).isAbsolute = false ↔ p.isAbsolute = false ∧ q.isAbsolute = false := by
  cases kind : q.isAbsolute with
  | false => rw [append_isAbsolute kind, and_iff_left rfl]
  | true =>
    rw [append_absolute kind, kind]
    simp only [Bool.true_eq_false, and_false]

theorem foldl_isAbsolute (parts : List Bytes) (p : Path) :
    (parts.foldl (fun path part => path / ⟨part⟩) p).isAbsolute = false ↔
      p.isAbsolute = false ∧ ∀ part ∈ parts, isAbsolute ⟨part⟩ = false := by
  induction parts generalizing p with
  | nil => simp only [List.foldl_nil, List.not_mem_nil, false_implies, implies_true, and_true]
  | cons part rest ih => rw [List.foldl_cons, ih, append_isAbsolute_iff, and_assoc, List.forall_mem_cons]

theorem foldl_components {parts : List Bytes} (relative : ∀ part ∈ parts, isAbsolute ⟨part⟩ = false) (p : Path) :
    (parts.foldl (fun path part => path / ⟨part⟩) p).components =
      p.components ++ parts.flatMap fun part => components ⟨part⟩ := by
  induction parts generalizing p with
  | nil => simp only [List.foldl_nil, List.flatMap_nil, List.append_nil]
  | cons part rest ih =>
    obtain ⟨first, others⟩ := List.forall_mem_cons.mp relative
    rw [List.foldl_cons, ih others, append_components first, List.flatMap_cons, List.append_assoc]

theorem joinParts_descends (parts : List Bytes) : (joinParts parts).Descends ↔ PartsDescend parts := by
  unfold Descends PartsDescend joinParts
  rw [foldl_isAbsolute]
  refine ⟨?_, ?_⟩
  · rintro ⟨⟨_, relative⟩, below⟩
    rw [foldl_components relative, components_nil, List.nil_append] at below
    exact ⟨relative, below⟩
  · rintro ⟨relative, below⟩
    rw [foldl_components relative, components_nil, List.nil_append]
    exact ⟨⟨rfl, relative⟩, below⟩

theorem joinParts_singleton (name : Bytes) : joinParts [name] = ⟨name⟩ := by
  unfold joinParts
  rw [List.foldl_cons, List.foldl_nil]
  cases kind : isAbsolute ⟨name⟩ with
  | true => exact append_absolute kind
  | false =>
    simp only [HDiv.hDiv, Div.div, Path.append, kind, Bool.false_eq_true, if_false]
    rfl

theorem loadListOfBstrings_eq {list : List BType} {parts : List Bytes} (run : loadListOfBstrings list = .ok parts) :
    list.filterMap (fun part => (asString part).toOption) = parts := by
  have each := mapM_eq_ok run
  clear run
  induction each with
  | nil => rfl
  | cons called _ ih => rw [List.filterMap_cons_some (by rw [called]; rfl), ih]

theorem loadFile_path {elem : BType} {file : File} (run : loadFile elem = .ok file) :
    file.path = joinParts (fileParts elem) := by
  cases elem with
  | dict fileDict =>
    simp only [loadFile, bind_eq_ok] at run
    obtain ⟨crc32, _, length, _, md5, _, mtime, _, sha1, _, list, listed, parts, loaded, built⟩ := run
    cases built
    simp only [fileParts, getList_eq_ok.mp listed, loadListOfBstrings_eq loaded]
  | _ => cases run

theorem loadFiles_paths {elems : List BType} {files : List File} (run : elems.mapM loadFile = .ok files) :
    files.map File.path = (elems.map fileParts).map joinParts := by
  have each := mapM_eq_ok run
  clear run
  induction each with
  | nil => rfl
  | cons called _ ih => rw [List.map_cons, List.map_cons, List.map_cons, loadFile_path called, ih]

theorem layoutFiles_total (layout : List (Path × Nat)) (running : Nat) :
    (DiskWriter.layoutFiles running layout).2 =
      layout.foldl (fun total entry => u64 (total + entry.2)) running := by
  induction layout generalizing running with
  | nil => rfl
  | cons entry rest ih =>
    obtain ⟨relPath, length⟩ := entry
    rw [List.foldl_cons, ← ih]
    rfl

theorem layoutFiles_paths (layout : List (Path × Nat)) (running : Nat) :
    (DiskWriter.layoutFiles running layout).1.map FileEntry.relPath = layout.map Prod.fst := by
  induction layout generalizing running with
  | nil => rfl
  | cons entry rest ih =>
    obtain ⟨relPath, length⟩ := entry
    exact congrArg (relPath :: ·) (ih _)

theorem loadPieceSize_ne_zero {infoDict : List (Bytes × BType)} {pieceSize : Nat}
    (run : loadPieceSize infoDict = .ok pieceSize) : pieceSize ≠ 0 := by
  obtain ⟨pieceLength, _, checked⟩ := bind_eq_ok.mp run
  dsimp only at checked
  split at checked
  · cases checked
  split at checked
  · cases checked
  case isFalse large =>
    cases checked
    omega

/-- The layout that goes with what `loadFiles` returns. -/
theorem loadFiles_layout {infoDict : List (Bytes × BType)} {totalSize : Nat} {files : List File}
    (run : loadFiles infoDict = .ok (totalSize, files)) {name : Bytes}
    (named : mapFind (text ['n', 'a', 'm', 'e']) infoDict = some (.string name))
    {metadataDict : List (Bytes × BType)} (info : mapFind (text ['i', 'n', 'f', 'o']) metadataDict = some (.dict infoDict))
    {torrent : TorrentFile} (multi : torrent.isMultifile = BDict.hasKey infoDict (text ['f', 'i', 'l', 'e', 's']))
    (total : torrent.totalSize = totalSize) (listed : torrent.files = files) (called : torrent.torrentName = name) :
    torrent.fileLayout.map Prod.fst = (pathParts metadataDict).map joinParts ∧
      (DiskWriter.layoutFiles 0 torrent.fileLayout).2 = torrent.totalSize := by
  unfold loadFiles at run
  unfold fileLayout
  rw [layoutFiles_total, multi]
  cases has : BDict.hasKey infoDict (text ['f', 'i', 'l', 'e', 's']) with
  | true =>
    rw [if_pos has] at run
    obtain ⟨elems, found, later⟩ := bind_eq_ok.mp run
    obtain ⟨loaded, looped, built⟩ := bind_eq_ok.mp later
    cases built
    subst listed
    rw [if_pos rfl, total, List.map_map, List.foldl_map]
    refine ⟨?_, rfl⟩
    simp only [pathParts, info, getList_eq_ok.mp found]
    exact loadFiles_paths looped
  | false =>
    rw [if_neg (by rw [has]; decide)] at run
    obtain ⟨length, _, built⟩ := bind_eq_ok.mp run
    cases built
    have missing : mapFind (text ['f', 'i', 'l', 'e', 's']) infoDict = none := by
      simpa only [BDict.hasKey, Option.isSome_eq_false_iff, Option.isNone_iff_eq_none] using has
    rw [if_neg (by decide), total, called]
    refine ⟨?_, ?_⟩
    · simp only [pathParts, info, missing, named, List.map_cons, List.map_nil, joinParts_singleton]
    · simp only [List.foldl_cons, List.foldl_nil, Nat.zero_add]
      exact Nat.mod_eq_of_lt length.toUInt64.toNat_lt

/-- What the constructor takes from the metadata. -/
theorem make_layout {sha1 : Bytes → Sha1Hash} {metadataDict : List (Bytes × BType)} {infoBytes : Bytes}
    {torrent : TorrentFile} (accepted : make sha1 metadataDict infoBytes = .ok torrent) :
    torrent.pieceSize ≠ 0 ∧ torrent.fileLayout.map Prod.fst = (pathParts metadataDict).map joinParts ∧
      (DiskWriter.layoutFiles 0 torrent.fileLayout).2 = torrent.totalSize := by
  obtain ⟨_, infoDict, info, loaded⟩ := make_loaded accepted
  exact ⟨loadPieceSize_ne_zero loaded.pieceSize, loadFiles_layout loaded.files (getString_eq_ok.mp loaded.torrentName)
    (getDict_eq_ok.mp info) loaded.isMultifile rfl rfl rfl⟩

/-- The writer of an accepted torrent is made exactly when there are bytes to
write, and keeps the listed paths. -/
theorem diskWriter_eq_ok {torrent : TorrentFile} (sized : torrent.pieceSize ≠ 0)
    (total : (DiskWriter.layoutFiles 0 torrent.fileLayout).2 = torrent.totalSize) {outputDir : Path} {w : DiskWriter} :
    torrent.diskWriter outputDir = .ok w ↔ torrent.totalSize ≠ 0 ∧
      w = ⟨outputDir, torrent.pieceSize, torrent.totalSize, (DiskWriter.layoutFiles 0 torrent.fileLayout).1⟩ := by
  simp only [diskWriter, DiskWriter.make, if_neg sized, total, ne_eq, not_true_eq_false, if_false]
  by_cases empty : torrent.totalSize = 0
  · simp [empty]
  · have nonempty : (DiskWriter.layoutFiles 0 torrent.fileLayout).1.isEmpty = false := by
      rw [List.isEmpty_eq_false_iff]
      intro none_
      have listed := layoutFiles_paths torrent.fileLayout 0
      rw [none_, List.map_nil, eq_comm, List.map_eq_nil_iff] at listed
      rw [listed] at total
      exact empty total.symm
    simp only [nonempty, Bool.false_eq_true, if_false, Except.ok.injEq, empty, not_false_eq_true, true_and]
    exact eq_comm

/-- For every metadata dictionary the constructor accepts: the output files
lie strictly inside the output directory, whichever it is, exactly when the
torrent has no bytes, so that no writer is made, or all listed paths descend. -/
theorem output_files_inside_iff {sha1 : Bytes → Sha1Hash} {metadataDict : List (Bytes × BType)} {infoBytes : Bytes}
    {torrent : TorrentFile} (accepted : make sha1 metadataDict infoBytes = .ok torrent) :
    (∀ outputDir w, torrent.diskWriter outputDir = .ok w →
      ∀ file ∈ w.files, outputDir.StrictlyInside (w.absolutePath file)) ↔
    torrent.totalSize = 0 ∨ ∀ parts ∈ pathParts metadataDict, PartsDescend parts := by
  obtain ⟨sized, paths, total⟩ := make_layout accepted
  have relPaths := (layoutFiles_paths torrent.fileLayout 0).trans paths
  constructor
  · intro inside
    refine or_iff_not_imp_left.mpr fun nonzero parts member => ?_
    have listed : joinParts parts ∈ (DiskWriter.layoutFiles 0 torrent.fileLayout).1.map FileEntry.relPath := by
      rw [relPaths]
      exact List.mem_map_of_mem member
    obtain ⟨file, atFile, same⟩ := List.mem_map.mp listed
    rw [← joinParts_descends, ← same]
    refine strictlyInside_forall.mp fun outputDir => ?_
    exact inside outputDir _ ((diskWriter_eq_ok sized total).mpr ⟨nonzero, rfl⟩) file atFile
  · rintro condition outputDir w made file member
    obtain ⟨nonzero, rfl⟩ := (diskWriter_eq_ok sized total).mp made
    have listed : file.relPath ∈ (pathParts metadataDict).map joinParts := by
      rw [← relPaths]
      exact List.mem_map_of_mem member
    obtain ⟨parts, atParts, same⟩ := List.mem_map.mp listed
    have descends := (joinParts_descends parts).mpr (condition.resolve_left nonzero parts atParts)
    rw [same] at descends
    exact descends.strictlyInside outputDir

/-- Metadata of one file of one byte under the given path. -/
def oneFileMetadata (path : List Bytes) : List (Bytes × BType) :=
  [(text ['a', 'n', 'n', 'o', 'u', 'n', 'c', 'e'], .string (text ['u', 'd', 'p', ':', '/', '/', 't'])),
    (text ['i', 'n', 'f', 'o'], .dict [
      (text ['f', 'i', 'l', 'e', 's'], .list [.dict [
        (text ['l', 'e', 'n', 'g', 't', 'h'], .integer 1),
        (text ['p', 'a', 't', 'h'], .list (path.map .string))]]),
      (text ['n', 'a', 'm', 'e'], .string (text ['n'])),
      (text ['p', 'i', 'e', 'c', 'e', ' ', 'l', 'e', 'n', 'g', 't', 'h'], .integer 16384),
      (text ['p', 'i', 'e', 'c', 'e', 's'], .string (List.replicate 20 0))])]

theorem output_files_inside_subdirectory : ∃ torrent,
    make oneByteSha1 (oneFileMetadata [text ['d'], text ['f']]) [100, 101] = .ok torrent ∧
    ∀ outputDir w, torrent.diskWriter outputDir = .ok w →
      ∀ file ∈ w.files, outputDir.StrictlyInside (w.absolutePath file) := by
  obtain ⟨torrent, accepted⟩ : ∃ torrent,
      make oneByteSha1 (oneFileMetadata [text ['d'], text ['f']]) [100, 101] = .ok torrent := ⟨_, rfl⟩
  refine ⟨torrent, accepted, (output_files_inside_iff accepted).mpr (Or.inr ?_)⟩
  intro parts member
  rw [List.mem_singleton.mp member]
  exact ⟨by decide, 1, by decide⟩

/-- The parts `..` and `x` name a file beside the output directory. -/
theorem output_file_beside_directory : ∃ torrent w file,
    make oneByteSha1 (oneFileMetadata [dotdot, text ['x']]) [100, 101] = .ok torrent ∧
    torrent.diskWriter ⟨text ['o']⟩ = .ok w ∧ file ∈ w.files ∧
    ¬Path.StrictlyInside ⟨text ['o']⟩ (w.absolutePath file) :=
  ⟨_, _, _, rfl, rfl, List.mem_singleton_self _, by decide⟩

end TorrentFile

end BittorrentClient
