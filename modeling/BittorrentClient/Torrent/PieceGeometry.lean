import BittorrentClient.Torrent.OutputPaths
import Mathlib.Algebra.Order.BigOperators.Group.List
import Mathlib.Tactic.Ring

namespace BittorrentClient
open Cpp

namespace TorrentFile

/-- The piece manager that `TorrentManager` constructs, with its two casts. -/
def pieceManager (torrent : TorrentFile) : Option PieceManager :=
  PieceManager.make (u32 torrent.pieces.length) (u32 torrent.pieceSize) (u64 torrent.totalSize) torrent.pieces
    (Nat.mod_lt _ (by decide)) (Nat.mod_lt _ (by decide)) (Nat.mod_lt _ (by decide))

/-- The `info` dictionary of the metadata. -/
def declaredInfo (metadataDict : List (Bytes × BType)) : List (Bytes × BType) :=
  match mapFind (text ['i', 'n', 'f', 'o']) metadataDict with
  | some (.dict infoDict) => infoDict
  | _ => []

def declaredInteger (dict : List (Bytes × BType)) (key : Bytes) : Int64 :=
  match mapFind key dict with
  | some (.integer value) => value
  | _ => 0

def declaredLength : BType → Int
  | .dict fileDict => (declaredInteger fileDict (text ['l', 'e', 'n', 'g', 't', 'h'])).toInt
  | _ => 0

/-- The file lengths as the metadata states them: signed, and unbounded when
they are added. -/
def declaredLengths (metadataDict : List (Bytes × BType)) : List Int :=
  match mapFind (text ['f', 'i', 'l', 'e', 's']) (declaredInfo metadataDict) with
  | some (.list elems) => elems.map declaredLength
  | _ => [declaredLength (.dict (declaredInfo metadataDict))]

/-- The piece length, read as a `uint64_t`. -/
def declaredPieceLength (metadataDict : List (Bytes × BType)) : Nat :=
  (declaredInteger (declaredInfo metadataDict)
    (text ['p', 'i', 'e', 'c', 'e', ' ', 'l', 'e', 'n', 'g', 't', 'h'])).toUInt64.toNat

/-- The number of whole hashes in the `pieces` string. -/
def declaredHashes (metadataDict : List (Bytes × BType)) : Nat :=
  match mapFind (text ['p', 'i', 'e', 'c', 'e', 's']) (declaredInfo metadataDict) with
  | some (.string piecesStr) => piecesStr.length / 20
  | _ => 0

theorem getInteger_eq_ok {dict : List (Bytes × BType)} {key : Bytes} {value : Int64} :
    BDict.getInteger dict key = .ok value ↔ mapFind key dict = some (.integer value) := by
  unfold BDict.getInteger
  rw [bind_eq_ok, ← find_eq_ok]
  constructor
  · rintro ⟨found, run, typed⟩
    cases found <;> cases typed
    exact run
  · exact fun found => ⟨_, found, rfl⟩

/-- A signed number read as a `uint64_t` is taken modulo `2 ^ 64`. -/
theorem toUInt64_toNat (v : Int64) : (v.toUInt64.toNat : Int) = v.toInt % 2 ^ 64 := by
  have signed : v.toInt = if 2 * v.toUInt64.toNat < 2 ^ 64 then (v.toUInt64.toNat : Int)
      else v.toUInt64.toNat - (2 ^ 64 : Nat) := BitVec.toInt_eq_toNat_cond v.toBitVec
  have bound := v.toUInt64.toNat_lt
  rw [signed]
  split <;> omega

theorem loadFile_length {elem : BType} {file : File} (run : loadFile elem = .ok file) :
    (file.length : Int) = declaredLength elem % 2 ^ 64 := by
  cases elem with
  | dict fileDict =>
    simp only [loadFile, bind_eq_ok] at run
    obtain ⟨crc32, _, length, lengthRead, md5, _, mtime, _, sha1, _, list, _, parts, _, built⟩ := run
    cases built
    simp only [declaredLength, declaredInteger, getInteger_eq_ok.mp lengthRead]
    exact toUInt64_toNat length
  | _ => cases run

/-- The running `uint64_t` sum is the unbounded sum modulo `2 ^ 64`. -/
theorem sumLengths_fold {elems : List BType} {files : List File}
    (each : List.Forall₂ (fun elem file => loadFile elem = .ok file) elems files) (total : Nat) :
    ((files.foldl (fun total file => u64 (total + file.length)) (u64 total) : Nat) : Int) =
      (total + (elems.map declaredLength).sum) % 2 ^ 64 := by
  induction each generalizing total with
  | nil => simp [u64]
  | cons called _ ih =>
    have length := loadFile_length called
    rename_i elem file elems files _
    have reduced : u64 (u64 total + file.length) = u64 (total + file.length) := by
      unfold u64
      omega
    rw [List.foldl_cons, reduced, ih, List.map_cons, List.sum_cons]
    push_cast
    omega

theorem declaredInfo_eq {metadataDict infoDict : List (Bytes × BType)}
    (info : BDict.getDict metadataDict (text ['i', 'n', 'f', 'o']) = .ok infoDict) :
    declaredInfo metadataDict = infoDict := by
  simp only [declaredInfo, getDict_eq_ok.mp info]

theorem loadFiles_total {metadataDict infoDict : List (Bytes × BType)}
    (info : BDict.getDict metadataDict (text ['i', 'n', 'f', 'o']) = .ok infoDict) {totalSize : Nat}
    {files : List File} (run : loadFiles infoDict = .ok (totalSize, files)) :
    (totalSize : Int) = (declaredLengths metadataDict).sum % 2 ^ 64 := by
  unfold loadFiles at run
  unfold declaredLengths
  rw [declaredInfo_eq info]
  split at run
  case isTrue =>
    obtain ⟨elems, found, later⟩ := bind_eq_ok.mp run
    obtain ⟨loaded, looped, built⟩ := bind_eq_ok.mp later
    cases built
    rw [getList_eq_ok.mp found]
    have folded : ((sumLengths files : Nat) : Int) = ((0 : Nat) + (elems.map declaredLength).sum) % 2 ^ 64 :=
      sumLengths_fold (mapM_eq_ok looped) 0
    rw [folded]
    simp
  case isFalse missing =>
    obtain ⟨length, lengthRead, built⟩ := bind_eq_ok.mp run
    cases built
    have absent : mapFind (text ['f', 'i', 'l', 'e', 's']) infoDict = none := by
      simpa [BDict.hasKey] using missing
    simp only [absent, List.sum_singleton, declaredLength, declaredInteger, getInteger_eq_ok.mp lengthRead]
    exact toUInt64_toNat length

/-- A power of two that the mask test accepts. -/
theorem isPowerOfTwo_pow {n : Nat} (power : isPowerOfTwo n = true) : ∃ k, n = 2 ^ k := by
  simp only [isPowerOfTwo, Bool.and_eq_true, decide_eq_true_eq, beq_iff_eq] at power
  exact (Nat.and_sub_one_eq_zero_iff_isPowerOfTwo (by omega)).mp power.2

theorem loadPieceSize_spec {metadataDict infoDict : List (Bytes × BType)}
    (info : BDict.getDict metadataDict (text ['i', 'n', 'f', 'o']) = .ok infoDict) {pieceSize : Nat}
    (run : loadPieceSize infoDict = .ok pieceSize) :
    pieceSize = declaredPieceLength metadataDict ∧ pieceSize < 2 ^ 64 ∧ ∃ k, pieceSize = 2 ^ k := by
  obtain ⟨pieceLength, read, checked⟩ := bind_eq_ok.mp run
  dsimp only at checked
  split at checked
  · cases checked
  rename_i power
  split at checked
  · cases checked
  cases checked
  refine ⟨?_, pieceLength.toUInt64.toNat_lt, isPowerOfTwo_pow (by simpa using power)⟩
  simp only [declaredPieceLength, declaredInfo_eq info, declaredInteger, getInteger_eq_ok.mp read]

theorem make_declared {sha1 : Bytes → Sha1Hash} {metadataDict : List (Bytes × BType)} {infoBytes : Bytes}
    {torrent : TorrentFile} (accepted : make sha1 metadataDict infoBytes = .ok torrent) :
    (torrent.totalSize : Int) = (declaredLengths metadataDict).sum % 2 ^ 64 ∧
      torrent.pieceSize = declaredPieceLength metadataDict ∧ torrent.pieceSize < 2 ^ 64 ∧
      (∃ k, torrent.pieceSize = 2 ^ k) ∧ torrent.pieces.length = declaredHashes metadataDict := by
  obtain ⟨_, infoDict, info, loaded⟩ := make_loaded accepted
  obtain ⟨sized, bounded, power⟩ := loadPieceSize_spec info loaded.pieceSize
  obtain ⟨piecesStr, found, pieces⟩ := loaded.pieces
  refine ⟨loadFiles_total info loaded.files, sized, bounded, power, ?_⟩
  rw [pieces, List.length_ofFn]
  simp only [declaredHashes, declaredInfo_eq info, getString_eq_ok.mp found]

end TorrentFile

theorem sub64_eq {a b : Nat} (le : b ≤ a) (small : a < 2 ^ 64) : sub64 a b = a - b := by
  unfold sub64
  omega

section Lengths
variable {pm : PieceManager} {m i : Nat}

theorem PieceManager.pieceLength_before (count : pm.mNumPieces = m + 1) (before : i < m) :
    pm.pieceLength i = pm.mNominalPieceLength := by
  have small := pm.numPieces_lt
  have next : u32 (i + 1) = i + 1 := Nat.mod_eq_of_lt (by omega)
  rw [PieceManager.pieceLength, next, if_pos (by omega)]

theorem PieceManager.pieceLength_last (count : pm.mNumPieces = m + 1) :
    pm.pieceLength m = u32 (sub64 pm.mTotalLengthBytes (u64 (pm.mNominalPieceLength * m))) := by
  have small := pm.numPieces_lt
  have next : u32 (m + 1) = m + 1 := Nat.mod_eq_of_lt (by omega)
  have before : u32 (m + 1 + 2 ^ 32 - 1) = m := by
    unfold u32
    omega
  rw [PieceManager.pieceLength, next, if_neg (by omega), count, before]

/-- The sum of the lengths is that of the full pieces and of the last one. -/
theorem PieceManager.sum_pieceLength (count : pm.mNumPieces = m + 1) :
    ((List.range (m + 1)).map pm.pieceLength).sum = m * pm.mNominalPieceLength + pm.pieceLength m := by
  have full : (List.range m).map pm.pieceLength = List.replicate m pm.mNominalPieceLength := by
    refine List.eq_replicate_iff.mpr ⟨by simp, ?_⟩
    intro length member
    obtain ⟨i, below, rfl⟩ := List.mem_map.mp member
    exact PieceManager.pieceLength_before count (List.mem_range.mp below)
  rw [List.range_succ, List.map_append, List.sum_append, full, List.sum_replicate_nat]
  simp

theorem DiskWriter.pieceLength_eq {w : DiskWriter} (inside : i * w.pieceSize + w.pieceSize < 2 ^ 64)
    (total : w.totalSize < 2 ^ 64) :
    w.pieceLength i = if w.totalSize ≤ i * w.pieceSize then .error (.indexOutOfRange i)
      else .ok (u32 (min w.pieceSize (w.totalSize - i * w.pieceSize))) := by
  have offset : w.pieceGlobalOffset i = i * w.pieceSize := Nat.mod_eq_of_lt (by omega)
  have stop : u64 (i * w.pieceSize + w.pieceSize) = i * w.pieceSize + w.pieceSize := Nat.mod_eq_of_lt inside
  simp only [DiskWriter.pieceLength, offset, stop]
  split
  · rfl
  · rw [sub64_eq (by omega) (by omega)]
    congr 2
    omega

end Lengths

/-- The two classes agree on every piece and the pieces fill the torrent. -/
structure PiecesAgree (pm : PieceManager) (w : DiskWriter) : Prop where
  same : ∀ i < pm.mNumPieces, w.pieceLength i = .ok (pm.pieceLength i)
  covers : ((List.range pm.mNumPieces).map pm.pieceLength).sum = w.totalSize

section Agreement
variable {pm : PieceManager} {w : DiskWriter} {m : Nat}

/-- A piece length that fits in 32 bits: the last piece must be neither empty
nor longer than the others. -/
theorem piecesAgree_narrow (count : pm.mNumPieces = m + 1) (total : pm.mTotalLengthBytes = w.totalSize)
    (nominal : pm.mNominalPieceLength = w.pieceSize) :
    PiecesAgree pm w ↔ m * w.pieceSize < w.totalSize ∧ w.totalSize ≤ m * w.pieceSize + w.pieceSize := by
  have size := pm.nominalPieceLength_lt
  have small := pm.numPieces_lt
  have bounded := pm.totalLengthBytes_lt
  rw [nominal] at size
  rw [total] at bounded
  have product : (m + 1) * w.pieceSize ≤ (2 ^ 32 - 1) * (2 ^ 32 - 1) :=
    Nat.mul_le_mul (by omega) (by omega)
  rw [Nat.succ_mul] at product
  have atLast := DiskWriter.pieceLength_eq (w := w) (i := m) (by omega) bounded
  have last := PieceManager.pieceLength_last count
  have offset : u64 (w.pieceSize * m) = m * w.pieceSize := by
    rw [Nat.mul_comm]
    exact Nat.mod_eq_of_lt (by omega)
  rw [nominal, total, offset] at last
  constructor
  · intro agree
    have same := agree.same m (by omega)
    have covers := agree.covers
    rw [count, PieceManager.sum_pieceLength count, nominal] at covers
    rw [atLast] at same
    split at same
    · cases same
    rename_i nonempty
    have lengths := Except.ok.inj same
    rw [sub64_eq (by omega) bounded] at last
    have short : u32 (w.totalSize - m * w.pieceSize) = w.totalSize - m * w.pieceSize := by omega
    have piece : u32 (min w.pieceSize (w.totalSize - m * w.pieceSize)) =
        min w.pieceSize (w.totalSize - m * w.pieceSize) := Nat.mod_eq_of_lt (by omega)
    omega
  · rintro ⟨nonempty, within⟩
    rw [sub64_eq (by omega) bounded] at last
    have short : u32 (w.totalSize - m * w.pieceSize) = w.totalSize - m * w.pieceSize :=
      Nat.mod_eq_of_lt (by omega)
    refine ⟨?_, ?_⟩
    · intro i below
      rcases Nat.lt_or_ge i m with before | after
      · have steps : (i + 1) * w.pieceSize ≤ m * w.pieceSize := Nat.mul_le_mul_right _ before
        rw [Nat.succ_mul] at steps
        rw [PieceManager.pieceLength_before count before, nominal,
          DiskWriter.pieceLength_eq (by omega) bounded, if_neg (by omega)]
        have full : min w.pieceSize (w.totalSize - i * w.pieceSize) = w.pieceSize := by omega
        rw [full, u32, Nat.mod_eq_of_lt size]
      · obtain rfl : i = m := by omega
        rw [atLast, if_neg (by omega), last]
        congr 2
        omega
    · rw [count, PieceManager.sum_pieceLength count, nominal, last, short]
      omega

/-- A piece length of `2 ^ 32` or more is cast to zero, so only a single piece
below `2 ^ 32` is measured alike. -/
theorem piecesAgree_wide (count : pm.mNumPieces = m + 1) (total : pm.mTotalLengthBytes = w.totalSize)
    (nominal : pm.mNominalPieceLength = 0) (size : 2 ^ 32 ≤ w.pieceSize) (sized : w.pieceSize < 2 ^ 64)
    (positive : 0 < w.totalSize) :
    PiecesAgree pm w ↔ m = 0 ∧ w.totalSize < 2 ^ 32 := by
  have bounded := pm.totalLengthBytes_lt
  rw [total] at bounded
  have last := PieceManager.pieceLength_last count
  have whole : u64 (0 * m) = 0 := by rw [Nat.zero_mul]; rfl
  rw [nominal, total, whole, sub64_eq (by omega) bounded, Nat.sub_zero] at last
  have first : w.pieceLength 0 = .ok (u32 (min w.pieceSize w.totalSize)) := by
    rw [DiskWriter.pieceLength_eq (by omega) bounded, Nat.zero_mul, if_neg (by omega), Nat.sub_zero]
  constructor
  · intro agree
    have covers := agree.covers
    rw [count, PieceManager.sum_pieceLength count, nominal, Nat.mul_zero, Nat.zero_add, last] at covers
    have short : w.totalSize < 2 ^ 32 := by
      rw [← covers]
      exact Nat.mod_lt _ (by decide)
    refine ⟨?_, short⟩
    by_contra more
    have beyond := agree.same 1 (by omega)
    have offset : w.pieceGlobalOffset 1 = w.pieceSize := by
      rw [DiskWriter.pieceGlobalOffset, Nat.one_mul]
      exact Nat.mod_eq_of_lt sized
    rw [DiskWriter.pieceLength, offset, if_pos (by omega)] at beyond
    cases beyond
  · rintro ⟨rfl, short⟩
    have measured : u32 w.totalSize = w.totalSize := Nat.mod_eq_of_lt short
    refine ⟨?_, ?_⟩
    · intro i below
      obtain rfl : i = 0 := by omega
      rw [first, last]
      congr 2
      omega
    · rw [count, PieceManager.sum_pieceLength count, last, Nat.zero_mul, Nat.zero_add, measured]

end Agreement

namespace TorrentFile

/-- One geometry: the total is the unbounded sum of non-negative lengths, both
classes measure every piece alike, and the pieces add up to the total. -/
structure ConsistentGeometry (metadataDict : List (Bytes × BType)) (torrent : TorrentFile) (w : DiskWriter)
    (pm : PieceManager) : Prop where
  nonneg : ∀ length ∈ declaredLengths metadataDict, 0 ≤ length
  total : (torrent.totalSize : Int) = (declaredLengths metadataDict).sum
  same : ∀ i < torrent.pieces.length, w.pieceLength i = .ok (pm.pieceLength i)
  covers : ((List.range torrent.pieces.length).map pm.pieceLength).sum = torrent.totalSize

/-- Metadata whose numbers fit together, which the constructor does not check. -/
structure WellMeasured (metadataDict : List (Bytes × BType)) : Prop where
  nonneg : ∀ length ∈ declaredLengths metadataDict, 0 ≤ length
  fits : (declaredLengths metadataDict).sum < 2 ^ 64
  hashes : (declaredHashes metadataDict - 1 : Int) * declaredPieceLength metadataDict <
      (declaredLengths metadataDict).sum ∧
    (declaredLengths metadataDict).sum ≤ declaredHashes metadataDict * declaredPieceLength metadataDict
  narrow : declaredPieceLength metadataDict < 2 ^ 32 ∨ (declaredLengths metadataDict).sum < 2 ^ 32

theorem pieceManager_spec {torrent : TorrentFile} {pm : PieceManager} (manager : torrent.pieceManager = some pm) :
    pm.mNumPieces = torrent.pieces.length ∧ pm.mNominalPieceLength = u32 torrent.pieceSize ∧
      pm.mTotalLengthBytes = u64 torrent.totalSize := by
  unfold pieceManager PieceManager.make at manager
  split at manager
  · rename_i same
    cases manager
    exact ⟨same.symm, rfl, rfl⟩
  · cases manager

theorem u32_of_wide_power {n k : Nat} (power : n = 2 ^ k) (wide : 2 ^ 32 ≤ n) : u32 n = 0 := by
  have above : 32 ≤ k := by
    rw [power] at wide
    exact (Nat.pow_le_pow_iff_right (by decide)).mp wide
  rw [power, u32]
  exact Nat.mod_eq_zero_of_dvd (Nat.pow_dvd_pow 2 above)

/-- The two classes agree exactly when the hashes are as many as the pieces and
the cast of the piece length loses nothing that matters. -/
theorem piecesAgree_iff {pm : PieceManager} {w : DiskWriter} {k : Nat} (power : w.pieceSize = 2 ^ k)
    (sized : w.pieceSize < 2 ^ 64) (positive : 0 < w.totalSize) (total : pm.mTotalLengthBytes = w.totalSize)
    (nominal : pm.mNominalPieceLength = u32 w.pieceSize) :
    PiecesAgree pm w ↔ ((pm.mNumPieces - 1 : Int) * w.pieceSize < w.totalSize ∧
      (w.totalSize : Int) ≤ pm.mNumPieces * w.pieceSize) ∧ (w.pieceSize < 2 ^ 32 ∨ w.totalSize < 2 ^ 32) := by
  cases count : pm.mNumPieces with
  | zero =>
    constructor
    · intro agree
      have covers := agree.covers
      simp only [count, List.range_zero, List.map_nil, List.sum_nil] at covers
      omega
    · rintro ⟨⟨_, within⟩, _⟩
      simp only [Int.natCast_zero, Int.zero_mul] at within
      omega
  | succ m =>
    have before : ((m + 1 : Nat) - 1 : Int) * w.pieceSize = (m * w.pieceSize : Nat) := by push_cast; ring
    have after : ((m + 1 : Nat) : Int) * w.pieceSize = (m * w.pieceSize + w.pieceSize : Nat) := by push_cast; ring
    rw [before, after, Int.ofNat_lt, Int.ofNat_le]
    rcases Nat.lt_or_ge w.pieceSize (2 ^ 32) with narrow | wide
    · rw [piecesAgree_narrow count total (by rw [nominal]; exact Nat.mod_eq_of_lt narrow)]
      simp only [narrow, true_or, and_true]
    · rw [piecesAgree_wide count total (by rw [nominal]; exact u32_of_wide_power power wide) wide sized positive]
      cases m with
      | zero => omega
      | succ m =>
        rw [Nat.succ_mul]
        omega

/-- The geometry is consistent exactly on metadata whose numbers fit together. -/
theorem piece_geometry_iff {sha1 : Bytes → Sha1Hash} {metadataDict : List (Bytes × BType)} {infoBytes : Bytes}
    {torrent : TorrentFile} {outputDir : Path} {w : DiskWriter} {pm : PieceManager}
    (accepted : make sha1 metadataDict infoBytes = .ok torrent) (writer : torrent.diskWriter outputDir = .ok w)
    (manager : torrent.pieceManager = some pm) :
    ConsistentGeometry metadataDict torrent w pm ↔ WellMeasured metadataDict := by
  obtain ⟨nonzero, _, layoutTotal⟩ := make_layout accepted
  obtain ⟨totalSize, pieceSize, sized, ⟨k, power⟩, hashes⟩ := make_declared accepted
  obtain ⟨positive, rfl⟩ := (diskWriter_eq_ok nonzero layoutTotal).mp writer
  obtain ⟨numPieces, nominal, total⟩ := pieceManager_spec manager
  have bounded : u64 torrent.totalSize = torrent.totalSize := Nat.mod_eq_of_lt (by omega)
  have agreement := @piecesAgree_iff pm
    ⟨outputDir, torrent.pieceSize, torrent.totalSize, (DiskWriter.layoutFiles 0 torrent.fileLayout).1⟩ k power sized
    (Nat.pos_of_ne_zero positive) (total.trans bounded) nominal
  simp only at agreement
  constructor
  · intro consistent
    have sum := consistent.total
    obtain ⟨filled, narrow⟩ := agreement.mp
      ⟨by rw [numPieces]; exact consistent.same, by rw [numPieces]; exact consistent.covers⟩
    rw [numPieces, hashes, pieceSize, sum] at filled
    rw [pieceSize] at narrow
    exact ⟨consistent.nonneg, by omega, filled, narrow.imp_right fun short => by omega⟩
  · intro measured
    have nonneg : 0 ≤ (declaredLengths metadataDict).sum := List.sum_nonneg measured.nonneg
    have sum : (torrent.totalSize : Int) = (declaredLengths metadataDict).sum := by
      rw [totalSize]
      exact Int.emod_eq_of_lt nonneg measured.fits
    have agree := agreement.mpr
      ⟨by rw [numPieces, hashes, pieceSize, sum]; exact measured.hashes,
        by rw [pieceSize]; exact measured.narrow.imp_right fun short => by omega⟩
    exact ⟨measured.nonneg, sum, by rw [← numPieces]; exact agree.same, by rw [← numPieces]; exact agree.covers⟩

/-- Metadata of one file of one byte with the given number of piece hashes. -/
def hashedMetadata (hashes : Nat) : List (Bytes × BType) :=
  [(text ['a', 'n', 'n', 'o', 'u', 'n', 'c', 'e'], .string (text ['u', 'd', 'p', ':', '/', '/', 't'])),
    (text ['i', 'n', 'f', 'o'], .dict [
      (text ['l', 'e', 'n', 'g', 't', 'h'], .integer 1),
      (text ['n', 'a', 'm', 'e'], .string (text ['n'])),
      (text ['p', 'i', 'e', 'c', 'e', ' ', 'l', 'e', 'n', 'g', 't', 'h'], .integer 16384),
      (text ['p', 'i', 'e', 'c', 'e', 's'], .string (List.replicate (20 * hashes) 0))])]

/-- Metadata of two files in three pieces, the second across both files and the
last one short. -/
def threePieceMetadata : List (Bytes × BType) :=
  let file := fun (name : Char) (length : Int64) => BType.dict [(text ['l', 'e', 'n', 'g', 't', 'h'], .integer length),
    (text ['p', 'a', 't', 'h'], .list [.string (text [name])])]
  [(text ['a', 'n', 'n', 'o', 'u', 'n', 'c', 'e'], .string (text ['u', 'd', 'p', ':', '/', '/', 't'])),
    (text ['i', 'n', 'f', 'o'], .dict [
      (text ['f', 'i', 'l', 'e', 's'], .list [file 'a' 20000, file 'b' 13000]),
      (text ['n', 'a', 'm', 'e'], .string (text ['n'])),
      (text ['p', 'i', 'e', 'c', 'e', ' ', 'l', 'e', 'n', 'g', 't', 'h'], .integer 16384),
      (text ['p', 'i', 'e', 'c', 'e', 's'], .string (List.replicate 60 0))])]

theorem piece_geometry_three_pieces : ∃ torrent w pm,
    make oneByteSha1 threePieceMetadata [100, 101] = .ok torrent ∧ torrent.diskWriter ⟨text ['o']⟩ = .ok w ∧
    torrent.pieceManager = some pm ∧ pm.mNumPieces = 3 ∧ pm.pieceLength 2 = 232 ∧
    ConsistentGeometry threePieceMetadata torrent w pm := by
  obtain ⟨torrent, accepted, pieces⟩ : ∃ torrent, make oneByteSha1 threePieceMetadata [100, 101] = .ok torrent ∧
      torrent.pieces.length = 3 := ⟨_, rfl, rfl⟩
  obtain ⟨w, writer⟩ : ∃ w, torrent.diskWriter ⟨text ['o']⟩ = .ok w := by
    cases accepted
    exact ⟨_, rfl⟩
  obtain ⟨pm, manager, last⟩ : ∃ pm, torrent.pieceManager = some pm ∧ pm.pieceLength 2 = 232 := by
    cases accepted
    exact ⟨_, rfl, rfl⟩
  refine ⟨torrent, w, pm, accepted, writer, manager, (pieceManager_spec manager).1.trans pieces, last,
    (piece_geometry_iff accepted writer manager).mpr ?_⟩
  exact ⟨by decide, by decide, by decide, by decide⟩

/-- Two hashes for one byte: the piece manager takes piece 0 for a full piece,
the disk writer for one of one byte. -/
theorem piece_geometry_two_hashes : ∃ torrent w pm,
    make oneByteSha1 (hashedMetadata 2) [100, 101] = .ok torrent ∧ torrent.diskWriter ⟨text ['o']⟩ = .ok w ∧
    torrent.pieceManager = some pm ∧ pm.pieceLength 0 = 16384 ∧ w.pieceLength 0 = .ok 1 ∧
    pm.pieceLength 1 = 4294950913 ∧ w.pieceLength 1 = .error (.indexOutOfRange 1) ∧
    ¬ConsistentGeometry (hashedMetadata 2) torrent w pm := by
  refine ⟨_, _, _, rfl, rfl, rfl, rfl, rfl, rfl, rfl, fun consistent => ?_⟩
  have beyond := consistent.same 1 (by decide)
  cases beyond

end TorrentFile

end BittorrentClient
