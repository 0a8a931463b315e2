import BittorrentClient.Library.FileTree
import BittorrentClient.Library.Splice

namespace BittorrentClient
open Cpp Splice

/-- `uint64_t` and `uint32_t` conversions. -/
def u64 (n : Nat) : Nat := n % 2 ^ 64

def u32 (n : Nat) : Nat := n % 2 ^ 32

/-- `uint64_t` subtraction. -/
def sub64 (a b : Nat) : Nat := (a + 2 ^ 64 - b) % 2 ^ 64

/-- The exceptions of `DiskWriter`, with the values their texts carry. -/
inductive DiskError
  | invalidPieceSize
  | invalidTotalSize
  | emptyLayout
  | layoutSizeMismatch (layoutTotal torrentTotal : Nat)
  | directoriesFailed (path : Path)
  | createFailed (path : Path)
  | preallocateFailed (path : Path)
  | notPreallocated
  | indexOutOfRange (index : Nat)
  | writeSizeMismatch (index expected got : Nat)
  | writeOpenFailed (path : Path)
  | writeFailed (path : Path)
  | writeNotMapped (index remaining : Nat)
  | readOpenFailed (path : Path)
  | readFailed (path : Path)
  | readNotMapped (index remaining : Nat)
  deriving DecidableEq

/-- The file system, and the flag `m_files_preallocated`. -/
structure Disk extends FileTree where
  preallocated : Bool

/-- Nothing but the root directory, which is the working directory too. -/
def Disk.bare : Disk := ⟨⟨[], fun _ => false, fun _ => none⟩, false⟩

/-- What the environment does to one operation: files and directories that do not
open, and files that take only so many of the bytes written to them. The stream is
tested before it is flushed, so `reports` says whether the loss is seen by then. -/
structure IoFaults where
  openFails : Path → Bool
  accepts : Path → Option Nat
  reports : Path → Bool

def IoFaults.none : IoFaults := ⟨fun _ => false, fun _ => Option.none, fun _ => true⟩

/-- What a write to this path loses is noticed. -/
def IoFaults.Tells (faults : IoFaults) (path : Path) : Prop := faults.accepts path = Option.none ∨ faults.reports path = true

instance (faults : IoFaults) (path : Path) : Decidable (faults.Tells path) := inferInstanceAs (Decidable (_ ∨ _))

namespace Disk

def store (disk : Disk) (path : Path) (content : Bytes) : Disk :=
  { disk with toFileTree := disk.toFileTree.store path content }

/-- `seekp(start)` and `write(bytes)` on a stream opened for reading and
writing. `std::streamoff` is signed, so a position from `2^63` on is refused. -/
def writeAt (disk : Disk) (faults : IoFaults) (path : Path) (start : Nat) (bytes : Bytes) :
    Disk × Except DiskError Unit :=
  match disk.content path with
  | none => (disk, .error (.writeOpenFailed path))
  | some content =>
    if faults.openFails path then (disk, .error (.writeOpenFailed path))
    else if 2 ^ 63 ≤ start then (disk, .error (.writeFailed path))
    else
      let accepted := bytes.take ((faults.accepts path).getD bytes.length)
      let padded := content ++ List.replicate (start - content.length) 0
      (disk.store path (overwrite padded start accepted),
        if accepted.length < bytes.length ∧ faults.reports path = true then .error (.writeFailed path) else .ok ())

/-- `seekg(start)` and `read` of `chunk` bytes. -/
def readAt (disk : Disk) (faults : IoFaults) (path : Path) (start chunk : Nat) : Except DiskError Bytes :=
  match disk.content path with
  | none => .error (.readOpenFailed path)
  | some content =>
    if faults.openFails path then .error (.readOpenFailed path)
    else if 2 ^ 63 ≤ start then .error (.readFailed path)
    else if (slice content start chunk).length = chunk then .ok (slice content start chunk)
    else .error (.readFailed path)

/-- `create_directories` for all of these paths, each of which begins with the one before. -/
def createDirectories (disk : Disk) (faults : IoFaults) (paths : List Path) : Disk × Bool :=
  match FileTree.makeDirectories faults.openFails paths disk.toFileTree with
  | (tree, made) => ({ disk with toFileTree := tree }, made)

/-- `std::ofstream` with `trunc`. -/
def create (disk : Disk) (faults : IoFaults) (path : Path) : Option Disk :=
  if faults.openFails path then none
  else (disk.toFileTree.create path).map fun tree => { disk with toFileTree := tree }

end Disk

structure FileEntry where
  relPath : Path
  length : Nat
  offset : Nat

/-- The fields of `DiskWriter` that never change after construction. -/
structure DiskWriter where
  outputDir : Path
  pieceSize : Nat
  totalSize : Nat
  files : List FileEntry

namespace DiskWriter

/-- The loop of the constructor: offsets are running `uint64_t` sums. -/
def layoutFiles : Nat → List (Path × Nat) → List FileEntry × Nat
  | runningOffset, [] => ([], runningOffset)
  | runningOffset, (relPath, length) :: rest =>
    let (files, total) := layoutFiles (u64 (runningOffset + length)) rest
    (⟨relPath, length, runningOffset⟩ :: files, total)

/-- `DiskWriter::DiskWriter`, on the piece size, total size and file layout
it takes from the torrent. -/
def make (outputDir : Path) (pieceSize totalSize : Nat) (fileLayout : List (Path × Nat)) :
    Except DiskError DiskWriter :=
  let (files, runningOffset) := layoutFiles 0 fileLayout
  if pieceSize = 0 then .error .invalidPieceSize
  else if totalSize = 0 then .error .invalidTotalSize
  else if files.isEmpty then .error .emptyLayout
  else if runningOffset ≠ totalSize then .error (.layoutSizeMismatch runningOffset totalSize)
  else .ok ⟨outputDir, pieceSize, totalSize, files⟩

def absolutePath (w : DiskWriter) (file : FileEntry) : Path := w.outputDir / file.relPath

/-- The loop of `preallocate_files`. A file of positive length is extended by
one byte written at its last position. -/
def preallocateLoop (w : DiskWriter) (faults : IoFaults) : List FileEntry → Disk → Disk × Except DiskError Unit
  | [], disk => (disk, .ok ())
  | file :: rest, disk =>
    let path := w.absolutePath file
    match disk.createDirectories faults path.directories with
    | (stuck, false) => (stuck, .error (.directoriesFailed path))
    | (made, true) =>
      match made.create faults path with
      | none => (made, .error (.createFailed path))
      | some created =>
        if file.length = 0 then preallocateLoop w faults rest created
        else
          match created.writeAt faults path (file.length - 1) [0] with
          | (extended, .ok _) => preallocateLoop w faults rest extended
          | (extended, .error _) => (extended, .error (.preallocateFailed path))

/-- `create_directories` refuses an empty path. -/
def preallocateFiles (w : DiskWriter) (faults : IoFaults) (disk : Disk) : Disk × Except DiskError Unit :=
  if w.outputDir.native.isEmpty then (disk, .error (.directoriesFailed w.outputDir))
  else
    match disk.createDirectories faults (w.outputDir.directories ++ [w.outputDir]) with
    | (stuck, false) => (stuck, .error (.directoriesFailed w.outputDir))
    | (made, true) =>
      match preallocateLoop w faults w.files made with
      | (done, .ok _) => ({ done with preallocated := true }, .ok ())
      | (failed, .error error) => (failed, .error error)

def pieceGlobalOffset (w : DiskWriter) (index : Nat) : Nat := u64 (index * w.pieceSize)

def pieceLength (w : DiskWriter) (index : Nat) : Except DiskError Nat :=
  let begin_ := w.pieceGlobalOffset index
  if w.totalSize ≤ begin_ then .error (.indexOutOfRange index)
  else
    let end_ := min (u64 (begin_ + w.pieceSize)) w.totalSize
    .ok (u32 (sub64 end_ begin_))

/-- Where the write or read of a file begins, given the global offset. -/
def startInFile (offset : Nat) (file : FileEntry) : Nat :=
  if file.offset < offset then sub64 offset file.offset else 0

/-- The loop of `write_piece`; the result is what remains to be written. -/
def writeLoop (w : DiskWriter) (faults : IoFaults) (data : Bytes) :
    List FileEntry → (writeOffset remaining dataPos : Nat) → Disk → Disk × Except DiskError Nat
  | [], _, remaining, _, disk => (disk, .ok remaining)
  | file :: rest, writeOffset, remaining, dataPos, disk =>
    if remaining = 0 then (disk, .ok remaining)
    else if u64 (file.offset + file.length) ≤ writeOffset then
      writeLoop w faults data rest writeOffset remaining dataPos disk
    else if u64 (writeOffset + remaining) ≤ file.offset then (disk, .ok remaining)
    else
      let start := startInFile writeOffset file
      let chunk := min remaining (sub64 file.length start)
      match disk.writeAt faults (w.absolutePath file) start (slice data dataPos chunk) with
      | (written, .ok _) =>
        writeLoop w faults data rest (u64 (writeOffset + chunk)) (remaining - chunk) (dataPos + chunk) written
      | (failed, .error error) => (failed, .error error)

def writePiece (w : DiskWriter) (faults : IoFaults) (index : Nat) (data : Bytes) (disk : Disk) :
    Disk × Except DiskError Unit :=
  if !disk.preallocated then (disk, .error .notPreallocated)
  else
    match w.pieceLength index with
    | .error error => (disk, .error error)
    | .ok expected =>
      if data.length ≠ expected then (disk, .error (.writeSizeMismatch index expected data.length))
      else
        match writeLoop w faults data w.files (w.pieceGlobalOffset index) data.length 0 disk with
        | (done, .ok remaining) =>
          (done, if remaining ≠ 0 then .error (.writeNotMapped index remaining) else .ok ())
        | (failed, .error error) => (failed, .error error)

/-- The loop of `read_piece`; the result is what was read and what remains. -/
def readLoop (w : DiskWriter) (faults : IoFaults) (disk : Disk) :
    List FileEntry → (readOffset remaining : Nat) → Bytes → Except DiskError (Bytes × Nat)
  | [], _, remaining, out => .ok (out, remaining)
  | file :: rest, readOffset, remaining, out =>
    if remaining = 0 then .ok (out, remaining)
    else if u64 (file.offset + file.length) ≤ readOffset then readLoop w faults disk rest readOffset remaining out
    else if u64 (readOffset + remaining) ≤ file.offset then .ok (out, remaining)
    else
      let start := startInFile readOffset file
      let chunk := min remaining (sub64 file.length start)
      match disk.readAt faults (w.absolutePath file) start chunk with
      | .ok bytes => readLoop w faults disk rest (u64 (readOffset + chunk)) (remaining - chunk) (out ++ bytes)
      | .error error => .error error

def readPiece (w : DiskWriter) (faults : IoFaults) (index : Nat) (disk : Disk) : Except DiskError Bytes :=
  if !disk.preallocated then .error .notPreallocated
  else
    match w.pieceLength index with
    | .error error => .error error
    | .ok len =>
      match readLoop w faults disk w.files (w.pieceGlobalOffset index) len [] with
      | .ok (out, remaining) => if remaining ≠ 0 then .error (.readNotMapped index remaining) else .ok out
      | .error error => .error error

/-- `file_indices_for_piece`, the mutexes of a write or a read. -/
def fileIndicesForPiece (w : DiskWriter) (index : Nat) : Except DiskError (List Nat) :=
  match w.pieceLength index with
  | .error error => .error error
  | .ok length =>
    let beg := w.pieceGlobalOffset index
    let end_ := u64 (beg + length)
    .ok ((w.files.zipIdx.filter fun (f, _) => !(end_ ≤ f.offset || u64 (f.offset + f.length) ≤ beg)).map Prod.snd)

end DiskWriter

end BittorrentClient
