import BittorrentClient.Bencode.Types
import BittorrentClient.Disk.DiskWriter
import BittorrentClient.Library.Outcome
import BittorrentClient.Pieces.PieceManager

namespace BittorrentClient
open Cpp

inductive TrackerProtocol
  | http
  | https
  | udp
  deriving DecidableEq

/-- The exceptions of `TorrentFile`'s constructor, with the values their texts
carry. -/
inductive TorrentError
  | noInfoBytes
  | noAnnounce
  | noInfo
  | missingKey (key : Bytes)
  | wrongType (key : Bytes)
  | unexpectedBType
  | invalidAnnounceUrl (announce : Bytes)
  | unknownProtocol (scheme : Bytes)
  | port (error : StdError)
  | pieceLengthNotPowerOfTwo
  | pieceLengthTooSmall
  | filesEntryNotDictionary
  deriving DecidableEq

namespace TrackerProtocol

def defaultPort : TrackerProtocol → Nat
  | .http => 80
  | .https => 443
  | .udp => 6969

def fromScheme (s : Bytes) : Except TorrentError TrackerProtocol :=
  if s = text ['h', 't', 't', 'p'] then .ok .http
  else if s = text ['h', 't', 't', 'p', 's'] then .ok .https
  else if s = text ['u', 'd', 'p'] then .ok .udp
  else .error (.unknownProtocol s)

end TrackerProtocol

structure TrackerDetails where
  protocol : TrackerProtocol
  hostname : Bytes
  port : Nat
  path : Bytes

/-- `std::string::find`, from position `pos` of what is left. -/
def findText (pattern : Bytes) : Bytes → Nat → Option Nat
  | [], pos => if pattern.isEmpty then some pos else none
  | c :: rest, pos => if pattern.isPrefixOf (c :: rest) then some pos else findText pattern rest (pos + 1)

/-- `std::stoi`: as `std::stoll`, for a 32-bit `int`. -/
def stoi (numStr : Bytes) : Except StdError Int := do
  let value ← stoll numStr
  if value.toInt < -2 ^ 31 ∨ 2 ^ 31 ≤ value.toInt then .error .outOfRange else .ok value.toInt

/-- The port is narrowed to `uint16_t` without a check. -/
def extractTrackerInformation (announce : Bytes) : Except TorrentError TrackerDetails := do
  match findText (text [':', '/', '/']) announce 0 with
  | none => .error (.invalidAnnounceUrl announce)
  | some start =>
    let protocol ← TrackerProtocol.fromScheme (announce.take start)
    let rest := announce.drop (start + 3)
    let authority := rest.takeWhile (· ≠ 47)
    let path := rest.drop authority.length
    let path := if path.isEmpty then text ['/'] else path
    let hostname := authority.takeWhile (· ≠ 58)
    if hostname.length < authority.length then
      match stoi (authority.drop (hostname.length + 1)) with
      | .error error => .error (.port error)
      | .ok port => .ok ⟨protocol, hostname, (port % 2 ^ 16).toNat, path⟩
    else .ok ⟨protocol, hostname, protocol.defaultPort, path⟩

namespace BDict

/-- The lookup of `get_val`, before its type test. -/
def find (dict : List (Bytes × BType)) (key : Bytes) : Except TorrentError BType :=
  match mapFind key dict with
  | none => .error (.missingKey key)
  | some value => .ok value

def hasKey (dict : List (Bytes × BType)) (key : Bytes) : Bool := (mapFind key dict).isSome

def getString (dict : List (Bytes × BType)) (key : Bytes) : Except TorrentError Bytes := do
  match ← find dict key with
  | .string content => .ok content
  | _ => .error (.wrongType key)

def getInteger (dict : List (Bytes × BType)) (key : Bytes) : Except TorrentError Int64 := do
  match ← find dict key with
  | .integer value => .ok value
  | _ => .error (.wrongType key)

def getList (dict : List (Bytes × BType)) (key : Bytes) : Except TorrentError (List BType) := do
  match ← find dict key with
  | .list content => .ok content
  | _ => .error (.wrongType key)

def getDict (dict : List (Bytes × BType)) (key : Bytes) : Except TorrentError (List (Bytes × BType)) := do
  match ← find dict key with
  | .dict content => .ok content
  | _ => .error (.wrongType key)

/-- A field of type string that may be missing. -/
def optionalString (dict : List (Bytes × BType)) (key : Bytes) : Except TorrentError Bytes :=
  if hasKey dict key then getString dict key else .ok []

end BDict

/-- `as<BString>`. -/
def asString : BType → Except TorrentError Bytes
  | .string content => .ok content
  | _ => .error .unexpectedBType

/-- `as<BList>`. -/
def asList : BType → Except TorrentError (List BType)
  | .list content => .ok content
  | _ => .error .unexpectedBType

def loadListOfBstrings (list : List BType) : Except TorrentError (List Bytes) := list.mapM asString

/-- `utils::is_power_of_two`. -/
def isPowerOfTwo (n : Nat) : Bool := 0 < n && n &&& (n - 1) == 0

namespace TorrentFile

structure File where
  length : Nat
  path : Path
  mtime : Bytes
  sha1 : Bytes
  crc32 : Bytes
  md5 : Bytes

end TorrentFile

structure TorrentFile where
  torrentName : Bytes
  isMultifile : Bool
  totalSize : Nat
  pieceSize : Nat
  files : List TorrentFile.File
  infoHash : Sha1Hash
  pieces : List Sha1Hash
  announceTracker : TrackerDetails
  announceListTrackers : List (List TrackerDetails)

namespace TorrentFile

/-- The `/=` loop over the parts of a path. -/
def joinParts (parts : List Bytes) : Path := parts.foldl (fun path part => path / ⟨part⟩) ⟨[]⟩

def loadFile : BType → Except TorrentError File
  | .dict fileDict => do
    let crc32 ← BDict.optionalString fileDict (text ['c', 'r', 'c', '3', '2'])
    let length ← BDict.getInteger fileDict (text ['l', 'e', 'n', 'g', 't', 'h'])
    let md5 ← BDict.optionalString fileDict (text ['m', 'd', '5'])
    let mtime ← BDict.optionalString fileDict (text ['m', 't', 'i', 'm', 'e'])
    let sha1 ← BDict.optionalString fileDict (text ['s', 'h', 'a', '1'])
    let partsOfPath ← loadListOfBstrings (← BDict.getList fileDict (text ['p', 'a', 't', 'h']))
    .ok ⟨length.toUInt64.toNat, joinParts partsOfPath, mtime, sha1, crc32, md5⟩
  | _ => .error .filesEntryNotDictionary

/-- `total_size += f.length`, in 64 bits. -/
def sumLengths (files : List File) : Nat := files.foldl (fun total file => u64 (total + file.length)) 0

/-- The hash of one piece in the `pieces` string. -/
def pieceHash (piecesStr : Bytes) (i : Fin (piecesStr.length / 20)) : Sha1Hash where
  bytes := Splice.slice piecesStr (i * 20) 20
  length_eq := by
    have below := i.isLt
    rw [Splice.slice_length (by omega)]

def loadAnnounceList (metadataDict : List (Bytes × BType)) : Except TorrentError (List (List TrackerDetails)) :=
  let key := text ['a', 'n', 'n', 'o', 'u', 'n', 'c', 'e', '-', 'l', 'i', 's', 't']
  if BDict.hasKey metadataDict key then do
    (← BDict.getList metadataDict key).mapM fun list => do
      (← loadListOfBstrings (← asList list)).mapM extractTrackerInformation
  else .ok []

def loadPieceSize (infoDict : List (Bytes × BType)) : Except TorrentError Nat := do
  let pieceLength ← BDict.getInteger infoDict (text ['p', 'i', 'e', 'c', 'e', ' ', 'l', 'e', 'n', 'g', 't', 'h'])
  let pieceSize := pieceLength.toUInt64.toNat
  if !isPowerOfTwo pieceSize then .error .pieceLengthNotPowerOfTwo
  else if pieceSize < 16 * 1024 then .error .pieceLengthTooSmall
  else .ok pieceSize

/-- The total size and the files; a single file is not listed among them. -/
def loadFiles (infoDict : List (Bytes × BType)) : Except TorrentError (Nat × List File) :=
  if BDict.hasKey infoDict (text ['f', 'i', 'l', 'e', 's']) then do
    let files ← (← BDict.getList infoDict (text ['f', 'i', 'l', 'e', 's'])).mapM loadFile
    .ok (sumLengths files, files)
  else do
    let length ← BDict.getInteger infoDict (text ['l', 'e', 'n', 'g', 't', 'h'])
    .ok (length.toUInt64.toNat, [])

/-- `TorrentFile::TorrentFile`, on the dictionary and the raw bytes of its
`info` value. -/
def make (sha1 : Bytes → Sha1Hash) (metadataDict : List (Bytes × BType)) (infoBytes : Bytes) :
    Except TorrentError TorrentFile :=
  if infoBytes.isEmpty then .error .noInfoBytes
  else if !BDict.hasKey metadataDict (text ['a', 'n', 'n', 'o', 'u', 'n', 'c', 'e']) then .error .noAnnounce
  else do
    let announce ← BDict.getString metadataDict (text ['a', 'n', 'n', 'o', 'u', 'n', 'c', 'e'])
    let announceTracker ← extractTrackerInformation announce
    let announceListTrackers ← loadAnnounceList metadataDict
    if !BDict.hasKey metadataDict (text ['i', 'n', 'f', 'o']) then .error .noInfo
    else
      let infoDict ← BDict.getDict metadataDict (text ['i', 'n', 'f', 'o'])
      let torrentName ← BDict.getString infoDict (text ['n', 'a', 'm', 'e'])
      let pieceSize ← loadPieceSize infoDict
      let (totalSize, files) ← loadFiles infoDict
      let piecesStr ← BDict.getString infoDict (text ['p', 'i', 'e', 'c', 'e', 's'])
      .ok {
        torrentName := torrentName
        isMultifile := BDict.hasKey infoDict (text ['f', 'i', 'l', 'e', 's'])
        totalSize := totalSize
        pieceSize := pieceSize
        files := files
        infoHash := sha1 infoBytes
        pieces := List.ofFn (pieceHash piecesStr)
        announceTracker := announceTracker
        announceListTrackers := announceListTrackers }

theorem find_eq_ok {dict : List (Bytes × BType)} {key : Bytes} {value : BType} :
    BDict.find dict key = .ok value ↔ mapFind key dict = some value := by
  unfold BDict.find
  cases mapFind key dict with
  | none => simp
  | some found => simp

theorem getString_eq_ok {dict : List (Bytes × BType)} {key content : Bytes} :
    BDict.getString dict key = .ok content ↔ mapFind key dict = some (.string content) := by
  unfold BDict.getString
  rw [bind_eq_ok, ← find_eq_ok]
  constructor
  · rintro ⟨value, found, typed⟩
    cases value <;> cases typed
    exact found
  · exact fun found => ⟨_, found, rfl⟩

theorem getList_eq_ok {dict : List (Bytes × BType)} {key : Bytes} {content : List BType} :
    BDict.getList dict key = .ok content ↔ mapFind key dict = some (.list content) := by
  unfold BDict.getList
  rw [bind_eq_ok, ← find_eq_ok]
  constructor
  · rintro ⟨value, found, typed⟩
    cases value <;> cases typed
    exact found
  · exact fun found => ⟨_, found, rfl⟩

theorem getDict_eq_ok {dict : List (Bytes × BType)} {key : Bytes} {content : List (Bytes × BType)} :
    BDict.getDict dict key = .ok content ↔ mapFind key dict = some (.dict content) := by
  unfold BDict.getDict
  rw [bind_eq_ok, ← find_eq_ok]
  constructor
  · rintro ⟨value, found, typed⟩
    cases value <;> cases typed
    exact found
  · exact fun found => ⟨_, found, rfl⟩

/-- Where the fields of a torrent were read: all of them in the one dictionary. -/
structure LoadedFrom (infoDict : List (Bytes × BType)) (torrent : TorrentFile) : Prop where
  torrentName : BDict.getString infoDict (text ['n', 'a', 'm', 'e']) = .ok torrent.torrentName
  isMultifile : torrent.isMultifile = BDict.hasKey infoDict (text ['f', 'i', 'l', 'e', 's'])
  pieceSize : loadPieceSize infoDict = .ok torrent.pieceSize
  files : loadFiles infoDict = .ok (torrent.totalSize, torrent.files)
  pieces : ∃ piecesStr, BDict.getString infoDict (text ['p', 'i', 'e', 'c', 'e', 's']) = .ok piecesStr ∧
    torrent.pieces = List.ofFn (pieceHash piecesStr)

/-- What the constructor takes from the metadata when it does not throw. -/
theorem make_loaded {sha1 : Bytes → Sha1Hash} {metadataDict : List (Bytes × BType)} {infoBytes : Bytes}
    {torrent : TorrentFile} (accepted : make sha1 metadataDict infoBytes = .ok torrent) :
    torrent.infoHash = sha1 infoBytes ∧
      ∃ infoDict, BDict.getDict metadataDict (text ['i', 'n', 'f', 'o']) = .ok infoDict ∧ LoadedFrom infoDict torrent := by
  unfold make at accepted
  split at accepted
  · cases accepted
  split at accepted
  · cases accepted
  obtain ⟨announce, _, afterAnnounce⟩ := bind_eq_ok.mp accepted
  obtain ⟨tracker, _, afterTracker⟩ := bind_eq_ok.mp afterAnnounce
  obtain ⟨trackers, _, afterTrackers⟩ := bind_eq_ok.mp afterTracker
  split at afterTrackers
  · cases afterTrackers
  obtain ⟨infoDict, info, afterInfo⟩ := bind_eq_ok.mp afterTrackers
  obtain ⟨name, named, afterName⟩ := bind_eq_ok.mp afterInfo
  obtain ⟨pieceSize, sized, afterSize⟩ := bind_eq_ok.mp afterName
  obtain ⟨⟨totalSize, files⟩, loaded, afterFiles⟩ := bind_eq_ok.mp afterSize
  obtain ⟨piecesStr, pieces, built⟩ := bind_eq_ok.mp afterFiles
  cases built
  exact ⟨rfl, infoDict, info, named, rfl, sized, loaded, piecesStr, pieces, rfl⟩

def fileLayout (torrent : TorrentFile) : List (Path × Nat) :=
  if torrent.isMultifile then torrent.files.map (fun f => (f.path, f.length))
  else [(⟨torrent.torrentName⟩, torrent.totalSize)]

/-- `DiskWriter::DiskWriter`. -/
def diskWriter (torrent : TorrentFile) (outputDir : Path) : Except DiskError DiskWriter :=
  DiskWriter.make outputDir torrent.pieceSize torrent.totalSize torrent.fileLayout

end TorrentFile

end BittorrentClient
