import BittorrentClient.Dht.AddEntry
import BittorrentClient.Library.TextStream

namespace BittorrentClient.Dht
open Cpp

/-- `NodeId::hex`. -/
def NodeId.hex (id : NodeId) : Bytes := id.bytes.flatMap hexByte

structure RoutingTableSnapshot where
  selfId : NodeId
  entries : List RoutingEntry

structure RoutingTableStoreResult where
  ok : Bool
  error : Bytes
  snapshot : RoutingTableSnapshot

/-- What the file system does for `save`: whether a directory is there or can be
made, whether the file opens, how many bytes it takes, and whether the stream
knows of a loss by the time it is asked. What is still in its buffer then is
flushed later, and a loss there goes unnoticed. -/
structure StoreIo where
  directory : Bytes → Bool
  opens : Bool
  takes : Nat
  notices : Bool

/-- What `save` returns, the error it reports and the file it leaves behind. -/
structure SaveOutcome where
  ok : Bool
  error : Bytes
  file : Option Bytes

namespace RoutingTableStore

/-- The directory that `ensure_parent_dir` asks for, if any. -/
def parentDir (path : Bytes) : Option Bytes :=
  if 47 ∈ path then
    let dir := ((path.reverse.dropWhile (· ≠ 47)).drop 1).reverse
    if dir.isEmpty then none else some dir
  else none

/-- The loop of `node_id_from_hex`, which converts two digits at a time. -/
def hexBytes : (count : Nat) → Bytes → Except StdError Bytes
  | 0, _ => .ok []
  | count + 1, hex => do
    let byte ← stoulHex (hex.take 2)
    let rest ← hexBytes count (hex.drop 2)
    return UInt8.ofNat byte :: rest

/-- `node_id_from_hex`; `none` is its `false`. -/
def nodeIdFromHex (hex : Bytes) : Except StdError (Option NodeId) :=
  if hex.length ≠ 40 then .ok none
  else do
    let bytes ← hexBytes 20 hex
    return some (.fromString bytes)

def versionMark : Bytes := text ['v', 'e', 'r', 's', 'i', 'o', 'n', '=']

def selfIdMark : Bytes := text ['s', 'e', 'l', 'f', '_', 'i', 'd', '=']

def entryMark : Bytes := text ['e', 'n', 't', 'r', 'y', '=']

/-- `parse_entry_line`. The entry counts as last seen at the epoch. -/
def parseEntryLine (line : Bytes) : Except StdError (Option RoutingEntry) :=
  if !entryMark.isPrefixOf line then .ok none
  else
    match extractWord (line.drop 6) with
    | none => .ok none
    | some (idHex, rest) =>
      match extractWord rest with
      | none => .ok none
      | some (ip, rest) =>
        match extractU16 rest with
        | none => .ok none
        | some port => do
          let id ← nodeIdFromHex idHex
          return id.map fun id => ⟨⟨id, ⟨ip, port⟩⟩, 0⟩

def unsupportedVersion (line : Bytes) : Bytes :=
  text ['u', 'n', 's', 'u', 'p', 'p', 'o', 'r', 't', 'e', 'd', ' ', 'r', 'o', 'u', 't', 'i', 'n', 'g', ' ', 't', 'a',
    'b', 'l', 'e', ' ', 'v', 'e', 'r', 's', 'i', 'o', 'n', ':', ' '] ++ line

def malformedEntry (line : Bytes) : Bytes :=
  text ['m', 'a', 'l', 'f', 'o', 'r', 'm', 'e', 'd', ' ', 'e', 'n', 't', 'r', 'y', ' ', 'l', 'i', 'n', 'e', ':', ' '] ++
    line

def noEntries : Bytes :=
  text ['n', 'o', ' ', 'e', 'n', 't', 'r', 'i', 'e', 's', ' ', 'i', 'n', ' ', 'r', 'o', 'u', 't', 'i', 'n', 'g', ' ',
    't', 'a', 'b', 'l', 'e', ' ', 'f', 'i', 'l', 'e']

def fileNotFound (path : Bytes) : Bytes :=
  text ['f', 'i', 'l', 'e', ' ', 'n', 'o', 't', ' ', 'f', 'o', 'u', 'n', 'd', ':', ' '] ++ path

/-- The loop of `load` over the lines that are left, and what follows it. -/
def loadLines : List Bytes → RoutingTableSnapshot → Except StdError RoutingTableStoreResult
  | [], snapshot =>
    .ok (if snapshot.entries.isEmpty then ⟨false, noEntries, snapshot⟩ else ⟨true, [], snapshot⟩)
  | line :: rest, snapshot =>
    if line.isEmpty ∨ line.head? = some 35 then loadLines rest snapshot
    else if versionMark.isPrefixOf line then
      if line ≠ versionMark ++ text ['1'] then .ok ⟨false, unsupportedVersion line, snapshot⟩
      else loadLines rest snapshot
    else if selfIdMark.isPrefixOf line then do
      let id ← nodeIdFromHex (line.drop 8)
      loadLines rest (id.elim snapshot fun id => { snapshot with selfId := id })
    else if entryMark.isPrefixOf line then do
      match ← parseEntryLine line with
      | none => return ⟨false, malformedEntry line, snapshot⟩
      | some entry => loadLines rest { snapshot with entries := snapshot.entries ++ [entry] }
    else loadLines rest snapshot

/-- `load`. The conversions of `node_id_from_hex` may throw. -/
def load (path : Bytes) (file : Option Bytes) : Except StdError RoutingTableStoreResult :=
  match file with
  | none => .ok ⟨false, fileNotFound path, ⟨.zero, []⟩⟩
  | some content => loadLines (lines content) ⟨.zero, []⟩

def entryLine (entry : RoutingEntry) : Bytes :=
  entryMark ++ entry.id.hex ++ 32 :: (entry.pa.ip ++ 32 :: toStringUnsigned entry.pa.port.toNat)

def heading : Bytes :=
  text ['#', ' ', 'D', 'H', 'T', ' ', 'r', 'o', 'u', 't', 'i', 'n', 'g', ' ', 't', 'a', 'b', 'l', 'e', ' ', '(', 'a',
    'u', 't', 'o', '-', 'g', 'e', 'n', 'e', 'r', 'a', 't', 'e', 'd', ')']

/-- The lines that `save` writes, each with a newline behind it. -/
def savedLines (entries : List RoutingEntry) (selfId : NodeId) : List Bytes :=
  heading :: (versionMark ++ text ['1']) :: (selfIdMark ++ selfId.hex) :: entries.map entryLine

def savedText (entries : List RoutingEntry) (selfId : NodeId) : Bytes :=
  (savedLines entries selfId).flatMap (· ++ [10])

/-- `save`, with the file at the path as it was. -/
def save (io : StoreIo) (table : RoutingTable) (selfId : NodeId) (path : Bytes) (file : Option Bytes) : SaveOutcome :=
  if ((parentDir path).map io.directory).getD true = false then
    ⟨false, text ['f', 'a', 'i', 'l', 'e', 'd', ' ', 't', 'o', ' ', 'c', 'r', 'e', 'a', 't', 'e', ' ', 'd', 'i', 'r', 'e',
      'c', 't', 'o', 'r', 'y', ':', ' '] ++ (parentDir path).getD [], file⟩
  else if table.all.isEmpty then ⟨true, [], file⟩
  else if !io.opens then
    ⟨false, text ['f', 'a', 'i', 'l', 'e', 'd', ' ', 't', 'o', ' ', 'o', 'p', 'e', 'n', ' ', 'f', 'o', 'r', ' ', 'w', 'r',
      'i', 't', 'e', ':', ' '] ++ path, file⟩
  else
    let content := savedText table.all selfId
    ⟨content.length ≤ io.takes || !io.notices, [], some (content.take io.takes)⟩

/-- The file opens, in a directory that is there, and takes the whole text. -/
structure TakesWhole (io : StoreIo) (path content : Bytes) : Prop where
  directory : ((parentDir path).map io.directory).getD true = true
  opens : io.opens = true
  takes : content.length ≤ io.takes

end RoutingTableStore

end BittorrentClient.Dht
