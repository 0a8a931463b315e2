import BittorrentClient.Bencode.Bounds
import BittorrentClient.Net.Sending
import BittorrentClient.Net.Socket
import BittorrentClient.Torrent.PieceGeometry
import BittorrentClient.Trackers.CompactPeers
import BittorrentClient.Trackers.HttpAnnounce

namespace BittorrentClient
open Cpp Bencode

/-- The exceptions of `recv_all_with_timeout`. -/
inductive RecvAllError
  | timedOut (timeoutMs : Nat)
  | recv (error : RecvError)

namespace TCPDataSocket

/-- How much a socket still has to give, a round for each segment included. -/
def unread : List Arrival → Nat
  | [] => 0
  | .data segment :: rest => segment.length + 1 + unread rest
  | _ :: rest => 1 + unread rest

theorem unread_recvWithTimeout {size : Nat} (positive : 0 < size) {socket rest : List Arrival} {got : Bytes} (some : got ≠ [])
    (read : recvWithTimeout size socket = (.ok got, rest)) : unread rest < unread socket := by
  cases socket with
  | nil =>
    cases read
    exact absurd rfl some
  | cons arrival others =>
    cases arrival with
    | data segment =>
      cases read
      have nonempty : segment ≠ [] := by
        rintro rfl
        exact some List.take_nil
      have length := List.length_pos_of_ne_nil nonempty
      split
      case isTrue =>
        simp only [unread]
        omega
      case isFalse =>
        simp only [unread, List.length_drop]
        omega
    | late remainingMs => cases read
    | pollFailed errno => cases read
    | recvFailed errno => cases read

/-- The loop of `recv_all_with_timeout`; `result` is what it has so far. -/
def recvAllWithTimeout (timeoutMs : Nat) (result : Bytes) (socket : List Arrival) : Except RecvAllError Bytes :=
  if expired socket then .error (.timedOut timeoutMs)
  else
    match _read : recvWithTimeout 4096 socket with
    | (.error error, _) => .error (.recv error)
    | (.ok [], _) => .ok result
    | (.ok (first :: got), rest) => recvAllWithTimeout timeoutMs (result ++ first :: got) rest
termination_by unread socket
decreasing_by exact unread_recvWithTimeout (by decide) (List.cons_ne_nil first got) _read

/-- The peer sends the bytes and closes. -/
inductive Closes : List Arrival → Bytes → Prop
  | ended : Closes [] []
  | closed {rest} : Closes (.data [] :: rest) []
  | more {segment bytes rest} : segment ≠ [] → Closes rest bytes → Closes (.data segment :: rest) (segment ++ bytes)

theorem Closes.next {segment : Bytes} {rest : List Arrival} {bytes : Bytes} (some : segment ≠ [])
    (closes : Closes (.data segment :: rest) bytes) : ∃ later, bytes = segment ++ later ∧ Closes rest later := by
  cases closes with
  | closed => exact absurd rfl some
  | more _ later => exact ⟨_, rfl, later⟩

section Rounds
variable {size : Nat} {socket rest : List Arrival} {got bytes : Bytes}

end Rounds

end TCPDataSocket

namespace HttpTracker

theorem length_drop_lt (metadata : Metadata) (n : Nat) : (metadata.bytes.drop n).length < 2 ^ 64 := by
  have size := metadata.size_lt
  rw [List.length_drop]
  omega

structure HttpResponse where
  statusCode : Int
  body : Metadata

/-- The exceptions of `parse_http_response`. -/
inductive HttpError
  | noSeparator
  | statusLine
  | statusCode (error : StdError)

def parseHttpResponse (raw : Metadata) : Except HttpError HttpResponse :=
  match findText (text ['\r', '\n', '\r', '\n']) raw.bytes 0 with
  | none => .error .noSeparator
  | some headerEnd =>
    let statusLine := raw.bytes.take ((findText (text ['\r', '\n']) raw.bytes 0).getD raw.bytes.length)
    match findText (text [' ']) statusLine 0 with
    | none => .error .statusLine
    | some space1 =>
      let space2 := (findText (text [' ']) (statusLine.drop (space1 + 1)) (space1 + 1)).getD statusLine.length
      match stoi ((statusLine.drop (space1 + 1)).take (space2 - space1 - 1)) with
      | .error error => .error (.statusCode error)
      | .ok statusCode => .ok ⟨statusCode, raw.bytes.drop (headerEnd + 4), length_drop_lt raw (headerEnd + 4)⟩

/-- The exceptions of an announce. -/
inductive TrackerError
  | dnsLookupFailed (hostname : Bytes)
  | exhausted (hostname : Bytes)
  | parser (error : ParseError)
  | field (error : TorrentError)
  | failure (reason : Bytes)
  | peersType

/-- `as<BDict>`. -/
def asDict : BType → Except TorrentError (List (Bytes × BType))
  | .dict content => .ok content
  | _ => .error .unexpectedBType

/-- An entry of `peers` in dictionary format. -/
def readPeer (entry : BType) : Except TorrentError PeerAddress := do
  let pd ← asDict entry
  let ip ← BDict.getString pd (text ['i', 'p'])
  let port ← BDict.getInteger pd (text ['p', 'o', 'r', 't'])
  .ok ⟨ip, port.toUInt64.toUInt16⟩

def failureReason : Bytes := text ['f', 'a', 'i', 'l', 'u', 'r', 'e', ' ', 'r', 'e', 'a', 's', 'o', 'n']

def intervalKey : Bytes := text ['i', 'n', 't', 'e', 'r', 'v', 'a', 'l']

/-- The interval is read for the log. -/
def readInterval (dict : List (Bytes × BType)) : Except TorrentError (Option Int64) :=
  if BDict.hasKey dict intervalKey then (BDict.getInteger dict intervalKey).map some else .ok none

def readPeers (inet : Inet) (dict : List (Bytes × BType)) : Except TrackerError (List PeerAddress) :=
  match mapFind (text ['p', 'e', 'e', 'r', 's']) dict with
  | none => .ok []
  | some (.string compact) => .ok (parseCompactPeers inet compact)
  | some (.list entries) => (entries.mapM readPeer).mapError .field
  | some _ => .error .peersType

def parseTrackerResponse (inet : Inet) (body : Metadata) : Except TrackerError (List PeerAddress) := do
  let (root, _) ← (Parser.parseValue body 0).mapError .parser
  let dict ← (asDict root).mapError .field
  if BDict.hasKey dict failureReason then do
    let reason ← (BDict.getString dict failureReason).mapError .field
    .error (.failure reason)
  else do
    let _ ← (readInterval dict).mapError .field
    readPeers inet dict

/-- What comes of one address: whether it can be connected, what the kernel takes of
the request and what arrives, or under TLS what is received in the end. -/
structure Attempt where
  connects : Bool
  takings : List Taking
  arrivals : List Arrival
  received : Option Metadata

/-- `append` throws where a string would be too long. -/
def bounded (bytes : Bytes) : Option Metadata := if size : bytes.length < 2 ^ 64 then some ⟨bytes, size⟩ else none

namespace Attempt

/-- `raw_response`, where nothing is thrown. -/
def rawResponse (attempt : Attempt) (useTls : Bool) (request : Bytes) : Option Metadata :=
  if !attempt.connects then none
  else if useTls then attempt.received
  else
    match TCPDataSocket.send request attempt.takings with
    | (.error _, _) => none
    | (.ok _, _) => (TCPDataSocket.recvAllWithTimeout 15000 [] attempt.arrivals).toOption.bind bounded

/-- One round of the loop of `send_http_tracker_get`, where it returns. -/
def body (attempt : Attempt) (useTls : Bool) (request : Bytes) : Option Metadata :=
  (attempt.rawResponse useTls request).bind fun raw =>
    if raw.bytes.isEmpty then none
    else
      match parseHttpResponse raw with
      | .error _ => none
      | .ok response => if response.statusCode ≠ 200 then none else some response.body

end Attempt

/-- The addresses are what `dns_lookup` gives. -/
def sendHttpTrackerGet (tracker : TrackerDetails) (queryString : Bytes) (addresses : List Attempt) :
    Except TrackerError Metadata :=
  if addresses.isEmpty then .error (.dnsLookupFailed tracker.hostname)
  else
    match addresses.findSome? (·.body (tracker.protocol == .https) (buildHttpRequest tracker queryString)) with
    | none => .error (.exhausted tracker.hostname)
    | some body => .ok body

def announce (inet : Inet) (tracker : TrackerDetails) (infoHash : InfoHash) (myPeerId : PeerId)
    (downloaded left uploaded : UInt64) (event : UInt32) (port : UInt16) (addresses : List Attempt) :
    Except TrackerError (List PeerAddress) := do
  let query := buildQueryString infoHash myPeerId downloaded left uploaded event port
  let body ← sendHttpTrackerGet tracker query addresses
  parseTrackerResponse inet body

section Search
variable {pattern s head rest : Bytes} {pos found : Nat}

/-- The first place where the pattern stands. -/
def FirstAt (pattern s head rest : Bytes) : Prop :=
  s = head ++ pattern ++ rest ∧ ∀ shorter : Bytes, shorter.length < head.length → ¬shorter ++ pattern <+: s

theorem firstAt_here : pattern <+: s → (FirstAt pattern s head rest ↔ head = [] ∧ s = pattern ++ rest) := by
  intro here
  constructor
  · rintro ⟨whole, first⟩
    cases head with
    | nil => exact ⟨rfl, whole⟩
    | cons c head => exact absurd here (first [] (Nat.succ_pos _))
  · rintro ⟨rfl, whole⟩
    refine ⟨whole, ?_⟩
    intro shorter less
    exact absurd less (Nat.not_lt_zero _)

theorem firstAt_cons {c : UInt8} {t : Bytes} (elsewhere : ¬pattern <+: c :: t) :
    FirstAt pattern (c :: t) head rest ↔ ∃ front, head = c :: front ∧ FirstAt pattern t front rest := by
  constructor
  · rintro ⟨whole, first⟩
    cases head with
    | nil => exact absurd ⟨rest, whole.symm⟩ elsewhere
    | cons d front =>
      injection whole with same others
      refine ⟨front, by rw [same], others, ?_⟩
      intro shorter less prior
      exact first (c :: shorter) (Nat.succ_lt_succ less) (List.cons_prefix_cons.mpr ⟨rfl, prior⟩)
  · rintro ⟨front, rfl, whole, first⟩
    refine ⟨congrArg (List.cons c) whole, ?_⟩
    intro shorter less prior
    cases shorter with
    | nil => exact elsewhere prior
    | cons d shorter =>
      exact first shorter (Nat.lt_of_succ_lt_succ less) (List.cons_prefix_cons.mp prior).2

theorem findText_eq_some :
    findText pattern s pos = some found ↔ ∃ head rest, FirstAt pattern s head rest ∧ found = pos + head.length := by
  induction s generalizing pos found with
  | nil =>
    rw [findText]
    split
    case isTrue empty =>
      rw [List.isEmpty_iff.mp empty]
      constructor
      · intro same
        cases same
        exact ⟨[], [], (firstAt_here List.nil_prefix).mpr ⟨rfl, rfl⟩, rfl⟩
      · rintro ⟨head, rest, first, rfl⟩
        rw [((firstAt_here List.nil_prefix).mp first).1]
        rfl
    case isFalse some =>
      constructor
      · intro impossible
        cases impossible
      · rintro ⟨head, rest, ⟨whole, _⟩, _⟩
        have none := (List.append_eq_nil_iff.mp (List.append_eq_nil_iff.mp whole.symm).1).2
        exact absurd (List.isEmpty_iff.mpr none) some
  | cons c t ih =>
    rw [findText]
    split
    case isTrue here =>
      have here := List.isPrefixOf_iff_prefix.mp here
      constructor
      · intro same
        cases same
        obtain ⟨rest, whole⟩ := here
        exact ⟨[], rest, (firstAt_here ⟨rest, whole⟩).mpr ⟨rfl, whole.symm⟩, rfl⟩
      · rintro ⟨head, rest, first, rfl⟩
        rw [((firstAt_here here).mp first).1]
        rfl
    case isFalse elsewhere =>
      have elsewhere : ¬pattern <+: c :: t := fun here => elsewhere (List.isPrefixOf_iff_prefix.mpr here)
      rw [ih]
      constructor
      · rintro ⟨front, rest, first, rfl⟩
        refine ⟨c :: front, rest, (firstAt_cons elsewhere).mpr ⟨front, rfl, first⟩, ?_⟩
        rw [List.length_cons]
        omega
      · rintro ⟨head, rest, first, rfl⟩
        obtain ⟨front, rfl, later⟩ := (firstAt_cons elsewhere).mp first
        refine ⟨front, rest, later, ?_⟩
        rw [List.length_cons]
        omega

theorem FirstAt.findText (first : FirstAt pattern s head rest) (pos : Nat) :
    findText pattern s pos = some (pos + head.length) :=
  findText_eq_some.mpr ⟨head, rest, first, rfl⟩

end Search

section Response
variable {raw body : Metadata} {line version rest : Bytes}

end Response

section Body
open TorrentFile (getString_eq_ok getInteger_eq_ok)

variable {inet : Inet} {body : Metadata} {dict : List (Bytes × BType)} {peers : List PeerAddress} {reason : Bytes}

/-- A dictionary that names the peer; the port is what is left of its number in 16 bits. -/
def Names (entry : BType) (peer : PeerAddress) : Prop :=
  ∃ pd port, entry = .dict pd ∧ mapFind (text ['i', 'p']) pd = some (.string peer.ip) ∧
    mapFind (text ['p', 'o', 'r', 't']) pd = some (.integer port) ∧ peer.port = port.toUInt64.toUInt16

/-- The peers that a dictionary lists, in one of the two formats or not at all. -/
inductive Lists (inet : Inet) (dict : List (Bytes × BType)) : List PeerAddress → Prop
  | nothing : mapFind (text ['p', 'e', 'e', 'r', 's']) dict = none → Lists inet dict []
  | compact {content} : mapFind (text ['p', 'e', 'e', 'r', 's']) dict = some (.string content) →
      Lists inet dict (parseCompactPeers inet content)
  | entries {entries peers} : mapFind (text ['p', 'e', 'e', 'r', 's']) dict = some (.list entries) →
      List.Forall₂ Names entries peers → Lists inet dict peers

end Body

section Exchange
variable {attempt : Attempt} {useTls : Bool} {request : Bytes} {raw body : Metadata} {addresses : List Attempt}

variable {inet : Inet} {tracker : TrackerDetails} {infoHash : InfoHash} {myPeerId : PeerId} {downloaded left uploaded : UInt64}
  {event : UInt32} {port : UInt16} {peers : List PeerAddress}

end Exchange

end HttpTracker

end BittorrentClient
