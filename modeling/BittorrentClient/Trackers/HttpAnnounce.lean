import BittorrentClient.Hash
import BittorrentClient.Library.UrlQuery
import BittorrentClient.Torrent.TorrentFile

namespace BittorrentClient
open Cpp

/-- `utils::PeerId`, an array of 20 bytes. -/
structure PeerId where
  bytes : Bytes
  length_eq : bytes.length = 20

/-- A digit that `std::hex` prints under `std::uppercase`. -/
def upperDigit (n : Nat) : UInt8 := if n < 10 then UInt8.ofNat (48 + n) else UInt8.ofNat (55 + n)

def urlEncodeByte (byte : UInt8) : Bytes :=
  if isalnum byte || byte == 45 || byte == 95 || byte == 46 || byte == 126 then [byte]
  else [37, upperDigit (byte.toNat / 16), upperDigit (byte.toNat % 16)]

/-- `crypto::url_encode`. -/
def urlEncode (bytes : Bytes) : Bytes := bytes.flatMap urlEncodeByte

def InfoHash.urlEncoded (hash : InfoHash) : Bytes := urlEncode hash.bytes

namespace HttpTracker

def eventToString (event : UInt32) : Bytes :=
  if event = 1 then text ['c', 'o', 'm', 'p', 'l', 'e', 't', 'e', 'd']
  else if event = 2 then text ['s', 't', 'a', 'r', 't', 'e', 'd']
  else if event = 3 then text ['s', 't', 'o', 'p', 'p', 'e', 'd']
  else []

def buildQueryString (infoHash : InfoHash) (myPeerId : PeerId) (downloaded left uploaded : UInt64) (event : UInt32)
    (port : UInt16) : Bytes :=
  text ['i', 'n', 'f', 'o', '_', 'h', 'a', 's', 'h', '='] ++ infoHash.urlEncoded ++
    text ['&', 'p', 'e', 'e', 'r', '_', 'i', 'd', '='] ++ urlEncode myPeerId.bytes ++
    text ['&', 'p', 'o', 'r', 't', '='] ++ toStringUnsigned port.toNat ++
    text ['&', 'u', 'p', 'l', 'o', 'a', 'd', 'e', 'd', '='] ++ toStringUnsigned uploaded.toNat ++
    text ['&', 'd', 'o', 'w', 'n', 'l', 'o', 'a', 'd', 'e', 'd', '='] ++ toStringUnsigned downloaded.toNat ++
    text ['&', 'l', 'e', 'f', 't', '='] ++ toStringUnsigned left.toNat ++
    text ['&', 'c', 'o', 'm', 'p', 'a', 'c', 't', '=', '1'] ++
    (if (eventToString event).isEmpty then [] else text ['&', 'e', 'v', 'e', 'n', 't', '='] ++ eventToString event)

def buildHostHeader (tracker : TrackerDetails) : Bytes :=
  let isDefaultPort := (tracker.protocol = .http ∧ tracker.port = 80) ∨ (tracker.protocol = .https ∧ tracker.port = 443)
  if isDefaultPort then tracker.hostname else tracker.hostname ++ 58 :: toStringUnsigned tracker.port

/-- What stands between the method and the version in the first line of the request. -/
def requestTarget (tracker : TrackerDetails) (queryString : Bytes) : Bytes := tracker.path ++ 63 :: queryString

/-- The lines of the request after the first one. -/
def requestHeaders (tracker : TrackerDetails) : Bytes :=
  text ['H', 'o', 's', 't', ':', ' '] ++ buildHostHeader tracker ++ text ['\r', '\n'] ++
    text ['C', 'o', 'n', 'n', 'e', 'c', 't', 'i', 'o', 'n', ':', ' ', 'c', 'l', 'o', 's', 'e', '\r', '\n'] ++
    text ['A', 'c', 'c', 'e', 'p', 't', '-', 'E', 'n', 'c', 'o', 'd', 'i', 'n', 'g', ':', ' ', 'i', 'd', 'e', 'n', 't', 'i',
      't', 'y', '\r', '\n'] ++ text ['\r', '\n']

def buildHttpRequest (tracker : TrackerDetails) (queryString : Bytes) : Bytes :=
  text ['G', 'E', 'T', ' '] ++ requestTarget tracker queryString ++
    text [' ', 'H', 'T', 'T', 'P', '/', '1', '.', '1', '\r', '\n'] ++ requestHeaders tracker

/-- The parameters of an announce, with the values as they were given. -/
def announced (infoHash : InfoHash) (myPeerId : PeerId) (downloaded left uploaded : UInt64) (event : UInt32)
    (port : UInt16) : List (Bytes × Bytes) :=
  [(text ['i', 'n', 'f', 'o', '_', 'h', 'a', 's', 'h'], infoHash.bytes),
    (text ['p', 'e', 'e', 'r', '_', 'i', 'd'], myPeerId.bytes),
    (text ['p', 'o', 'r', 't'], toStringUnsigned port.toNat),
    (text ['u', 'p', 'l', 'o', 'a', 'd', 'e', 'd'], toStringUnsigned uploaded.toNat),
    (text ['d', 'o', 'w', 'n', 'l', 'o', 'a', 'd', 'e', 'd'], toStringUnsigned downloaded.toNat),
    (text ['l', 'e', 'f', 't'], toStringUnsigned left.toNat),
    (text ['c', 'o', 'm', 'p', 'a', 'c', 't'], text ['1'])] ++
    (if (eventToString event).isEmpty then [] else [(text ['e', 'v', 'e', 'n', 't'], eventToString event)])

section Encode

theorem hexValue_upperDigit {n : Nat} (small : n < 16) : hexValue (upperDigit n) = some n := by
  have checked : ∀ n, n < 16 → hexValue (upperDigit n) = some n := by decide
  exact checked n small

theorem percentDecode_urlEncodeByte (byte : UInt8) (rest : Bytes) :
    percentDecode (urlEncodeByte byte ++ rest) = byte :: percentDecode rest := by
  rw [urlEncodeByte]
  split
  case isTrue plain =>
    have other : byte ≠ 37 := by
      rintro rfl
      exact absurd plain (by decide)
    exact percentDecode_cons other rest
  case isFalse =>
    have small := byte.toNat_lt
    have high := hexValue_upperDigit (n := byte.toNat / 16) (by omega)
    have low := hexValue_upperDigit (n := byte.toNat % 16) (by omega)
    refine (percentDecode_escape high low rest).trans ?_
    rw [Nat.div_add_mod, UInt8.ofNat_toNat]

theorem percentDecode_urlEncode (bytes : Bytes) : percentDecode (urlEncode bytes) = bytes := by
  induction bytes with
  | nil => rfl
  | cons byte rest ih =>
    rw [urlEncode, List.flatMap_cons, percentDecode_urlEncodeByte]
    exact congrArg (List.cons byte) ih

/-- Separators are encoded. -/
theorem ampersand_urlEncode (bytes : Bytes) : 38 ∉ urlEncode bytes := by
  have checked : ∀ n, n < 256 → 38 ∉ urlEncodeByte (UInt8.ofNat n) := by decide +kernel
  intro member
  obtain ⟨byte, _, inByte⟩ := List.mem_flatMap.mp member
  have absent := checked byte.toNat byte.toNat_lt
  rw [UInt8.ofNat_toNat] at absent
  exact absent inByte

theorem digits_apart {n : Nat} {c : UInt8} (member : c ∈ toStringUnsigned n) : c ≠ 37 ∧ c ≠ 38 := by
  have digit := toStringUnsigned_isdigit n c member
  constructor
  · rintro rfl
    exact absurd digit (by decide)
  · rintro rfl
    exact absurd digit (by decide)

end Encode

section Query
variable (infoHash : InfoHash) (myPeerId : PeerId) (downloaded left uploaded : UInt64) (event : UInt32) (port : UInt16)

/-- The last parameters of the query. -/
def lastFields (event : UInt32) : Bytes :=
  text ['c', 'o', 'm', 'p', 'a', 'c', 't'] ++ 61 :: text ['1'] ++
    (if (eventToString event).isEmpty then [] else 38 :: (text ['e', 'v', 'e', 'n', 't'] ++ 61 :: eventToString event))

/-- The query, field by field. -/
theorem buildQueryString_eq :
    buildQueryString infoHash myPeerId downloaded left uploaded event port =
      text ['i', 'n', 'f', 'o', '_', 'h', 'a', 's', 'h'] ++ 61 :: urlEncode infoHash.bytes ++
      38 :: (text ['p', 'e', 'e', 'r', '_', 'i', 'd'] ++ 61 :: urlEncode myPeerId.bytes ++
      38 :: (text ['p', 'o', 'r', 't'] ++ 61 :: toStringUnsigned port.toNat ++
      38 :: (text ['u', 'p', 'l', 'o', 'a', 'd', 'e', 'd'] ++ 61 :: toStringUnsigned uploaded.toNat ++
      38 :: (text ['d', 'o', 'w', 'n', 'l', 'o', 'a', 'd', 'e', 'd'] ++ 61 :: toStringUnsigned downloaded.toNat ++
      38 :: (text ['l', 'e', 'f', 't'] ++ 61 :: toStringUnsigned left.toNat ++ 38 :: lastFields event))))) := by
  simp only [buildQueryString, lastFields, List.append_assoc]
  cases (eventToString event).isEmpty with
  | true => rfl
  | false => rfl

theorem eventToString_mem (event : UInt32) : eventToString event ∈
    [text ['c', 'o', 'm', 'p', 'l', 'e', 't', 'e', 'd'], text ['s', 't', 'a', 'r', 't', 'e', 'd'],
      text ['s', 't', 'o', 'p', 'p', 'e', 'd'], []] := by
  rw [eventToString]
  split
  case isTrue => exact List.mem_cons_self
  case isFalse =>
    split
    case isTrue => exact List.mem_cons_of_mem _ List.mem_cons_self
    case isFalse =>
      split
      case isTrue => exact List.mem_cons_of_mem _ (List.mem_cons_of_mem _ List.mem_cons_self)
      case isFalse => exact List.mem_cons_of_mem _ (List.mem_cons_of_mem _ (List.mem_cons_of_mem _ List.mem_cons_self))

theorem eventToString_apart {event : UInt32} {c : UInt8} (member : c ∈ eventToString event) : c ≠ 37 ∧ c ≠ 38 := by
  have letters : ∀ word ∈ [text ['c', 'o', 'm', 'p', 'l', 'e', 't', 'e', 'd'], text ['s', 't', 'a', 'r', 't', 'e', 'd'],
      text ['s', 't', 'o', 'p', 'p', 'e', 'd'], []], word.all (fun c => c ≠ 37 && c ≠ 38) = true := by decide
  have apart := letters (eventToString event) (eventToString_mem event)
  simpa using List.all_eq_true.mp apart c member

/-- A field of the query. -/
theorem parameters_field {name value : Bytes} (letters : 37 ∉ name ∧ 38 ∉ name ∧ 61 ∉ name) (whole : 38 ∉ value) (rest : Bytes) :
    parameters (name ++ 61 :: value ++ 38 :: rest) = (name, percentDecode value) :: parameters rest := by
  have piece : 38 ∉ name ++ 61 :: value := by
    rw [List.mem_append, List.mem_cons]
    rintro (inName | same | inValue)
    · exact letters.2.1 inName
    · exact absurd same (by decide)
    · exact whole inValue
  rw [parameters_cons letters.2.2 piece, percentDecode_plain letters.1]

theorem parameters_number {name : Bytes} (letters : 37 ∉ name ∧ 38 ∉ name ∧ 61 ∉ name) (n : Nat) (rest : Bytes) :
    parameters (name ++ 61 :: toStringUnsigned n ++ 38 :: rest) = (name, toStringUnsigned n) :: parameters rest := by
  rw [parameters_field letters fun member => (digits_apart member).2 rfl,
    percentDecode_plain fun member => (digits_apart member).1 rfl]

theorem parameters_lastFields :
    parameters (lastFields event) = (text ['c', 'o', 'm', 'p', 'a', 'c', 't'], text ['1']) ::
      if (eventToString event).isEmpty then [] else [(text ['e', 'v', 'e', 'n', 't'], eventToString event)] := by
  rw [lastFields]
  split
  case isTrue => rfl
  case isFalse =>
    have plain : 37 ∉ eventToString event := fun member => (eventToString_apart member).1 rfl
    have whole : 38 ∉ text ['e', 'v', 'e', 'n', 't'] ++ 61 :: eventToString event := by
      rw [List.mem_append, List.mem_cons]
      rintro (inName | same | inValue)
      · exact absurd inName (by decide)
      · exact absurd same (by decide)
      · exact (eventToString_apart inValue).2 rfl
    rw [parameters_field (by decide) (by decide), parameters_piece whole (List.cons_ne_nil _ _), parameter_pair (by decide),
      percentDecode_plain plain]
    rfl

/-- The query carries what it was given. -/
theorem parameters_buildQueryString :
    parameters (buildQueryString infoHash myPeerId downloaded left uploaded event port) =
      announced infoHash myPeerId downloaded left uploaded event port := by
  rw [buildQueryString_eq, parameters_field (by decide) (ampersand_urlEncode _), percentDecode_urlEncode,
    parameters_field (by decide) (ampersand_urlEncode _), percentDecode_urlEncode, parameters_number (by decide),
    parameters_number (by decide), parameters_number (by decide), parameters_number (by decide), parameters_lastFields]
  rfl

end Query

section Url
variable {announce : Bytes} {tracker : TrackerDetails}

theorem findText_some {pattern s : Bytes} {pos found : Nat} (run : findText pattern s pos = some found) :
    ∃ front back, s = front ++ pattern ++ back ∧ found = pos + front.length := by
  induction s generalizing pos with
  | nil =>
    rw [findText] at run
    split at run
    case isTrue empty =>
      cases run
      exact ⟨[], [], by rw [List.isEmpty_iff.mp empty]; rfl, rfl⟩
    case isFalse => cases run
  | cons c rest ih =>
    rw [findText] at run
    split at run
    case isTrue here =>
      cases run
      obtain ⟨back, whole⟩ := List.isPrefixOf_iff_prefix.mp here
      exact ⟨[], back, whole.symm, rfl⟩
    case isFalse =>
      obtain ⟨front, back, rfl, rfl⟩ := ih run
      exact ⟨c :: front, back, rfl, by rw [List.length_cons]; omega⟩

/-- What follows the scheme of a URL. -/
def afterScheme (announce : Bytes) : Bytes :=
  match findText (text [':', '/', '/']) announce 0 with
  | none => []
  | some start => announce.drop (start + 3)

theorem fromScheme_plain {scheme : Bytes} {protocol : TrackerProtocol} (known : TrackerProtocol.fromScheme scheme = .ok protocol) :
    63 ∉ scheme := by
  rw [TrackerProtocol.fromScheme] at known
  split at known
  case isTrue same =>
    rw [same]
    decide
  case isFalse =>
    split at known
    case isTrue same =>
      rw [same]
      decide
    case isFalse =>
      split at known
      case isTrue same =>
        rw [same]
        decide
      case isFalse => cases known

/-- The end of `extract_tracker_information`, where only the path matters here. -/
theorem path_of_accepted {protocol : TrackerProtocol} {hostname authority path : Bytes}
    (accepted : (if hostname.length < authority.length then
        match stoi (authority.drop (hostname.length + 1)) with
        | .error error => .error (.port error)
        | .ok port => .ok ⟨protocol, hostname, (port % 2 ^ 16).toNat, path⟩
      else .ok ⟨protocol, hostname, protocol.defaultPort, path⟩ : Except TorrentError TrackerDetails) = .ok tracker) :
    tracker.path = path := by
  split at accepted
  case isTrue =>
    split at accepted
    case h_1 => cases accepted
    case h_2 =>
      cases accepted
      rfl
  case isFalse =>
    cases accepted
    rfl

/-- The parts of a URL that was accepted. -/
structure Parts (announce : Bytes) (tracker : TrackerDetails) (front authority path : Bytes) : Prop where
  whole : announce = front ++ (authority ++ path)
  plain : 63 ∉ front
  noSlash : 47 ∉ authority
  after : afterScheme announce = authority ++ path
  shape : (path = [] ∧ tracker.path = [47]) ∨ ∃ rest, path = 47 :: rest ∧ tracker.path = path

theorem extract_parts (accepted : extractTrackerInformation announce = .ok tracker) :
    ∃ front authority path, Parts announce tracker front authority path := by
  rw [extractTrackerInformation] at accepted
  cases found : findText (text [':', '/', '/']) announce 0 with
  | none =>
    rw [found] at accepted
    cases accepted
  | some start =>
    obtain ⟨scheme, rest, whole, place⟩ := findText_some found
    rw [Nat.zero_add] at place
    have front : announce.take start = scheme := by rw [whole, place, List.append_assoc, List.take_left]
    have behind : announce.drop (start + 3) = rest := by
      rw [whole, place]
      exact List.drop_left' (by rw [List.length_append]; rfl)
    rw [found] at accepted
    simp only [front, behind] at accepted
    cases known : TrackerProtocol.fromScheme scheme with
    | error error =>
      rw [known] at accepted
      cases accepted
    | ok protocol =>
      rw [known] at accepted
      have path := path_of_accepted accepted
      have split := (List.takeWhile_append_dropWhile (p := (· ≠ 47)) (l := rest)).symm
      have left : ∀ authority tail, rest = authority ++ tail → rest.drop authority.length = tail := by
        rintro authority tail rfl
        exact List.drop_left' rfl
      rw [left _ _ split] at path
      have plain : 63 ∉ scheme ++ text [':', '/', '/'] := by
        rw [List.mem_append]
        rintro (inScheme | inMark)
        · exact fromScheme_plain known inScheme
        · exact absurd inMark (by decide)
      refine ⟨scheme ++ text [':', '/', '/'], rest.takeWhile (· ≠ 47), rest.dropWhile (· ≠ 47), ?_, plain, ?_, ?_, ?_⟩
      · rw [← split]
        exact whole
      · intro member
        have other := List.mem_takeWhile_imp member
        exact absurd other (by decide)
      · rw [afterScheme, found, ← split]
        exact behind
      · cases tail : rest.dropWhile (· ≠ 47) with
        | nil =>
          rw [tail] at path
          exact Or.inl ⟨rfl, path⟩
        | cons c later =>
          rw [tail] at path
          have stop := List.head?_dropWhile_not (· ≠ 47) rest
          rw [tail] at stop
          have slash : c = 47 := by simpa using stop
          exact Or.inr ⟨later, by rw [slash], path⟩

/-- The URL has no parameters of its own: no `?`, or nothing but `&` behind one that
ends the host. -/
def NoParameters (announce : Bytes) : Prop :=
  63 ∉ afterScheme announce ∨
    ∃ host marks, afterScheme announce = host ++ 63 :: marks ∧ 63 ∉ host ∧ 47 ∉ host ∧ ∀ c ∈ marks, c = 38

/-- A second `?` in the target is one too many. -/
theorem not_perm_of_path {front q query : Bytes} {entries : List (Bytes × Bytes)} (plain : 63 ∉ front)
    (decoded : parameters query = entries) :
    ¬ (parameters (queryOf (front ++ 63 :: q ++ 63 :: query))).Perm (parameters q ++ entries) := by
  intro perm
  have got : queryOf (front ++ 63 :: q ++ 63 :: query) = q ++ 63 :: query := by
    rw [List.append_assoc, List.cons_append, queryOf_append plain]
  have weights := @weight_perm 63 _ _ perm
  rw [got, weight_append, ← decoded, weight_parameters (by decide) (by decide), weight_parameters (by decide) (by decide),
    weight_parameters (by decide) (by decide), percentDecode_break (by decide) (by decide), List.count_append,
    List.count_cons_self] at weights
  omega

/-- The slash of a path that belongs to the query of the URL is missing in the target. -/
theorem not_perm_of_host {q path target : Bytes} {entries : List (Bytes × Bytes)}
    (fewer : weight 47 (parameters target) ≤ weight 47 (parameters path) + weight 47 entries) :
    ¬ (parameters target).Perm (parameters (q ++ 47 :: path) ++ entries) := by
  intro perm
  have weights := @weight_perm 47 _ _ perm
  rw [weight_append, weight_parameters (by decide) (by decide) (q ++ 47 :: path), percentDecode_break (by decide) (by decide),
    List.count_append, List.count_cons_self, ← weight_parameters (by decide) (by decide) path] at weights
  omega

/-- A `?` counts as soon as there is a path. -/
theorem parameters_of_slash (slash : 47 ∈ afterScheme announce) (mark : 63 ∈ afterScheme announce) : ¬ NoParameters announce := by
  rintro (plain | ⟨host, marks, whole, _, noSlash, only⟩)
  · exact plain mark
  · rw [whole, List.mem_append, List.mem_cons] at slash
    rcases slash with inHost | same | inMarks
    · exact noSlash inHost
    · exact absurd same (by decide)
    · exact absurd (only 47 inMarks) (by decide)

theorem noParameters_iff {host marks : Bytes} (whole : afterScheme announce = host ++ 63 :: marks) (plain : 63 ∉ host)
    (noSlash : 47 ∉ host) : NoParameters announce ↔ parameters marks = [] := by
  rw [parameters_eq_nil]
  constructor
  · rintro (none | ⟨host', marks', whole', plain', _, only⟩)
    · exact absurd (whole ▸ List.mem_append_right host List.mem_cons_self) none
    · have same : marks = marks' := by
        rw [← queryOf_append plain marks, ← whole, whole', queryOf_append plain']
      rw [same]
      exact only
  · intro only
    exact Or.inr ⟨host, marks, whole, plain, noSlash, only⟩

end Url

section Carries
variable {announce : Bytes} {tracker : TrackerDetails}

/-- The slashes of a target are those of the path and of the query behind it. -/
theorem weight_target {rest query : Bytes} {entries : List (Bytes × Bytes)} (decoded : parameters query = entries) :
    weight 47 (parameters (queryOf (47 :: rest ++ 63 :: query))) ≤ weight 47 (parameters rest) + weight 47 entries := by
  by_cases mark : 63 ∈ rest
  · obtain ⟨front, q, rfl, plain⟩ := List.eq_append_cons_of_mem mark
    have first : 63 ∉ 47 :: front := by
      rw [List.mem_cons]
      rintro (same | member)
      · exact absurd same (by decide)
      · exact plain member
    have got : queryOf (47 :: (front ++ 63 :: q) ++ 63 :: query) = q ++ 63 :: query := by
      have shape : 47 :: (front ++ 63 :: q) ++ 63 :: query = 47 :: front ++ 63 :: (q ++ 63 :: query) := by
        simp only [List.cons_append, List.append_assoc]
      rw [shape, queryOf_append first]
    rw [got, ← decoded, weight_parameters (by decide) (by decide), weight_parameters (by decide) (by decide),
      weight_parameters (by decide) (by decide), percentDecode_break (by decide) (by decide),
      percentDecode_break (by decide) (by decide), List.count_append, List.count_append, List.count_cons_of_ne (by decide),
      List.count_cons_of_ne (by decide)]
    omega
  · have first : 63 ∉ 47 :: rest := by
      rw [List.mem_cons]
      rintro (same | member)
      · exact absurd same (by decide)
      · exact mark member
    rw [queryOf_append first, decoded]
    exact Nat.le_add_left _ _

namespace Parts
variable {front authority path query : Bytes} {entries : List (Bytes × Bytes)}

/-- A `?` in the host part: what is behind it is lost. -/
theorem perm_iff_of_host (parts : Parts announce tracker front authority path) (inHost : 63 ∈ authority)
    (decoded : parameters query = entries) :
    (parameters (queryOf (requestTarget tracker query))).Perm (parameters (queryOf announce) ++ entries) ↔
      NoParameters announce := by
  obtain ⟨host, q, rfl, first⟩ := List.eq_append_cons_of_mem inHost
  have plainHost : 63 ∉ front ++ host := by
    rw [List.mem_append]
    exact fun either => either.elim parts.plain first
  have hostSlash : 47 ∉ host := fun member => parts.noSlash (List.mem_append_left _ member)
  have own : queryOf announce = q ++ path := by
    have split : announce = front ++ host ++ 63 :: (q ++ path) := by
      rw [parts.whole]
      simp only [List.append_assoc, List.cons_append]
    rw [split, queryOf_append plainHost]
  have after := parts.after
  rw [own, requestTarget]
  rcases parts.shape with ⟨rfl, root⟩ | ⟨rest, rfl, same⟩
  · rw [root, queryOf_append (by decide), decoded, List.append_nil,
      noParameters_iff (by rw [after, List.append_nil]) first hostSlash]
    constructor
    · intro perm
      have length := perm.length_eq
      rw [List.length_append] at length
      exact List.length_eq_zero_iff.mp (by omega)
    · intro none
      rw [none, List.nil_append]
  · have slash : 47 ∈ afterScheme announce := after ▸ List.mem_append_right _ List.mem_cons_self
    have mark : 63 ∈ afterScheme announce := after ▸ List.mem_append_left _ inHost
    rw [same]
    exact iff_of_false (not_perm_of_host (weight_target decoded)) (parameters_of_slash slash mark)

/-- A `?` in the path, which gets a second one. -/
theorem not_perm_of_mark (parts : Parts announce tracker front authority path) (notInHost : 63 ∉ authority)
    (inPath : 63 ∈ path) (decoded : parameters query = entries) :
    ¬ (parameters (queryOf (requestTarget tracker query))).Perm (parameters (queryOf announce) ++ entries) ∧
      ¬ NoParameters announce := by
  rcases parts.shape with ⟨rfl, _⟩ | ⟨rest, begins, same⟩
  · exact absurd inPath List.not_mem_nil
  · have after := parts.after
    have slash : 47 ∈ afterScheme announce := after ▸ List.mem_append_right _ (begins ▸ List.mem_cons_self)
    have mark : 63 ∈ afterScheme announce := after ▸ List.mem_append_right _ inPath
    obtain ⟨p, q, cut, first⟩ := List.eq_append_cons_of_mem inPath
    have plainPath : 63 ∉ front ++ authority ++ p := by
      rw [List.mem_append, List.mem_append]
      exact fun either => either.elim (fun early => early.elim parts.plain notInHost) first
    have own : queryOf announce = q := by
      have split : announce = front ++ authority ++ p ++ 63 :: q := by
        rw [parts.whole, cut]
        simp only [List.append_assoc]
      rw [split, queryOf_append plainPath]
    rw [own, requestTarget, same, cut]
    exact ⟨not_perm_of_path first decoded, parameters_of_slash slash mark⟩

/-- No `?` at all. -/
theorem perm_of_plain (parts : Parts announce tracker front authority path) (notInHost : 63 ∉ authority)
    (notInPath : 63 ∉ path) (decoded : parameters query = entries) :
    (parameters (queryOf (requestTarget tracker query))).Perm (parameters (queryOf announce) ++ entries) ∧
      NoParameters announce := by
  have behind : 63 ∉ authority ++ path := by
    rw [List.mem_append]
    exact fun either => either.elim notInHost notInPath
  have own : queryOf announce = [] := by
    refine queryOf_plain ?_
    rw [parts.whole, List.mem_append]
    exact fun either => either.elim parts.plain behind
  have target : 63 ∉ tracker.path := by
    rcases parts.shape with ⟨_, root⟩ | ⟨_, _, same⟩
    · rw [root]
      decide
    · rw [same]
      exact notInPath
  rw [own, requestTarget, queryOf_append target, decoded]
  exact ⟨List.Perm.refl _, Or.inl (parts.after ▸ behind)⟩

end Parts

/-- A request carries the parameters of the announce, and those of the URL exactly if it
has none. -/
theorem perm_iff_noParameters (accepted : extractTrackerInformation announce = .ok tracker) {query : Bytes}
    {entries : List (Bytes × Bytes)} (decoded : parameters query = entries) :
    (parameters (queryOf (requestTarget tracker query))).Perm (parameters (queryOf announce) ++ entries) ↔
      NoParameters announce := by
  obtain ⟨front, authority, path, parts⟩ := extract_parts accepted
  by_cases inHost : 63 ∈ authority
  · exact parts.perm_iff_of_host inHost decoded
  · by_cases inPath : 63 ∈ path
    · obtain ⟨different, own⟩ := parts.not_perm_of_mark inHost inPath decoded
      exact iff_of_false different own
    · obtain ⟨same, none⟩ := parts.perm_of_plain inHost inPath decoded
      exact iff_of_true same none

/-- The announce carries what it was given, and the parameters of the URL exactly if
there are none. -/
theorem announce_carries_iff (accepted : extractTrackerInformation announce = .ok tracker) (infoHash : InfoHash)
    (myPeerId : PeerId) (downloaded left uploaded : UInt64) (event : UInt32) (port : UInt16) :
    let query := buildQueryString infoHash myPeerId downloaded left uploaded event port
    (∃ rest, buildHttpRequest tracker query = text ['G', 'E', 'T', ' '] ++ requestTarget tracker query ++
        text [' ', 'H', 'T', 'T', 'P', '/', '1', '.', '1', '\r', '\n'] ++ rest) ∧
      ((parameters (queryOf (requestTarget tracker query))).Perm
        (parameters (queryOf announce) ++ announced infoHash myPeerId downloaded left uploaded event port) ↔
        NoParameters announce) := by
  exact ⟨⟨requestHeaders tracker, rfl⟩, perm_iff_noParameters accepted (parameters_buildQueryString ..)⟩

theorem length_twenty_zeros : (List.replicate 20 (0 : UInt8)).length = 20 := List.length_replicate

/-- Twenty zero bytes. -/
def zeroHash : InfoHash := ⟨List.replicate 20 0, length_twenty_zeros⟩

def zeroPeerId : PeerId := ⟨List.replicate 20 0, length_twenty_zeros⟩

theorem announce_carries_plain :
    extractTrackerInformation (text ['h', 't', 't', 'p', ':', '/', '/', 't', '/', 'a']) =
        .ok ⟨.http, text ['t'], 80, text ['/', 'a']⟩ ∧
      (parameters (queryOf (requestTarget ⟨.http, text ['t'], 80, text ['/', 'a']⟩
        (buildQueryString zeroHash zeroPeerId 0 1 2 2 6881)))).Perm (announced zeroHash zeroPeerId 0 1 2 2 6881) := by
  have accepted : extractTrackerInformation (text ['h', 't', 't', 'p', ':', '/', '/', 't', '/', 'a']) =
      .ok ⟨.http, text ['t'], 80, text ['/', 'a']⟩ := rfl
  exact ⟨accepted, (announce_carries_iff accepted zeroHash zeroPeerId 0 1 2 2 6881).2.mpr (Or.inl (by decide))⟩

/-- A URL with a parameter of its own, which takes the hash for a part of its value. -/
theorem passkey_swallows_hash :
    ¬ ∀ announce tracker, extractTrackerInformation announce = .ok tracker →
      (parameters (queryOf (requestTarget tracker (buildQueryString zeroHash zeroPeerId 0 1 2 2 6881)))).Perm
        (parameters (queryOf announce) ++ announced zeroHash zeroPeerId 0 1 2 2 6881) := by
  intro claim
  have accepted : extractTrackerInformation (text ['h', 't', 't', 'p', ':', '/', '/', 't', '/', 'a', '?', 'k', '=', 'x']) =
      .ok ⟨.http, text ['t'], 80, text ['/', 'a', '?', 'k', '=', 'x']⟩ := rfl
  have carried := claim _ _ accepted
  rw [perm_iff_noParameters accepted (parameters_buildQueryString ..)] at carried
  exact parameters_of_slash (by decide) (by decide) carried

end Carries

end HttpTracker

end BittorrentClient
