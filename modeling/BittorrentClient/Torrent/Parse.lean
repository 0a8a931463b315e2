import BittorrentClient.Bencode.Trace
import BittorrentClient.Bencode.Encoder
import BittorrentClient.Torrent.TorrentFile

namespace BittorrentClient.Bencode.Parser
open Cpp

/-- What `parse` throws: its own check of the first byte, what the parsing
calls throw, or what the constructor of `TorrentFile` throws. -/
inductive LoadError
  | notDictionary
  | parser (error : ParseError)
  | torrent (error : TorrentError)

def liftParser {α : Type} : Except ParseError α → Except LoadError α
  | .ok value => .ok value
  | .error error => .error (.parser error)

def liftTorrent {α : Type} : Except TorrentError α → Except LoadError α
  | .ok value => .ok value
  | .error error => .error (.torrent error)

def infoKey : Bytes := text ['i', 'n', 'f', 'o']

/-- The `while (peek() != 'e')` loop of `parse`, with `metadata_dict`,
`info_dict_raw_bytes` and `pos`. -/
def parseMetadata (metadata : Bytes) : Nat → List (Bytes × BType) → Bytes → Nat →
    Except ParseError (List (Bytes × BType) × Bytes × Nat)
  | 0, _, _, _ => .error .outOfFuel
  | fuel + 1, metadataDict, infoDictRawBytes, pos => do
    let next ← peek metadata pos
    if next = 101 then .ok (metadataDict, infoDictRawBytes, pos)
    else
      let (key, start) ← parseByteString metadata pos
      let (value, stop) ← parseBencodingType metadata (3 * metadata.length + 3) start
      parseMetadata metadata fuel (mapAssign key value metadataDict)
        (if key = infoKey then Splice.slice metadata start (stop - start) else infoDictRawBytes) stop

/-- `parse` up to the construction of the `TorrentFile`: the dictionary and the
raw bytes that the constructor receives. -/
def scanTorrent (metadata : Metadata) : Except LoadError (List (Bytes × BType) × Bytes) := do
  let (first, pos) ← liftParser (get metadata.bytes 0)
  if first ≠ 100 then .error .notDictionary
  else
    let (metadataDict, infoDictRawBytes, pos) ←
      liftParser (parseMetadata metadata.bytes (metadata.bytes.length + 1) [] [] pos)
    let (last, _) ← liftParser (get metadata.bytes pos)
    if last ≠ 101 then .error (.parser .dictionaryNotTerminated) else .ok (metadataDict, infoDictRawBytes)

/-- `Parser::parse` of a parser that has read nothing yet. -/
def parse (sha1 : Bytes → Sha1Hash) (metadata : Metadata) : Except LoadError TorrentFile := do
  let (metadataDict, infoDictRawBytes) ← scanTorrent metadata
  liftTorrent (TorrentFile.make sha1 metadataDict infoDictRawBytes)

theorem liftParser_eq_ok {α : Type} {outcome : Except ParseError α} {value : α}
    (run : liftParser outcome = .ok value) : outcome = .ok value := by
  cases outcome with
  | error error => cases run
  | ok result => exact congrArg _ (Except.ok.inj run)

theorem liftTorrent_eq_ok {α : Type} {outcome : Except TorrentError α} {value : α}
    (run : liftTorrent outcome = .ok value) : outcome = .ok value := by
  cases outcome with
  | error error => cases run
  | ok result => exact congrArg _ (Except.ok.inj run)

section Termination

theorem ends_parseMetadata {metadata : Bytes} {fuel : Nat} {metadataDict : List (Bytes × BType)} {raw : Bytes}
    {pos : Nat} (enough : metadata.length - pos + 1 ≤ fuel) :
    Ends (parseMetadata metadata fuel metadataDict raw pos) := by
  induction fuel generalizing metadataDict raw pos with
  | zero => omega
  | succ fuel ih =>
    simp only [parseMetadata]
    refine (ends_peek _ _).bind fun next _ => ?_
    split
    · exact .ok
    · refine (ends_parseByteString _ _).bind ?_
      rintro ⟨key, start⟩ keyRun
      have keyPassed := parseByteString_passes keyRun
      refine ((finishes_of_fuel metadata _).bencodingType start (by omega)).bind ?_
      rintro ⟨value, stop⟩ valueRun
      have valuePassed := parseValue_passes valueRun
      exact ih (by omega)

theorem liftParser_ne_outOfFuel {α : Type} {outcome : Except ParseError α} (ends : Ends outcome) :
    liftParser outcome ≠ .error (.parser .outOfFuel) := by
  cases outcome with
  | error error =>
    intro stopped
    cases stopped
    exact ends rfl
  | ok value =>
    intro impossible
    cases impossible

theorem ends_scanTorrent (metadata : Metadata) : scanTorrent metadata ≠ .error (.parser .outOfFuel) := by
  intro stopped
  rcases bind_eq_error.mp stopped with stopped | ⟨⟨first, pos⟩, _, stopped⟩
  · exact liftParser_ne_outOfFuel (ends_get _ _) stopped
  simp only at stopped
  split at stopped
  · cases stopped
  rcases bind_eq_error.mp stopped with stopped | ⟨⟨metadataDict, raw, pos'⟩, _, stopped⟩
  · exact liftParser_ne_outOfFuel (ends_parseMetadata (by omega)) stopped
  rcases bind_eq_error.mp stopped with stopped | ⟨⟨last, pos''⟩, _, stopped⟩
  · exact liftParser_ne_outOfFuel (ends_get _ _) stopped
  simp only at stopped
  split at stopped <;> cases stopped

/-- `parse` returns or throws on every input. -/
theorem ends_parse (sha1 : Bytes → Sha1Hash) (metadata : Metadata) :
    parse sha1 metadata ≠ .error (.parser .outOfFuel) := by
  intro stopped
  rcases bind_eq_error.mp stopped with stopped | ⟨⟨metadataDict, raw⟩, _, stopped⟩
  · exact ends_scanTorrent metadata stopped
  · simp only [liftTorrent] at stopped
    split at stopped <;> cases stopped

end Termination

section Contract

/-- The loop of `parse`. -/
def metadataTrace (metadata : Bytes) : Nat → Nat → Trace
  | 0, _ => .nothing
  | fuel + 1, pos => .after (peek metadata pos) fun next =>
    if next = 101 then .nothing
    else (stringTrace metadata pos).andThen (.after (parseByteString metadata pos) fun key =>
      (typeTrace metadata (3 * metadata.length + 3) key.2).andThen
        (.after (parseBencodingType metadata (3 * metadata.length + 3) key.2) fun value =>
          metadataTrace metadata fuel value.2))

/-- `parse`, which starts at the first byte. -/
def parseTrace (metadata : Bytes) : Trace :=
  .after (get metadata 0) fun got =>
    if got.1 ≠ 100 then .nothing else metadataTrace metadata (metadata.length + 1) got.2

theorem within_metadataTrace (metadata : Bytes) (fuel pos : Nat) :
    Within metadata .entries pos (metadataTrace metadata fuel pos) := by
  induction fuel generalizing pos with
  | zero => exact .nothing
  | succ fuel ih =>
    refine .after fun next _ => ?_
    split
    · exact .nothing
    · exact TracesWithin.entry (tracesWithin_of_fuel metadata _).bencodingType fun pos => ih pos

theorem within_parseTrace (metadata : Bytes) : Within metadata .value 0 (parseTrace metadata) := by
  refine .after ?_
  rintro ⟨first, start⟩ got
  split
  · exact .nothing
  · rename_i isTag
    obtain rfl : first = 100 := by simpa using isTag
    have inside := (within_metadataTrace metadata (metadata.length + 1) start).nested got fun _ _ => Opens.dict
    obtain ⟨depth, front, bound, opened⟩ := inside.deep
    exact ⟨inside.copied, depth, front, (Nat.le_succ _).trans bound, opened⟩

/-- A range of which every byte is there, and the string that it makes. -/
def Copied (metadata : Bytes) (copy : Nat × Nat) : Prop :=
  copy.1 ≤ metadata.length ∧ copy.2 ≤ metadata.length - copy.1 ∧
    stringOfRange metadata copy.1 copy.2 = .ok (Splice.slice metadata copy.1 copy.2)

/-- Each string is copied only when the bytes it declares are there, and the
call stack has room for the lists and dictionaries that are open at once. -/
structure Trace.Kept (trace : Trace) (metadata : Bytes) (stack : Nat) : Prop where
  copies : ∀ copy ∈ trace.copies, Copied metadata copy
  depth : trace.depth ≤ stack

/-- The contract of the calls made at one position: what returns has moved
forward and is still inside the buffer, no string is copied from beyond it,
neither by the call nor by the calls inside it, and the entry points come to an
end. `parse` starts at the first byte and nowhere else. -/
structure StaysInside (metadata : Metadata) (stack pos : Nat) : Prop where
  byteString : ∀ content next, parseByteString metadata.bytes pos = .ok (content, next) →
    pos < next ∧ next ≤ metadata.bytes.length
  integer : ∀ value next, parseInteger metadata.bytes pos = .ok (value, next) →
    pos < next ∧ next ≤ metadata.bytes.length
  list : ∀ fuel value next, parseList metadata.bytes fuel pos = .ok (value, next) →
    pos < next ∧ next ≤ metadata.bytes.length
  dictionary : ∀ fuel value next, parseDictionary metadata.bytes fuel pos = .ok (value, next) →
    pos < next ∧ next ≤ metadata.bytes.length
  bencodingType : ∀ fuel value next, parseBencodingType metadata.bytes fuel pos = .ok (value, next) →
    pos < next ∧ next ≤ metadata.bytes.length
  copy : ∀ first length, copyRequest metadata.bytes pos = .ok (first, length) →
    length ≤ metadata.bytes.length - first ∧
      parseByteString metadata.bytes pos = .ok (Splice.slice metadata.bytes first length, first + length)
  byteStringKept : (stringTrace metadata.bytes pos).Kept metadata.bytes stack
  listKept : ∀ fuel, (listTrace metadata.bytes fuel pos).Kept metadata.bytes stack
  dictionaryKept : ∀ fuel, (dictionaryTrace metadata.bytes fuel pos).Kept metadata.bytes stack
  bencodingTypeKept : ∀ fuel, (typeTrace metadata.bytes fuel pos).Kept metadata.bytes stack
  parseKept : pos = 0 → (parseTrace metadata.bytes).Kept metadata.bytes stack
  valueEnds : parseValue metadata pos ≠ .error .outOfFuel
  parseEnds : ∀ sha1, parse sha1 metadata ≠ .error (.parser .outOfFuel)

theorem passes_spelled {metadata : Bytes} {pos next : Nat} {value : BType}
    (read : ∃ front, Passes metadata pos front next ∧ Spells front value) :
    pos < next ∧ next ≤ metadata.length := by
  obtain ⟨front, passed, spelled⟩ := read
  exact passed.bounded spelled.length_pos

theorem copied_of_not_wraps {metadata : Bytes} {pos : Nat} (unwrapped : ¬LengthWraps metadata pos)
    {first length : Nat} (run : copyRequest metadata pos = .ok (first, length)) : Copied metadata (first, length) := by
  obtain ⟨digits, rest, nonempty, all, located, rfl, fits, rfl, inside, checked⟩ := copyRequest_sound run
  have sum : pos + digits.length + 1 + digitsValue digits < 2 ^ 64 :=
    Nat.not_le.mp fun wraps => unwrapped ⟨digits, rest, nonempty, all, located, fits, wraps⟩
  rw [Nat.mod_eq_of_lt sum] at checked
  exact ⟨inside, Nat.le_sub_of_add_le' checked, if_neg (Nat.not_lt.mpr checked)⟩

theorem parseByteString_of_copied {metadata : Bytes} {pos first length : Nat}
    (run : copyRequest metadata pos = .ok (first, length)) (copied : Copied metadata (first, length)) :
    parseByteString metadata pos = .ok (Splice.slice metadata first length, first + length) := by
  simp only [parseByteString_eq, run, copied.2.2, bind, Except.bind, liftStd]

/-- The places a call made at `pos` comes to, as far as the bytes decide it: no
string there has a length for which the bound check wraps, and no more lists and
dictionaries are open there than the stack has room for. -/
def Harmless (metadata : Bytes) (stack pos : Nat) : Prop :=
  ∀ depth front, Opens .value depth front → front <+: metadata.drop pos →
    depth ≤ stack ∧ ¬LengthWraps metadata (pos + front.length)

theorem Harmless.kept {metadata : Bytes} {stack pos : Nat} {trace : Trace} (harmless : Harmless metadata stack pos)
    (within : Within metadata .value pos trace) : trace.Kept metadata stack := by
  refine ⟨?_, ?_⟩
  · rintro ⟨first, length⟩ member
    obtain ⟨depth, front, opened, stands, asked⟩ := within.copied _ member
    exact copied_of_not_wraps (harmless depth front opened stands).2 asked
  · obtain ⟨depth, front, bound, opened, stands⟩ := within.deep
    exact bound.trans (harmless depth front opened stands).1

/-- The bound check is `pos + length > metadata.size()` in 64 bits, so the
contract is kept exactly where no such sum wraps that the calls come to. -/
theorem stays_inside_iff (metadata : Metadata) (stack pos : Nat) :
    StaysInside metadata stack pos ↔ Harmless metadata.bytes stack pos := by
  constructor
  · intro inside depth front opened stands
    have shown := opened.shown metadata.size_lt _ _ stands (Nat.le_refl _)
    have kept := inside.bencodingTypeKept (3 * (metadata.bytes.length - pos) + Reading.value.levels)
    refine ⟨shown.deep.trans kept.depth, fun wraps => ?_⟩
    obtain ⟨first, length, run, started, wrapped⟩ := copyRequest_of_wraps wraps
    have fits := (kept.copies _ (shown.copied _ run)).2.1
    have size := metadata.size_lt
    simp only at fits
    omega
  · intro harmless
    have unwrapped := (harmless 0 [] .here List.nil_prefix).2
    have traces := tracesWithin_of_fuel metadata.bytes
    exact {
      byteString := fun _ _ run => parseByteString_passes run
      integer := fun _ _ run => passes_spelled (parseInteger_sound run)
      list := fun fuel _ _ run => passes_spelled ((sound_of_fuel _ fuel).list _ _ _ run)
      dictionary := fun fuel _ _ run => passes_spelled ((sound_of_fuel _ fuel).dictionary _ _ _ run)
      bencodingType := fun _ _ _ run => parseValue_passes run
      copy := fun _ _ run => ⟨(copied_of_not_wraps unwrapped run).2.1,
        parseByteString_of_copied run (copied_of_not_wraps unwrapped run)⟩
      byteStringKept := harmless.kept (within_stringTrace _ pos)
      listKept := fun fuel => harmless.kept ((traces fuel).list pos)
      dictionaryKept := fun fuel => harmless.kept ((traces fuel).dictionary pos)
      bencodingTypeKept := fun fuel => harmless.kept ((traces fuel).bencodingType pos)
      parseKept := fun started => by
        subst started
        exact harmless.kept (within_parseTrace _)
      valueEnds := ends_parseValue metadata pos
      parseEnds := fun sha1 => ends_parse sha1 metadata }

/-- The text `18446744073709551615:` and nothing behind it. -/
def wrappingLength : Metadata where
  bytes := text ['1', '8', '4', '4', '6', '7', '4', '4', '0', '7', '3', '7', '0', '9', '5', '5', '1', '6', '1', '5', ':']
  size_lt := by decide

/-- The declared length passes the check with no byte left, and the string is
asked for from position 21 to position 20. -/
theorem copy_beyond_end : copyRequest wrappingLength.bytes 0 = .ok (21, 2 ^ 64 - 1) ∧
    wrappingLength.bytes.length - 21 = 0 ∧ (21 + (2 ^ 64 - 1)) % 2 ^ 64 = 20 ∧
      ∀ stack, ¬StaysInside wrappingLength stack 0 := by
  have asked : copyRequest wrappingLength.bytes 0 = .ok (21, 2 ^ 64 - 1) := by rfl
  have size : wrappingLength.bytes.length - 21 = 0 := by rfl
  refine ⟨asked, size, by decide, fun stack inside => ?_⟩
  have fits := (inside.copy _ _ asked).1
  omega

/-- The same string as the only item of a list. -/
example : (typeTrace (108 :: (wrappingLength.bytes ++ [101])) 72 0).copies = [(22, 2 ^ 64 - 1)] := by decide +kernel

end Contract

section InfoBytes

/-- The slice kept beside the dictionary is a text of the value the dictionary
holds under `info`, and stands somewhere in the input. -/
def InfoSliced (metadata : Bytes) (metadataDict : List (Bytes × BType)) (infoDictRawBytes : Bytes) : Prop :=
  ∀ value, mapFind infoKey metadataDict = some value → infoDictRawBytes <:+: metadata ∧ Spells infoDictRawBytes value

theorem Passes.slice {metadata front : Bytes} {pos next : Nat} (passed : Passes metadata pos front next) :
    Splice.slice metadata pos (next - pos) = front := by
  obtain ⟨⟨rest, located⟩, rfl⟩ := passed
  rw [Splice.slice, Nat.add_sub_cancel_left, ← located, List.take_left]

theorem Passes.isInfix {metadata front : Bytes} {pos next : Nat} (passed : Passes metadata pos front next) :
    front <:+: metadata := passed.1.isInfix.trans (List.drop_suffix _ _).isInfix

/-- One round of the loop: a new `info` value replaces both the entry and the
slice, any other key leaves both alone. -/
theorem InfoSliced.assign {metadata : Bytes} {metadataDict : List (Bytes × BType)} {raw key front : Bytes}
    {value : BType} {start stop : Nat} (sliced : InfoSliced metadata metadataDict raw)
    (passed : Passes metadata start front stop) (spelled : Spells front value) :
    InfoSliced metadata (mapAssign key value metadataDict)
      (if key = infoKey then Splice.slice metadata start (stop - start) else raw) := by
  intro stored found
  rw [mapFind_mapAssign] at found
  by_cases isInfo : key = infoKey
  · rw [if_pos isInfo.symm] at found
    cases found
    rw [if_pos isInfo, passed.slice]
    exact ⟨passed.isInfix, spelled⟩
  · rw [if_neg (Ne.symm isInfo)] at found
    rw [if_neg isInfo]
    exact sliced stored found

theorem parseMetadata_sliced {metadata : Bytes} {fuel : Nat} {metadataDict : List (Bytes × BType)} {raw : Bytes}
    {pos : Nat} (sliced : InfoSliced metadata metadataDict raw) {result : List (Bytes × BType)} {raw' : Bytes}
    {next : Nat} (run : parseMetadata metadata fuel metadataDict raw pos = .ok (result, raw', next)) :
    InfoSliced metadata result raw' := by
  induction fuel generalizing metadataDict raw pos with
  | zero => cases run
  | succ fuel ih =>
    simp only [parseMetadata] at run
    obtain ⟨byte, _, chosen⟩ := bind_eq_ok.mp run
    split at chosen
    · cases chosen
      exact sliced
    · obtain ⟨⟨key, start⟩, _, afterKey⟩ := bind_eq_ok.mp chosen
      obtain ⟨⟨value, stop⟩, valueRun, later⟩ := bind_eq_ok.mp afterKey
      obtain ⟨front, passed, spelled⟩ := (sound_of_fuel metadata _).bencodingType _ _ _ valueRun
      exact ih (sliced.assign passed spelled) later

theorem scanTorrent_sliced {metadata : Metadata} {metadataDict : List (Bytes × BType)} {raw : Bytes}
    (run : scanTorrent metadata = .ok (metadataDict, raw)) : InfoSliced metadata.bytes metadataDict raw := by
  obtain ⟨⟨first, pos⟩, _, afterTag⟩ := bind_eq_ok.mp run
  simp only at afterTag
  split at afterTag
  · cases afterTag
  obtain ⟨⟨result, raw', pos'⟩, looped, afterLoop⟩ := bind_eq_ok.mp afterTag
  obtain ⟨⟨last, pos''⟩, _, afterEnd⟩ := bind_eq_ok.mp afterLoop
  simp only at afterEnd
  split at afterEnd
  · cases afterEnd
  cases afterEnd
  refine parseMetadata_sliced ?_ (liftParser_eq_ok looped)
  intro value impossible
  cases impossible

/-- The info hash identifies the dictionary whose fields are used: the hashed
bytes are a slice of the input, parse on their own to their end, and give the
very dictionary that the fields of the torrent are read from. -/
theorem info_hash_of_used_dictionary (sha1 : Bytes → Sha1Hash) (metadata : Metadata) (torrent : TorrentFile)
    (accepted : parse sha1 metadata = .ok torrent) :
    ∃ metadataDict infoDictRawBytes infoDict,
      scanTorrent metadata = .ok (metadataDict, infoDictRawBytes) ∧
      TorrentFile.make sha1 metadataDict infoDictRawBytes = .ok torrent ∧
      mapFind infoKey metadataDict = some (.dict infoDict) ∧
      infoDictRawBytes <:+: metadata.bytes ∧
      (∃ size, parseValue ⟨infoDictRawBytes, size⟩ 0 = .ok (.dict infoDict, infoDictRawBytes.length)) ∧
      torrent.infoHash = sha1 infoDictRawBytes ∧ TorrentFile.LoadedFrom infoDict torrent := by
  obtain ⟨⟨metadataDict, raw⟩, scanned, made⟩ := bind_eq_ok.mp accepted
  have constructed := liftTorrent_eq_ok made
  obtain ⟨hashed, infoDict, info, loaded⟩ := TorrentFile.make_loaded constructed
  have stored := TorrentFile.getDict_eq_ok.mp info
  obtain ⟨inside, spelled⟩ := scanTorrent_sliced scanned _ stored
  have size : raw.length < 2 ^ 64 := Nat.lt_of_le_of_lt inside.length_le metadata.size_lt
  exact ⟨metadataDict, raw, infoDict, scanned, constructed, stored, inside, ⟨size, parseValue_alone spelled⟩,
    hashed, loaded⟩

/-- The `info` dictionary of a torrent of one byte without piece hashes. -/
def smallInfo : Bytes :=
  dict [(text ['l', 'e', 'n', 'g', 't', 'h'], integer 1), (text ['n', 'a', 'm', 'e'], string (text ['n'])),
    (text ['p', 'i', 'e', 'c', 'e', ' ', 'l', 'e', 'n', 'g', 't', 'h'], integer 16384),
    (text ['p', 'i', 'e', 'c', 'e', 's'], string [])]

/-- An input with two `info` keys, of which the second counts. -/
def repeatedInfo : Metadata where
  bytes := dict [(text ['a', 'n', 'n', 'o', 'u', 'n', 'c', 'e'], string (text ['u', 'd', 'p', ':', '/', '/', 't'])),
    (infoKey, dict []), (infoKey, smallInfo)]
  size_lt := by decide

theorem info_hash_of_second_dictionary : ∃ torrent, parse oneByteSha1 repeatedInfo = .ok torrent ∧
    torrent.infoHash = oneByteSha1 smallInfo := by
  obtain ⟨torrent, accepted⟩ : ∃ torrent, parse oneByteSha1 repeatedInfo = .ok torrent :=
    ⟨_, by with_unfolding_all rfl⟩
  obtain ⟨dict, raw, infoDict, scanned, _, _, _, _, hashed, _⟩ :=
    info_hash_of_used_dictionary oneByteSha1 repeatedInfo torrent accepted
  have sliced : (scanTorrent repeatedInfo).map Prod.snd = .ok smallInfo := by
    with_unfolding_all rfl
  rw [scanned] at sliced
  cases sliced
  exact ⟨torrent, accepted, hashed⟩

end InfoBytes

end BittorrentClient.Bencode.Parser
