import BittorrentClient.Bencode.Types

namespace BittorrentClient.Bencode
open Cpp

/-- What the parser throws; `std` is an exception of the standard library.
`outOfFuel` is no behaviour of the source: it marks an exhausted bound. -/
inductive ParseError
  | noMoreMetadata
  | noMoreMetadataPeek
  | stringLength (position : Nat)
  | missingColon (position : Nat)
  | stringUnfinished (position : Nat)
  | unableToParseType (position : Nat)
  | integerStart
  | invalidCharacterInInteger (position : Nat)
  | listStart
  | listNotTerminated
  | dictionaryStart
  | dictionaryNotTerminated
  | std (error : StdError)
  | outOfFuel
  deriving DecidableEq, Repr

/-- The byte vector of a `Parser`. Its size is a `size_t`. -/
structure Metadata where
  bytes : Bytes
  size_lt : bytes.length < 2 ^ 64

namespace Parser

def liftStd {α : Type} : Except StdError α → Except ParseError α
  | .ok value => .ok value
  | .error error => .error (.std error)

def get (metadata : Bytes) (pos : Nat) : Except ParseError (UInt8 × Nat) :=
  match metadata[pos]? with
  | none => .error .noMoreMetadata
  | some byte => .ok (byte, pos + 1)

def peek (metadata : Bytes) (pos : Nat) : Except ParseError UInt8 :=
  match metadata[pos]? with
  | none => .error .noMoreMetadataPeek
  | some byte => .ok byte

/-- The first loop of `parse_byte_string`, over the bytes from index `i` on. -/
def scanLength : Bytes → Nat → Except ParseError Nat
  | [], i => .ok i
  | byte :: rest, i =>
    if byte = 58 then .ok i
    else if isdigit byte then scanLength rest (i + 1)
    else .error (.stringLength i)

/-- The bound is tested after a `size_t` addition. When that addition wraps,
the string constructor receives a reversed range and throws `length_error`. -/
def parseByteString (metadata : Bytes) (pos : Nat) : Except ParseError (Bytes × Nat) := do
  let i ← scanLength (metadata.drop pos) pos
  let length ← liftStd (stoul ((metadata.drop pos).take (i - pos)))
  let (colon, pos) ← get metadata i
  if colon ≠ 58 then .error (.missingColon pos)
  else if metadata.length < (pos + length) % 2 ^ 64 then .error (.stringUnfinished pos)
  else if metadata.length < pos + length then .error (.std .lengthError)
  else .ok ((metadata.drop pos).take length, pos + length)

/-- The loop of `parse_integer` up to the closing `e`. -/
def scanInteger : Bytes → Nat → Except ParseError Nat
  | [], _ => .error .noMoreMetadataPeek
  | byte :: rest, pos =>
    if byte = 101 then .ok pos
    else if !isdigit byte && byte != 45 then .error (.invalidCharacterInInteger pos)
    else scanInteger rest (pos + 1)

def parseInteger (metadata : Bytes) (pos : Nat) : Except ParseError (BType × Nat) := do
  let (first, start) ← get metadata pos
  if first ≠ 105 then .error .integerStart
  else
    let pos ← scanInteger (metadata.drop start) start
    let (_, next) ← get metadata pos
    let value ← liftStd (stoll ((metadata.drop start).take (pos - start)))
    .ok (.integer value, next)

mutual
def parseBencodingType (metadata : Bytes) : Nat → Nat → Except ParseError (BType × Nat)
  | 0, _ => .error .outOfFuel
  | fuel + 1, pos => do
    let nextChar ← peek metadata pos
    if nextChar = 105 then parseInteger metadata pos
    else if nextChar = 108 then parseList metadata fuel pos
    else if nextChar = 100 then parseDictionary metadata fuel pos
    else if isdigit nextChar then
      let (content, pos) ← parseByteString metadata pos
      .ok (.string content, pos)
    else .error (.unableToParseType pos)

def parseList (metadata : Bytes) : Nat → Nat → Except ParseError (BType × Nat)
  | 0, _ => .error .outOfFuel
  | fuel + 1, pos => do
    let (first, pos) ← get metadata pos
    if first ≠ 108 then .error .listStart
    else
      let (content, pos) ← parseItems metadata fuel [] pos
      let (last, pos) ← get metadata pos
      if last ≠ 101 then .error .listNotTerminated
      else .ok (.list content, pos)

/-- The `while (peek() != 'e')` loop of `parse_list`. -/
def parseItems (metadata : Bytes) : Nat → List BType → Nat → Except ParseError (List BType × Nat)
  | 0, _, _ => .error .outOfFuel
  | fuel + 1, content, pos => do
    let next ← peek metadata pos
    if next = 101 then .ok (content, pos)
    else
      let (item, pos) ← parseBencodingType metadata fuel pos
      parseItems metadata fuel (content ++ [item]) pos

def parseDictionary (metadata : Bytes) : Nat → Nat → Except ParseError (BType × Nat)
  | 0, _ => .error .outOfFuel
  | fuel + 1, pos => do
    let (first, pos) ← get metadata pos
    if first ≠ 100 then .error .dictionaryStart
    else
      let (content, pos) ← parseEntries metadata fuel [] pos
      let (last, pos) ← get metadata pos
      if last ≠ 101 then .error .dictionaryNotTerminated
      else .ok (.dict content, pos)

/-- The `while (peek() != 'e')` loop of `parse_dictionary`. -/
def parseEntries (metadata : Bytes) :
    Nat → List (Bytes × BType) → Nat → Except ParseError (List (Bytes × BType) × Nat)
  | 0, _, _ => .error .outOfFuel
  | fuel + 1, content, pos => do
    let next ← peek metadata pos
    if next = 101 then .ok (content, pos)
    else
      let (key, pos) ← parseByteString metadata pos
      let (value, pos) ← parseBencodingType metadata fuel pos
      parseEntries metadata fuel (mapAssign key value content) pos
end

/-- `Parser::parse_value` from position `pos`. Every three levels of the
recursion consume a byte, so the bound is never what stops it. -/
def parseValue (metadata : Metadata) (pos : Nat) : Except ParseError (BType × Nat) :=
  parseBencodingType metadata.bytes (3 * metadata.bytes.length + 3) pos

end Parser

end BittorrentClient.Bencode
