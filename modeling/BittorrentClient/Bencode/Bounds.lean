import BittorrentClient.Bencode.Grammar

namespace BittorrentClient.Bencode.Parser
open Cpp

theorem parseValue_passes {metadata : Bytes} {fuel pos next : Nat} {value : BType}
    (run : parseBencodingType metadata fuel pos = .ok (value, next)) : pos < next ∧ next ≤ metadata.length := by
  obtain ⟨front, passed, spelled⟩ := (sound_of_fuel metadata fuel).bencodingType _ _ _ run
  exact passed.bounded spelled.length_pos

theorem parseByteString_passes {metadata content : Bytes} {pos next : Nat}
    (run : parseByteString metadata pos = .ok (content, next)) : pos < next ∧ next ≤ metadata.length := by
  obtain ⟨front, passed, spelled⟩ := parseByteString_sound run
  exact passed.bounded spelled.length_pos

theorem get_inside {metadata : Bytes} {pos next : Nat} {byte : UInt8} (got : get metadata pos = .ok (byte, next)) :
    next = pos + 1 ∧ pos < metadata.length := by
  have bounded := (get_passes got).bounded (by simp)
  obtain ⟨_, rfl⟩ := get_passes got
  exact ⟨rfl, bounded.2⟩

/-- The call came to an end of its own, not to the end of its bound. -/
def Ends {α : Type} (outcome : Except ParseError α) : Prop := outcome ≠ .error .outOfFuel

theorem Ends.ok {α : Type} {value : α} : Ends (.ok value) := by intro impossible; cases impossible

theorem Ends.bind {α β : Type} {first : Except ParseError α} {next : α → Except ParseError β} (ends : Ends first)
    (later : ∀ value, first = .ok value → Ends (next value)) : Ends (first >>= next) := by
  intro stopped
  rcases bind_eq_error.mp stopped with stopped | ⟨value, run, stopped⟩
  · exact ends stopped
  · exact later value run stopped

theorem ends_get (metadata : Bytes) (pos : Nat) : Ends (get metadata pos) := by
  unfold get Ends
  split <;> simp

theorem ends_peek (metadata : Bytes) (pos : Nat) : Ends (peek metadata pos) := by
  unfold peek Ends
  split <;> simp

theorem ends_liftStd {α : Type} (outcome : Except StdError α) : Ends (liftStd outcome) := by
  unfold liftStd Ends
  split <;> simp

theorem ends_scanLength (bytes : Bytes) (i : Nat) : Ends (scanLength bytes i) := by
  induction bytes generalizing i with
  | nil => exact .ok
  | cons byte bytes ih =>
    simp only [scanLength]
    split
    · exact .ok
    · split
      · exact ih _
      · simp [Ends]

theorem ends_scanInteger (bytes : Bytes) (pos : Nat) : Ends (scanInteger bytes pos) := by
  induction bytes generalizing pos with
  | nil => simp [Ends, scanInteger]
  | cons byte bytes ih =>
    simp only [scanInteger]
    split
    · exact .ok
    · split
      · simp [Ends]
      · exact ih _

theorem ends_parseByteString (metadata : Bytes) (pos : Nat) : Ends (parseByteString metadata pos) := by
  refine (ends_scanLength _ _).bind fun i _ => (ends_liftStd _).bind fun length _ => (ends_get _ _).bind ?_
  rintro ⟨colon, start⟩ _
  simp only
  split
  · simp [Ends]
  split
  · simp [Ends]
  split
  · simp [Ends]
  · exact .ok

theorem ends_parseInteger (metadata : Bytes) (pos : Nat) : Ends (parseInteger metadata pos) := by
  refine (ends_get _ _).bind ?_
  rintro ⟨first, start⟩ _
  simp only
  split
  · simp [Ends]
  · exact (ends_scanInteger _ _).bind fun stop _ => (ends_get _ _).bind fun last _ =>
      (ends_liftStd _).bind fun value _ => .ok

/-- Three more levels of recursion for every byte that is left are enough: each
round of a loop passes at least one byte. -/
structure Finishes (metadata : Bytes) (fuel : Nat) : Prop where
  bencodingType : ∀ pos, 3 * (metadata.length - pos) + 3 ≤ fuel → Ends (parseBencodingType metadata fuel pos)
  list : ∀ pos, 3 * (metadata.length - pos) + 2 ≤ fuel → Ends (parseList metadata fuel pos)
  items : ∀ content pos, 3 * (metadata.length - pos) + 4 ≤ fuel → Ends (parseItems metadata fuel content pos)
  dictionary : ∀ pos, 3 * (metadata.length - pos) + 2 ≤ fuel → Ends (parseDictionary metadata fuel pos)
  entries : ∀ content pos, 3 * (metadata.length - pos) + 4 ≤ fuel → Ends (parseEntries metadata fuel content pos)

theorem ends_parseBencodingType {metadata : Bytes} {fuel : Nat} (finishes : Finishes metadata fuel) {pos : Nat}
    (enough : 3 * (metadata.length - pos) + 3 ≤ fuel + 1) : Ends (parseBencodingType metadata (fuel + 1) pos) := by
  simp only [parseBencodingType]
  refine (ends_peek _ _).bind fun nextChar _ => ?_
  split
  · exact ends_parseInteger _ _
  split
  · exact finishes.list _ (by omega)
  split
  · exact finishes.dictionary _ (by omega)
  split
  · exact (ends_parseByteString _ _).bind fun _ _ => .ok
  · simp [Ends]

theorem ends_parseList {metadata : Bytes} {fuel : Nat} (finishes : Finishes metadata fuel) {pos : Nat}
    (enough : 3 * (metadata.length - pos) + 2 ≤ fuel + 1) : Ends (parseList metadata (fuel + 1) pos) := by
  simp only [parseList]
  refine (ends_get _ _).bind ?_
  rintro ⟨first, start⟩ got
  obtain ⟨rfl, inside⟩ := get_inside got
  simp only
  split
  · simp [Ends]
  · refine (finishes.items _ _ (by omega)).bind fun looped _ => (ends_get _ _).bind fun last _ => ?_
    split
    · simp [Ends]
    · exact .ok

theorem ends_parseDictionary {metadata : Bytes} {fuel : Nat} (finishes : Finishes metadata fuel) {pos : Nat}
    (enough : 3 * (metadata.length - pos) + 2 ≤ fuel + 1) : Ends (parseDictionary metadata (fuel + 1) pos) := by
  simp only [parseDictionary]
  refine (ends_get _ _).bind ?_
  rintro ⟨first, start⟩ got
  obtain ⟨rfl, inside⟩ := get_inside got
  simp only
  split
  · simp [Ends]
  · refine (finishes.entries _ _ (by omega)).bind fun looped _ => (ends_get _ _).bind fun last _ => ?_
    split
    · simp [Ends]
    · exact .ok

theorem ends_parseItems {metadata : Bytes} {fuel : Nat} (finishes : Finishes metadata fuel) {content : List BType}
    {pos : Nat} (enough : 3 * (metadata.length - pos) + 4 ≤ fuel + 1) :
    Ends (parseItems metadata (fuel + 1) content pos) := by
  simp only [parseItems]
  refine (ends_peek _ _).bind fun next _ => ?_
  split
  · exact .ok
  · refine (finishes.bencodingType _ (by omega)).bind ?_
    rintro ⟨item, middle⟩ run
    have passed := parseValue_passes run
    exact finishes.items _ _ (by omega)

theorem ends_parseEntries {metadata : Bytes} {fuel : Nat} (finishes : Finishes metadata fuel)
    {content : List (Bytes × BType)} {pos : Nat} (enough : 3 * (metadata.length - pos) + 4 ≤ fuel + 1) :
    Ends (parseEntries metadata (fuel + 1) content pos) := by
  simp only [parseEntries]
  refine (ends_peek _ _).bind fun next _ => ?_
  split
  · exact .ok
  · refine (ends_parseByteString _ _).bind ?_
    rintro ⟨key, middle⟩ keyRun
    have keyPassed := parseByteString_passes keyRun
    refine (finishes.bencodingType _ (by omega)).bind ?_
    rintro ⟨value, stop⟩ valueRun
    have valuePassed := parseValue_passes valueRun
    exact finishes.entries _ _ (by omega)

theorem finishes_of_fuel (metadata : Bytes) (fuel : Nat) : Finishes metadata fuel := by
  induction fuel with
  | zero =>
    exact { bencodingType := fun _ enough => by omega
            list := fun _ enough => by omega
            items := fun _ _ enough => by omega
            dictionary := fun _ enough => by omega
            entries := fun _ _ enough => by omega }
  | succ fuel finishes =>
    exact { bencodingType := fun _ enough => ends_parseBencodingType finishes enough
            list := fun _ enough => ends_parseList finishes enough
            items := fun _ _ enough => ends_parseItems finishes enough
            dictionary := fun _ enough => ends_parseDictionary finishes enough
            entries := fun _ _ enough => ends_parseEntries finishes enough }

/-- `parse_value` returns or throws on every input. -/
theorem ends_parseValue (metadata : Metadata) (pos : Nat) : Ends (parseValue metadata pos) :=
  (finishes_of_fuel metadata.bytes _).bencodingType pos (by omega)

/-- What `parse_value` accepts from a position, and where it stops. -/
theorem parseValue_eq_ok {metadata : Metadata} {pos next : Nat} {value : BType} :
    parseValue metadata pos = .ok (value, next) ↔ ∃ front, Passes metadata.bytes pos front next ∧ Spells front value := by
  constructor
  · exact (sound_of_fuel metadata.bytes _).bencodingType _ _ _
  · rintro ⟨front, ⟨⟨rest, located⟩, rfl⟩, spelled⟩
    have bound := length_of_drop located.symm (List.ne_nil_of_length_pos spelled.length_pos)
    exact readsBack_of_spells spelled _ rest _ _ metadata.size_lt located.symm (by omega)

/-- A text parsed on its own is consumed to its end. -/
theorem parseValue_alone {metadata : Metadata} {value : BType} (spelled : Spells metadata.bytes value) :
    parseValue metadata 0 = .ok (value, metadata.bytes.length) :=
  parseValue_eq_ok.mpr ⟨metadata.bytes, ⟨⟨[], by simp⟩, by simp⟩, spelled⟩

/-- `parse_byte_string` up to the construction of the string: the position and
the declared length of the bytes that are to be copied. -/
def copyRequest (metadata : Bytes) (pos : Nat) : Except ParseError (Nat × Nat) := do
  let i ← scanLength (metadata.drop pos) pos
  let length ← liftStd (stoul ((metadata.drop pos).take (i - pos)))
  let (colon, pos) ← get metadata i
  if colon ≠ 58 then .error (.missingColon pos)
  else if metadata.length < (pos + length) % 2 ^ 64 then .error (.stringUnfinished pos)
  else .ok (pos, length)

/-- `std::string(begin + first, begin + first + length)`. The range is reversed
when the end has wrapped, which the constructor answers with `length_error`. -/
def stringOfRange (metadata : Bytes) (first length : Nat) : Except StdError Bytes :=
  if metadata.length < first + length then .error .lengthError else .ok ((metadata.drop first).take length)

theorem parseByteString_eq (metadata : Bytes) (pos : Nat) :
    parseByteString metadata pos = (do
      let (first, length) ← copyRequest metadata pos
      let content ← liftStd (stringOfRange metadata first length)
      .ok (content, first + length)) := by
  simp only [parseByteString, copyRequest, stringOfRange, bind, Except.bind]
  cases scanLength (metadata.drop pos) pos with
  | error error => rfl
  | ok i =>
    simp only
    cases liftStd (stoul ((metadata.drop pos).take (i - pos))) with
    | error error => rfl
    | ok length =>
      simp only
      cases get metadata i with
      | error error => rfl
      | ok got =>
        simp only
        split
        · rfl
        split
        · rfl
        · simp only
          split <;> rfl

/-- The bytes from `pos` on declare a length for which the `size_t` sum of the
bound check wraps. -/
def LengthWraps (metadata : Bytes) (pos : Nat) : Prop :=
  ∃ digits rest, digits ≠ [] ∧ (∀ c ∈ digits, isdigit c = true) ∧ metadata.drop pos = digits ++ 58 :: rest ∧
    digitsValue digits < 2 ^ 64 ∧ 2 ^ 64 ≤ pos + digits.length + 1 + digitsValue digits

theorem stoul_lt {numStr : Bytes} {n : Nat} (converted : stoul numStr = .ok n) : n < 2 ^ 64 := by
  simp only [stoul] at converted
  split at converted
  · cases converted
  split at converted
  · cases converted
  · rename_i fits
    cases converted
    exact Nat.not_le.mp fits

/-- Where a copy is asked for, and what the bound check has let through. -/
theorem copyRequest_sound {metadata : Bytes} {pos first length : Nat}
    (run : copyRequest metadata pos = .ok (first, length)) :
    ∃ digits rest, digits ≠ [] ∧ (∀ c ∈ digits, isdigit c = true) ∧ metadata.drop pos = digits ++ 58 :: rest ∧
      length = digitsValue digits ∧ length < 2 ^ 64 ∧ first = pos + digits.length + 1 ∧ first ≤ metadata.length ∧
      (first + length) % 2 ^ 64 ≤ metadata.length := by
  obtain ⟨i, scan, afterScan⟩ := bind_eq_ok.mp run
  obtain ⟨length, converted, afterLength⟩ := bind_eq_ok.mp afterScan
  obtain ⟨⟨colon, start⟩, got, afterColon⟩ := bind_eq_ok.mp afterLength
  obtain ⟨digits, rest, located, rfl, all⟩ := scanLength_sound scan
  rw [located, Nat.add_sub_cancel_left, List.take_left] at converted
  have fits := stoul_lt (liftStd_eq_ok converted)
  obtain ⟨nonempty, rfl⟩ := digits_of_stoul all (liftStd_eq_ok converted)
  obtain ⟨⟨behind, atColon⟩, _⟩ := get_passes got
  have after := drop_add_of_append _ located
  obtain ⟨rfl, inside⟩ := get_inside got
  simp only at afterColon
  split at afterColon
  · cases afterColon
  split at afterColon
  · cases afterColon
  rename_i isColon checked
  cases afterColon
  obtain rfl : colon = 58 := by simpa using isColon
  rw [← atColon] at after
  exact ⟨digits, behind, nonempty, all, by rw [located, ← after, List.singleton_append], rfl, fits, rfl, inside,
    Nat.not_lt.mp checked⟩

theorem copyRequest_of_wraps {metadata : Bytes} {pos : Nat} (wraps : LengthWraps metadata pos) :
    ∃ first length, copyRequest metadata pos = .ok (first, length) ∧ first ≤ metadata.length ∧
      2 ^ 64 ≤ first + length := by
  obtain ⟨digits, rest, nonempty, all, located, fits, wraps⟩ := wraps
  have located' : metadata.drop pos = (digits ++ [58]) ++ rest := by
    rw [located, List.append_assoc, List.singleton_append]
  have inside := length_of_drop located' (by simp)
  simp only [List.length_append, List.length_cons, List.length_nil] at inside
  have check : ¬metadata.length < (pos + digits.length + 1 + digitsValue digits) % 2 ^ 64 := by omega
  refine ⟨pos + digits.length + 1, digitsValue digits, ?_, by omega, wraps⟩
  simp only [copyRequest, located, scanLength_digits all, bind, Except.bind, Nat.add_sub_cancel_left,
    List.take_left, stoul_of_digits all nonempty fits, liftStd, get_of_drop (drop_add_of_append _ located)]
  rw [if_neg (by decide), if_neg check]

end BittorrentClient.Bencode.Parser
