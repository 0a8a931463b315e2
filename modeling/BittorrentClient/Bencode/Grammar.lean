import BittorrentClient.Bencode.Parser
import BittorrentClient.Library.Outcome

namespace BittorrentClient.Bencode
open Cpp

/-- The texts `parse_byte_string` takes for a content: a decimal length, which
may have leading zeros, a colon, and that many bytes whatever they are. -/
inductive SpellsString : Bytes → Bytes → Prop
  | intro {digits content : Bytes} : digits ≠ [] → (∀ c ∈ digits, isdigit c = true) →
      digitsValue digits = content.length → SpellsString (digits ++ 58 :: content) content

/-- One entry of a dictionary with the texts it was read from. -/
structure SpelledEntry where
  keyText : Bytes
  key : Bytes
  valueText : Bytes
  value : BType

/-- The loop of `parse_dictionary` over entries that were read already. -/
def assignEntries (content : List (Bytes × BType)) (parts : List SpelledEntry) : List (Bytes × BType) :=
  parts.foldl (fun content part => mapAssign part.key part.value content) content

/-- The texts the parser takes for a value. The text alone decides the value:
nothing in front of it or behind it matters. -/
inductive Spells : Bytes → BType → Prop
  | integer {characters : Bytes} {value : Int64} : (∀ c ∈ characters, isdigit c = true ∨ c = 45) →
      stoll characters = .ok value → Spells (105 :: (characters ++ [101])) (.integer value)
  | string {front content : Bytes} : SpellsString front content → Spells front (.string content)
  | list {parts : List (Bytes × BType)} : (∀ part ∈ parts, Spells part.1 part.2) →
      Spells (108 :: ((parts.map Prod.fst).flatten ++ [101])) (.list (parts.map Prod.snd))
  | dict {parts : List SpelledEntry} : (∀ part ∈ parts, SpellsString part.keyText part.key) →
      (∀ part ∈ parts, Spells part.valueText part.value) →
      Spells (100 :: ((parts.map (fun part => part.keyText ++ part.valueText)).flatten ++ [101]))
        (.dict (assignEntries [] parts))

theorem isdigit_ne_tags {c : UInt8} (digit : isdigit c = true) :
    c ≠ 58 ∧ c ≠ 101 ∧ c ≠ 105 ∧ c ≠ 108 ∧ c ≠ 100 := by
  refine ⟨?_, ?_, ?_, ?_, ?_⟩ <;> rintro rfl <;> exact absurd digit (by decide)

theorem SpellsString.head {front content : Bytes} (spelled : SpellsString front content) :
    ∃ c tail, front = c :: tail ∧ isdigit c = true := by
  obtain ⟨nonempty, all, _⟩ := spelled
  obtain ⟨c, tail, rfl⟩ := List.exists_cons_of_ne_nil nonempty
  exact ⟨c, _, List.cons_append .., all c (List.mem_cons_self ..)⟩

/-- No text of a value starts with the byte that closes a list or a dictionary. -/
theorem Spells.head {front : Bytes} {value : BType} (spelled : Spells front value) :
    ∃ c tail, front = c :: tail ∧ c ≠ 101 := by
  cases spelled with
  | integer => exact ⟨105, _, rfl, by decide⟩
  | string text =>
    obtain ⟨c, tail, same, digit⟩ := text.head
    exact ⟨c, tail, same, (isdigit_ne_tags digit).2.1⟩
  | list => exact ⟨108, _, rfl, by decide⟩
  | dict => exact ⟨100, _, rfl, by decide⟩

theorem Spells.length_pos {front : Bytes} {value : BType} (spelled : Spells front value) : 0 < front.length := by
  obtain ⟨c, tail, rfl, _⟩ := spelled.head
  exact Nat.succ_pos _

theorem SpellsString.length_pos {front content : Bytes} (spelled : SpellsString front content) :
    0 < front.length := (Spells.string spelled).length_pos

namespace Parser

theorem drop_add_of_append {metadata : Bytes} (front : Bytes) {rest : Bytes} {pos : Nat}
    (located : metadata.drop pos = front ++ rest) : metadata.drop (pos + front.length) = rest := by
  rw [← List.drop_drop, located, List.drop_left]

theorem getElem?_of_drop {metadata rest : Bytes} {pos : Nat} {byte : UInt8}
    (located : metadata.drop pos = byte :: rest) : metadata[pos]? = some byte := by
  rw [← List.head?_drop, located, List.head?_cons]

theorem get_of_drop {metadata rest : Bytes} {pos : Nat} {byte : UInt8}
    (located : metadata.drop pos = byte :: rest) : get metadata pos = .ok (byte, pos + 1) := by
  simp only [Parser.get, getElem?_of_drop located]

theorem peek_of_drop {metadata rest : Bytes} {pos : Nat} {byte : UInt8}
    (located : metadata.drop pos = byte :: rest) : peek metadata pos = .ok byte := by
  simp only [peek, getElem?_of_drop located]

theorem length_of_drop {metadata front rest : Bytes} {pos : Nat}
    (located : metadata.drop pos = front ++ rest) (nonempty : front ≠ []) :
    pos + front.length ≤ metadata.length := by
  have lengths := congrArg List.length located
  have positive := List.length_pos_of_ne_nil nonempty
  simp only [List.length_drop, List.length_append] at lengths
  omega

theorem scanLength_digits {digits rest : Bytes} (all : ∀ c ∈ digits, isdigit c = true) (i : Nat) :
    scanLength (digits ++ 58 :: rest) i = .ok (i + digits.length) := by
  induction digits generalizing i with
  | nil => simp [scanLength]
  | cons c digits ih =>
    have digit := all c (List.mem_cons_self ..)
    have tail := ih (fun d member => all d (List.mem_cons_of_mem _ member)) (i + 1)
    rw [List.cons_append, scanLength, if_neg (isdigit_ne_tags digit).1, if_pos digit, tail, List.length_cons]
    congr 1
    omega

/-- A byte string is read back whatever bytes it holds, delimiters included:
only its length is scanned. -/
theorem parseByteString_of_spells {metadata front content rest : Bytes} {pos : Nat} (size : metadata.length < 2 ^ 64)
    (spelled : SpellsString front content) (located : metadata.drop pos = front ++ rest) :
    parseByteString metadata pos = .ok (content, pos + front.length) := by
  have bound := length_of_drop located (List.ne_nil_of_length_pos spelled.length_pos)
  obtain ⟨nonempty, all, declared⟩ := spelled
  rename_i digits
  simp only [List.append_assoc, List.cons_append, List.length_append, List.length_cons] at located bound ⊢
  have atColon := drop_add_of_append _ located
  have atContent : metadata.drop (pos + digits.length + 1) = content ++ rest :=
    drop_add_of_append [58] atColon
  have small : (pos + digits.length + 1 + content.length) % 2 ^ 64 = pos + digits.length + 1 + content.length :=
    Nat.mod_eq_of_lt (by omega)
  have reached : pos + digits.length + 1 + content.length = pos + (digits.length + (content.length + 1)) := by omega
  have read : stoul digits = .ok content.length := by
    rw [← declared]
    exact stoul_of_digits all nonempty (by omega)
  simp only [parseByteString, located, scanLength_digits all, bind, Except.bind, Nat.add_sub_cancel_left,
    List.take_left, read, liftStd, get_of_drop atColon, atContent, small]
  rw [if_neg (by decide), if_neg (by omega), if_neg (by omega), reached]

theorem scanInteger_digits {digits : Bytes} (all : ∀ c ∈ digits, isdigit c = true ∨ c = 45) (rest : Bytes)
    (pos : Nat) :
    scanInteger (digits ++ 101 :: rest) pos = .ok (pos + digits.length) := by
  induction digits generalizing pos with
  | nil => simp [scanInteger]
  | cons c digits ih =>
    have tail := ih (fun d member => all d (List.mem_cons_of_mem _ member)) (pos + 1)
    have notEnd : c ≠ 101 := by
      rcases all c (List.mem_cons_self ..) with digit | rfl
      · exact (isdigit_ne_tags digit).2.1
      · decide
    have accepted : (!isdigit c && c != 45) = false := by
      rcases all c (List.mem_cons_self ..) with digit | rfl
      · simp [digit]
      · rfl
    rw [List.cons_append, scanInteger, if_neg notEnd, accepted, if_neg (by decide), tail, List.length_cons]
    congr 1
    omega

theorem parseInteger_of_spells {metadata characters rest : Bytes} {pos : Nat} {value : Int64}
    (all : ∀ c ∈ characters, isdigit c = true ∨ c = 45) (converted : stoll characters = .ok value)
    (located : metadata.drop pos = 105 :: (characters ++ 101 :: rest)) :
    parseInteger metadata pos = .ok (.integer value, pos + (characters.length + 2)) := by
  have atDigits : metadata.drop (pos + 1) = characters ++ 101 :: rest := drop_add_of_append [105] located
  have atEnd := drop_add_of_append _ atDigits
  have scan := scanInteger_digits all rest (pos + 1)
  have reached : pos + 1 + characters.length + 1 = pos + (characters.length + 2) := by omega
  simp only [parseInteger, get_of_drop located, bind, Except.bind, atDigits, scan, get_of_drop atEnd,
    Nat.add_sub_cancel_left, List.take_left, converted, liftStd, reached]
  rw [if_neg (by decide)]

/-- What the parser owes one text: wherever it stands and whatever follows it,
the value is returned and the position is the end of the text. -/
def ReadsBack (front : Bytes) (value : BType) : Prop :=
  ∀ (metadata rest : Bytes) (pos fuel : Nat), metadata.length < 2 ^ 64 →
    metadata.drop pos = front ++ rest → 3 * front.length ≤ fuel →
    parseBencodingType metadata fuel pos = .ok (value, pos + front.length)

theorem parseItems_of_readsBack {metadata rest : Bytes} (size : metadata.length < 2 ^ 64)
    {parts : List (Bytes × BType)} (spelled : ∀ part ∈ parts, Spells part.1 part.2)
    (readsBack : ∀ part ∈ parts, ReadsBack part.1 part.2) {content : List BType} {pos fuel : Nat}
    (located : metadata.drop pos = (parts.map Prod.fst).flatten ++ 101 :: rest)
    (enough : 3 * (parts.map Prod.fst).flatten.length + 1 ≤ fuel) :
    parseItems metadata fuel content pos =
      .ok (content ++ parts.map Prod.snd, pos + (parts.map Prod.fst).flatten.length) := by
  induction parts generalizing content pos fuel with
  | nil =>
    obtain ⟨fuel, rfl⟩ := Nat.exists_eq_add_of_le' (show 1 ≤ fuel by omega)
    simp only [List.map_nil, List.flatten_nil, List.nil_append] at located
    simp [parseItems, peek_of_drop located, bind, Except.bind]
  | cons part parts ih =>
    obtain ⟨fuel, rfl⟩ := Nat.exists_eq_add_of_le' (show 1 ≤ fuel by omega)
    simp only [List.map_cons, List.flatten_cons, List.append_assoc, List.length_append] at located enough ⊢
    have here := spelled part (List.mem_cons_self ..)
    obtain ⟨c, tail, shape, notEnd⟩ := here.head
    have positive := here.length_pos
    have atHead : metadata.drop pos = c :: (tail ++ ((parts.map Prod.fst).flatten ++ 101 :: rest)) := by
      rw [located, shape, List.cons_append]
    have first := readsBack part (List.mem_cons_self ..) metadata _ pos fuel size located (by omega)
    have others := @ih (fun p member => spelled p (List.mem_cons_of_mem _ member))
      (fun p member => readsBack p (List.mem_cons_of_mem _ member)) (content ++ [part.2]) _ fuel
      (drop_add_of_append _ located) (by omega)
    simp only [parseItems, peek_of_drop atHead, bind, Except.bind, if_neg notEnd, first, others,
      List.append_assoc, List.singleton_append, Nat.add_assoc]

theorem parseEntries_of_readsBack {metadata rest : Bytes} (size : metadata.length < 2 ^ 64)
    {parts : List SpelledEntry} (keys : ∀ part ∈ parts, SpellsString part.keyText part.key)
    (readsBack : ∀ part ∈ parts, ReadsBack part.valueText part.value)
    {content : List (Bytes × BType)} {pos fuel : Nat}
    (located : metadata.drop pos =
      (parts.map (fun part => part.keyText ++ part.valueText)).flatten ++ 101 :: rest)
    (enough : 3 * (parts.map (fun part => part.keyText ++ part.valueText)).flatten.length + 1 ≤ fuel) :
    parseEntries metadata fuel content pos = .ok (assignEntries content parts,
      pos + (parts.map (fun part => part.keyText ++ part.valueText)).flatten.length) := by
  induction parts generalizing content pos fuel with
  | nil =>
    obtain ⟨fuel, rfl⟩ := Nat.exists_eq_add_of_le' (show 1 ≤ fuel by omega)
    simp only [List.map_nil, List.flatten_nil, List.nil_append] at located
    simp [parseEntries, peek_of_drop located, bind, Except.bind, assignEntries]
  | cons part parts ih =>
    obtain ⟨fuel, rfl⟩ := Nat.exists_eq_add_of_le' (show 1 ≤ fuel by omega)
    simp only [List.map_cons, List.flatten_cons, List.append_assoc, List.length_append] at located enough ⊢
    have key := keys part (List.mem_cons_self ..)
    obtain ⟨c, tail, shape, digit⟩ := key.head
    have positive := key.length_pos
    have atHead : metadata.drop pos = c :: (tail ++ (part.valueText ++
        ((parts.map (fun part => part.keyText ++ part.valueText)).flatten ++ 101 :: rest))) := by
      rw [located, shape, List.cons_append]
    have atValue := drop_add_of_append _ located
    have first := readsBack part (List.mem_cons_self ..) metadata _ _ fuel size atValue (by omega)
    have others := @ih (fun p member => keys p (List.mem_cons_of_mem _ member))
      (fun p member => readsBack p (List.mem_cons_of_mem _ member)) (mapAssign part.key part.value content) _ fuel
      (drop_add_of_append _ atValue) (by omega)
    simp only [parseEntries, peek_of_drop atHead, bind, Except.bind, if_neg (isdigit_ne_tags digit).2.1,
      parseByteString_of_spells size key located, first, others]
    simp only [assignEntries, List.foldl_cons, Nat.add_assoc]

/-- Every text of the grammar is accepted wherever it stands. -/
theorem readsBack_of_spells {front : Bytes} {value : BType} (spelled : Spells front value) :
    ReadsBack front value := by
  induction spelled with
  | @integer characters value all converted =>
    intro metadata rest pos fuel _ located enough
    obtain ⟨fuel, rfl⟩ := Nat.exists_eq_add_of_le' (show 1 ≤ fuel by simp at enough; omega)
    simp only [List.cons_append, List.append_assoc, List.nil_append] at located
    simp only [parseBencodingType, peek_of_drop located, bind, Except.bind, if_true,
      parseInteger_of_spells all converted located, List.length_cons, List.length_append, List.length_nil]
  | @string front content text =>
    intro metadata rest pos fuel size located enough
    have positive := text.length_pos
    obtain ⟨fuel, rfl⟩ := Nat.exists_eq_add_of_le' (show 1 ≤ fuel by omega)
    obtain ⟨c, tail, shape, digit⟩ := text.head
    have atHead : metadata.drop pos = c :: (tail ++ rest) := by rw [located, shape, List.cons_append]
    obtain ⟨_, _, notInteger, notList, notDict⟩ := isdigit_ne_tags digit
    simp only [parseBencodingType, peek_of_drop atHead, bind, Except.bind, if_neg notInteger, if_neg notList,
      if_neg notDict, digit, if_true, parseByteString_of_spells size text located]
  | @list parts spelled ih =>
    intro metadata rest pos fuel size located enough
    simp only [List.length_cons, List.length_append, List.length_nil, List.cons_append, List.append_assoc,
      List.nil_append] at located enough ⊢
    obtain ⟨fuel, rfl⟩ := Nat.exists_eq_add_of_le' (show 2 ≤ fuel by omega)
    have atItems : metadata.drop (pos + 1) = (parts.map Prod.fst).flatten ++ 101 :: rest :=
      drop_add_of_append [108] located
    have items := @parseItems_of_readsBack metadata rest size parts spelled ih [] _ fuel atItems (by omega)
    have reached : pos + 1 + (parts.map Prod.fst).flatten.length + 1 =
        pos + ((parts.map Prod.fst).flatten.length + 1 + 1) := by omega
    simp only [parseBencodingType, parseList, peek_of_drop located, get_of_drop located, bind, Except.bind, items,
      get_of_drop (drop_add_of_append _ atItems), List.nil_append, reached]
    simp
  | @dict parts keys _ ih =>
    intro metadata rest pos fuel size located enough
    simp only [List.length_cons, List.length_append, List.length_nil, List.cons_append, List.append_assoc,
      List.nil_append] at located enough ⊢
    obtain ⟨fuel, rfl⟩ := Nat.exists_eq_add_of_le' (show 2 ≤ fuel by omega)
    have atEntries : metadata.drop (pos + 1) =
        (parts.map (fun part => part.keyText ++ part.valueText)).flatten ++ 101 :: rest :=
      drop_add_of_append [100] located
    have entries := @parseEntries_of_readsBack metadata rest size parts keys ih [] _ fuel atEntries (by omega)
    have reached : pos + 1 + (parts.map (fun part => part.keyText ++ part.valueText)).flatten.length + 1 =
        pos + ((parts.map (fun part => part.keyText ++ part.valueText)).flatten.length + 1 + 1) := by omega
    simp only [parseBencodingType, parseDictionary, peek_of_drop located, get_of_drop located, bind, Except.bind,
      entries, get_of_drop (drop_add_of_append _ atEntries), reached]
    simp

/-- The position moved from `pos` to `next` past exactly the bytes `front`. -/
def Passes (metadata : Bytes) (pos : Nat) (front : Bytes) (next : Nat) : Prop :=
  front <+: metadata.drop pos ∧ next = pos + front.length

theorem Passes.nil (metadata : Bytes) (pos : Nat) : Passes metadata pos [] pos := ⟨List.nil_prefix, rfl⟩

theorem Passes.append {metadata front behind : Bytes} {pos middle next : Nat}
    (first : Passes metadata pos front middle) (second : Passes metadata middle behind next) :
    Passes metadata pos (front ++ behind) next := by
  obtain ⟨⟨rest, located⟩, rfl⟩ := first
  obtain ⟨⟨rest', located'⟩, rfl⟩ := second
  rw [drop_add_of_append front located.symm] at located'
  refine ⟨⟨rest', ?_⟩, ?_⟩
  · rw [← located, ← located', List.append_assoc]
  · rw [List.length_append, Nat.add_assoc]

theorem Passes.bounded {metadata front : Bytes} {pos next : Nat} (passed : Passes metadata pos front next)
    (positive : 0 < front.length) : pos < next ∧ next ≤ metadata.length := by
  obtain ⟨⟨rest, located⟩, rfl⟩ := passed
  have bound := length_of_drop located.symm (List.ne_nil_of_length_pos positive)
  omega

theorem get_passes {metadata : Bytes} {pos next : Nat} {byte : UInt8} (got : get metadata pos = .ok (byte, next)) :
    Passes metadata pos [byte] next := by
  unfold get at got
  split at got
  · cases got
  · rename_i found
    cases got
    obtain ⟨inside, rfl⟩ := List.getElem?_eq_some_iff.mp found
    refine ⟨⟨metadata.drop (pos + 1), ?_⟩, rfl⟩
    exact (List.drop_eq_getElem_cons inside).symm

theorem scanLength_sound {bytes : Bytes} {i j : Nat} (scan : scanLength bytes i = .ok j) :
    ∃ digits rest, bytes = digits ++ rest ∧ j = i + digits.length ∧ ∀ c ∈ digits, isdigit c = true := by
  induction bytes generalizing i with
  | nil =>
    cases scan
    exact ⟨[], [], rfl, rfl, by simp⟩
  | cons byte bytes ih =>
    simp only [scanLength] at scan
    split at scan
    · cases scan
      exact ⟨[], _, rfl, rfl, by simp⟩
    · split at scan
      · rename_i digit
        obtain ⟨digits, rest, rfl, rfl, all⟩ := ih scan
        refine ⟨byte :: digits, rest, rfl, ?_, ?_⟩
        · simp only [List.length_cons]
          omega
        · intro c member
          rcases List.mem_cons.mp member with rfl | later
          · exact digit
          · exact all c later
      · cases scan

theorem liftStd_eq_ok {α : Type} {outcome : Except StdError α} {value : α} (run : liftStd outcome = .ok value) :
    outcome = .ok value := by
  cases outcome with
  | error error => cases run
  | ok result => exact congrArg _ (Except.ok.inj run)

theorem parseByteString_sound {metadata content : Bytes} {pos next : Nat}
    (run : parseByteString metadata pos = .ok (content, next)) :
    ∃ front, Passes metadata pos front next ∧ SpellsString front content := by
  obtain ⟨i, scan, afterScan⟩ := bind_eq_ok.mp run
  obtain ⟨length, converted, afterLength⟩ := bind_eq_ok.mp afterScan
  obtain ⟨⟨colon, start⟩, got, afterColon⟩ := bind_eq_ok.mp afterLength
  obtain ⟨digits, rest, located, rfl, all⟩ := scanLength_sound scan
  rw [located, Nat.add_sub_cancel_left, List.take_left] at converted
  obtain ⟨nonempty, rfl⟩ := digits_of_stoul all (liftStd_eq_ok converted)
  have digitsPassed : Passes metadata pos digits (pos + digits.length) := ⟨⟨rest, located.symm⟩, rfl⟩
  have colonPassed := digitsPassed.append (get_passes got)
  simp only at afterColon
  split at afterColon
  · cases afterColon
  split at afterColon
  · cases afterColon
  split at afterColon
  · cases afterColon
  cases afterColon
  rename_i isColon _ inside
  obtain rfl : colon = 58 := by simpa using isColon
  have taken : ((metadata.drop start).take (digitsValue digits)).length = digitsValue digits := by
    rw [List.length_take, List.length_drop]
    omega
  have contentPassed : Passes metadata start ((metadata.drop start).take (digitsValue digits))
      (start + digitsValue digits) := ⟨List.take_prefix _ _, by rw [taken]⟩
  refine ⟨digits ++ 58 :: (metadata.drop start).take (digitsValue digits), ?_, .intro nonempty all taken.symm⟩
  simpa using colonPassed.append contentPassed

theorem scanInteger_sound {bytes : Bytes} {pos stop : Nat} (scan : scanInteger bytes pos = .ok stop) :
    ∃ characters rest, bytes = characters ++ 101 :: rest ∧ stop = pos + characters.length ∧
      ∀ c ∈ characters, isdigit c = true ∨ c = 45 := by
  induction bytes generalizing pos with
  | nil => cases scan
  | cons byte bytes ih =>
    simp only [scanInteger] at scan
    split at scan
    · rename_i closing
      cases scan
      exact ⟨[], bytes, by rw [closing, List.nil_append], rfl, by simp⟩
    · split at scan
      · cases scan
      · rename_i accepted
        obtain ⟨characters, rest, rfl, rfl, all⟩ := ih scan
        refine ⟨byte :: characters, rest, rfl, ?_, ?_⟩
        · simp only [List.length_cons]
          omega
        · intro c member
          rcases List.mem_cons.mp member with rfl | later
          · by_cases digit : isdigit c = true
            · exact Or.inl digit
            · exact Or.inr (by simpa [digit] using accepted)
          · exact all c later

theorem parseInteger_sound {metadata : Bytes} {pos next : Nat} {value : BType}
    (run : parseInteger metadata pos = .ok (value, next)) :
    ∃ front, Passes metadata pos front next ∧ Spells front value := by
  obtain ⟨⟨first, start⟩, got, afterTag⟩ := bind_eq_ok.mp run
  simp only at afterTag
  split at afterTag
  · cases afterTag
  rename_i isTag
  obtain rfl : first = 105 := by simpa using isTag
  obtain ⟨stop, scan, afterScan⟩ := bind_eq_ok.mp afterTag
  obtain ⟨⟨last, next'⟩, gotEnd, afterEnd⟩ := bind_eq_ok.mp afterScan
  obtain ⟨number, converted, built⟩ := bind_eq_ok.mp afterEnd
  cases built
  obtain ⟨characters, rest, located, rfl, all⟩ := scanInteger_sound scan
  rw [located, Nat.add_sub_cancel_left, List.take_left] at converted
  have atEnd := get_of_drop (drop_add_of_append characters located)
  rw [gotEnd] at atEnd
  cases atEnd
  have charactersPassed : Passes metadata start characters (start + characters.length) :=
    ⟨⟨101 :: rest, located.symm⟩, rfl⟩
  refine ⟨105 :: (characters ++ [101]), ?_, .integer all (liftStd_eq_ok converted)⟩
  exact (get_passes got).append (charactersPassed.append (get_passes gotEnd))

/-- The calls that return a value, at one bound of the recursion: each of them
has passed exactly a text of the value it returns. -/
structure Sound (metadata : Bytes) (fuel : Nat) : Prop where
  bencodingType : ∀ pos value next, parseBencodingType metadata fuel pos = .ok (value, next) →
    ∃ front, Passes metadata pos front next ∧ Spells front value
  list : ∀ pos value next, parseList metadata fuel pos = .ok (value, next) →
    ∃ front, Passes metadata pos front next ∧ Spells front value
  items : ∀ content pos result next, parseItems metadata fuel content pos = .ok (result, next) →
    ∃ parts : List (Bytes × BType), Passes metadata pos (parts.map Prod.fst).flatten next ∧
      (∀ part ∈ parts, Spells part.1 part.2) ∧ result = content ++ parts.map Prod.snd
  dictionary : ∀ pos value next, parseDictionary metadata fuel pos = .ok (value, next) →
    ∃ front, Passes metadata pos front next ∧ Spells front value
  entries : ∀ content pos result next, parseEntries metadata fuel content pos = .ok (result, next) →
    ∃ parts : List SpelledEntry,
      Passes metadata pos (parts.map (fun part => part.keyText ++ part.valueText)).flatten next ∧
      (∀ part ∈ parts, SpellsString part.keyText part.key) ∧ (∀ part ∈ parts, Spells part.valueText part.value) ∧
      result = assignEntries content parts

theorem parseBencodingType_step {metadata : Bytes} {fuel : Nat} (sound : Sound metadata fuel) {pos next : Nat}
    {value : BType} (run : parseBencodingType metadata (fuel + 1) pos = .ok (value, next)) :
    ∃ front, Passes metadata pos front next ∧ Spells front value := by
  simp only [parseBencodingType] at run
  obtain ⟨nextChar, _, chosen⟩ := bind_eq_ok.mp run
  split at chosen
  · exact parseInteger_sound chosen
  split at chosen
  · exact sound.list _ _ _ chosen
  split at chosen
  · exact sound.dictionary _ _ _ chosen
  split at chosen
  · obtain ⟨⟨content, stop⟩, read, built⟩ := bind_eq_ok.mp chosen
    cases built
    obtain ⟨front, passed, spelled⟩ := parseByteString_sound read
    exact ⟨front, passed, .string spelled⟩
  · cases chosen

theorem parseList_step {metadata : Bytes} {fuel : Nat} (sound : Sound metadata fuel) {pos next : Nat}
    {value : BType} (run : parseList metadata (fuel + 1) pos = .ok (value, next)) :
    ∃ front, Passes metadata pos front next ∧ Spells front value := by
  simp only [parseList] at run
  obtain ⟨⟨first, start⟩, got, afterTag⟩ := bind_eq_ok.mp run
  simp only at afterTag
  split at afterTag
  · cases afterTag
  rename_i isTag
  obtain rfl : first = 108 := by simpa using isTag
  obtain ⟨⟨content, stop⟩, looped, afterLoop⟩ := bind_eq_ok.mp afterTag
  obtain ⟨⟨last, next'⟩, gotEnd, afterEnd⟩ := bind_eq_ok.mp afterLoop
  simp only at afterEnd
  split at afterEnd
  · cases afterEnd
  rename_i isEnd
  obtain rfl : last = 101 := by simpa using isEnd
  cases afterEnd
  obtain ⟨parts, passed, spelled, rfl⟩ := sound.items _ _ _ _ looped
  exact ⟨_, (get_passes got).append (passed.append (get_passes gotEnd)), .list spelled⟩

theorem parseItems_step {metadata : Bytes} {fuel : Nat} (sound : Sound metadata fuel) {content result : List BType}
    {pos next : Nat} (run : parseItems metadata (fuel + 1) content pos = .ok (result, next)) :
    ∃ parts : List (Bytes × BType), Passes metadata pos (parts.map Prod.fst).flatten next ∧
      (∀ part ∈ parts, Spells part.1 part.2) ∧ result = content ++ parts.map Prod.snd := by
  simp only [parseItems] at run
  obtain ⟨byte, _, chosen⟩ := bind_eq_ok.mp run
  split at chosen
  · cases chosen
    exact ⟨[], Passes.nil .., by simp, by simp⟩
  · obtain ⟨⟨item, middle⟩, first, later⟩ := bind_eq_ok.mp chosen
    obtain ⟨front, passed, spelled⟩ := sound.bencodingType _ _ _ first
    obtain ⟨parts, others, all, rfl⟩ := sound.items _ _ _ _ later
    refine ⟨(front, item) :: parts, passed.append others, List.forall_mem_cons.mpr ⟨spelled, all⟩, ?_⟩
    rw [List.map_cons, List.append_assoc, List.singleton_append]

theorem parseDictionary_step {metadata : Bytes} {fuel : Nat} (sound : Sound metadata fuel) {pos next : Nat}
    {value : BType} (run : parseDictionary metadata (fuel + 1) pos = .ok (value, next)) :
    ∃ front, Passes metadata pos front next ∧ Spells front value := by
  simp only [parseDictionary] at run
  obtain ⟨⟨first, start⟩, got, afterTag⟩ := bind_eq_ok.mp run
  simp only at afterTag
  split at afterTag
  · cases afterTag
  rename_i isTag
  obtain rfl : first = 100 := by simpa using isTag
  obtain ⟨⟨content, stop⟩, looped, afterLoop⟩ := bind_eq_ok.mp afterTag
  obtain ⟨⟨last, next'⟩, gotEnd, afterEnd⟩ := bind_eq_ok.mp afterLoop
  simp only at afterEnd
  split at afterEnd
  · cases afterEnd
  rename_i isEnd
  obtain rfl : last = 101 := by simpa using isEnd
  cases afterEnd
  obtain ⟨parts, passed, keys, spelled, rfl⟩ := sound.entries _ _ _ _ looped
  exact ⟨_, (get_passes got).append (passed.append (get_passes gotEnd)), .dict keys spelled⟩

theorem parseEntries_step {metadata : Bytes} {fuel : Nat} (sound : Sound metadata fuel)
    {content result : List (Bytes × BType)} {pos next : Nat}
    (run : parseEntries metadata (fuel + 1) content pos = .ok (result, next)) :
    ∃ parts : List SpelledEntry,
      Passes metadata pos (parts.map (fun part => part.keyText ++ part.valueText)).flatten next ∧
      (∀ part ∈ parts, SpellsString part.keyText part.key) ∧ (∀ part ∈ parts, Spells part.valueText part.value) ∧
      result = assignEntries content parts := by
  simp only [parseEntries] at run
  obtain ⟨byte, _, chosen⟩ := bind_eq_ok.mp run
  split at chosen
  · cases chosen
    exact ⟨[], Passes.nil .., by simp, by simp, rfl⟩
  · obtain ⟨⟨key, middle⟩, keyRead, afterKey⟩ := bind_eq_ok.mp chosen
    obtain ⟨⟨value, stop⟩, valueRead, later⟩ := bind_eq_ok.mp afterKey
    obtain ⟨keyText, keyPassed, keySpelled⟩ := parseByteString_sound keyRead
    obtain ⟨valueText, valuePassed, valueSpelled⟩ := sound.bencodingType _ _ _ valueRead
    obtain ⟨parts, others, keys, all, rfl⟩ := sound.entries _ _ _ _ later
    exact ⟨⟨keyText, key, valueText, value⟩ :: parts, (keyPassed.append valuePassed).append others,
      List.forall_mem_cons.mpr ⟨keySpelled, keys⟩, List.forall_mem_cons.mpr ⟨valueSpelled, all⟩, rfl⟩

theorem sound_of_fuel (metadata : Bytes) (fuel : Nat) : Sound metadata fuel := by
  induction fuel with
  | zero =>
    exact { bencodingType := fun _ _ _ run => by simp [parseBencodingType] at run
            list := fun _ _ _ run => by simp [parseList] at run
            items := fun _ _ _ _ run => by simp [parseItems] at run
            dictionary := fun _ _ _ run => by simp [parseDictionary] at run
            entries := fun _ _ _ _ run => by simp [parseEntries] at run }
  | succ fuel sound =>
    exact { bencodingType := fun _ _ _ run => parseBencodingType_step sound run
            list := fun _ _ _ run => parseList_step sound run
            items := fun _ _ _ _ run => parseItems_step sound run
            dictionary := fun _ _ _ run => parseDictionary_step sound run
            entries := fun _ _ _ _ run => parseEntries_step sound run }

end Parser
end BittorrentClient.Bencode
