import BittorrentClient.Bencode.Bounds
import BittorrentClient.Library.Splice

namespace BittorrentClient.Bencode.Parser
open Cpp

/-- What a call does before it returns or throws: the ranges it asks the string
constructor for, as first byte and length, and the most lists and dictionaries
that are open at once. -/
structure Trace where
  copies : List (Nat × Nat)
  depth : Nat

namespace Trace

def nothing : Trace := ⟨[], 0⟩

def andThen (first later : Trace) : Trace := ⟨first.copies ++ later.copies, max first.depth later.depth⟩

def nested (inner : Trace) : Trace := ⟨inner.copies, inner.depth + 1⟩

/-- What comes behind a call, if that call returns. -/
def after {α : Type} (outcome : Except ParseError α) (later : α → Trace) : Trace :=
  match outcome with
  | .ok value => later value
  | .error _ => nothing

@[simp] theorem after_ok {α : Type} (value : α) (later : α → Trace) :
    after (.ok value : Except ParseError α) later = later value := rfl

end Trace

/-- `parse_byte_string`. -/
def stringTrace (metadata : Bytes) (pos : Nat) : Trace :=
  .after (copyRequest metadata pos) fun copy => ⟨[copy], 0⟩

mutual
/-- `parse_bencoding_type`. -/
def typeTrace (metadata : Bytes) : Nat → Nat → Trace
  | 0, _ => .nothing
  | fuel + 1, pos => .after (peek metadata pos) fun nextChar =>
    if nextChar = 105 then .nothing
    else if nextChar = 108 then listTrace metadata fuel pos
    else if nextChar = 100 then dictionaryTrace metadata fuel pos
    else if isdigit nextChar then stringTrace metadata pos
    else .nothing

/-- `parse_list`. -/
def listTrace (metadata : Bytes) : Nat → Nat → Trace
  | 0, _ => .nothing
  | fuel + 1, pos => .after (get metadata pos) fun got =>
    if got.1 ≠ 108 then .nothing else (itemsTrace metadata fuel got.2).nested

def itemsTrace (metadata : Bytes) : Nat → Nat → Trace
  | 0, _ => .nothing
  | fuel + 1, pos => .after (peek metadata pos) fun next =>
    if next = 101 then .nothing
    else (typeTrace metadata fuel pos).andThen
      (.after (parseBencodingType metadata fuel pos) fun item => itemsTrace metadata fuel item.2)

/-- `parse_dictionary`. -/
def dictionaryTrace (metadata : Bytes) : Nat → Nat → Trace
  | 0, _ => .nothing
  | fuel + 1, pos => .after (get metadata pos) fun got =>
    if got.1 ≠ 100 then .nothing else (entriesTrace metadata fuel got.2).nested

def entriesTrace (metadata : Bytes) : Nat → Nat → Trace
  | 0, _ => .nothing
  | fuel + 1, pos => .after (peek metadata pos) fun next =>
    if next = 101 then .nothing
    else (stringTrace metadata pos).andThen (.after (parseByteString metadata pos) fun key =>
      (typeTrace metadata fuel key.2).andThen
        (.after (parseBencodingType metadata fuel key.2) fun value => entriesTrace metadata fuel value.2))
end

/-- What the parser is about to read: a value, or what a list or a dictionary
still holds. -/
inductive Reading
  | value
  | items
  | entries

def Reading.trace (metadata : Bytes) : Reading → Nat → Nat → Trace
  | .value => typeTrace metadata
  | .items => itemsTrace metadata
  | .entries => entriesTrace metadata

/-- The texts that can stand between a place where the parser reads on and a
place inside, at which a value or a key starts, with the number of lists and
dictionaries that they leave open. -/
inductive Opens : Reading → Nat → Bytes → Prop
  | here : Opens .value 0 []
  | list {depth : Nat} {front : Bytes} : Opens .items depth front → Opens .value (depth + 1) (108 :: front)
  | dict {depth : Nat} {front : Bytes} : Opens .entries depth front → Opens .value (depth + 1) (100 :: front)
  | item {depth : Nat} {front : Bytes} : Opens .value depth front → Opens .items depth front
  | pastItem {depth : Nat} {passed front : Bytes} {value : BType} : Spells passed value →
      Opens .items depth front → Opens .items depth (passed ++ front)
  | key : Opens .entries 0 []
  | keyed {depth : Nat} {keyText key front : Bytes} : SpellsString keyText key →
      Opens .value depth front → Opens .entries depth (keyText ++ front)
  | pastEntry {depth : Nat} {keyText key valueText front : Bytes} {value : BType} : SpellsString keyText key →
      Spells valueText value → Opens .entries depth front → Opens .entries depth (keyText ++ (valueText ++ front))

theorem Opens.start (reading : Reading) : Opens reading 0 [] := by
  cases reading with
  | value => exact .here
  | items => exact .item .here
  | entries => exact .key

section Sound

/-- Each copy is asked for where a text of the grammar ends, and one such text
leaves open what the call has open at its deepest. -/
structure Within (metadata : Bytes) (reading : Reading) (pos : Nat) (trace : Trace) : Prop where
  copied : ∀ copy ∈ trace.copies, ∃ depth front, Opens reading depth front ∧ front <+: metadata.drop pos ∧
    copyRequest metadata (pos + front.length) = .ok copy
  deep : ∃ depth front, trace.depth ≤ depth ∧ Opens reading depth front ∧ front <+: metadata.drop pos

namespace Within
variable {metadata : Bytes} {reading inner : Reading} {pos : Nat}

theorem nothing : Within metadata reading pos .nothing :=
  ⟨by simp [Trace.nothing], 0, [], Nat.le_refl _, .start reading, List.nil_prefix⟩

theorem andThen {first later : Trace} (here : Within metadata reading pos first)
    (behind : Within metadata reading pos later) : Within metadata reading pos (first.andThen later) := by
  refine ⟨fun copy member => ?_, ?_⟩
  · rcases List.mem_append.mp member with member | member
    · exact here.copied copy member
    · exact behind.copied copy member
  · rcases Nat.le_total first.depth later.depth with deeper | deeper
    · obtain ⟨depth, front, bound, opened⟩ := behind.deep
      exact ⟨depth, front, (max_eq_right deeper).trans_le bound, opened⟩
    · obtain ⟨depth, front, bound, opened⟩ := here.deep
      exact ⟨depth, front, (max_eq_left deeper).trans_le bound, opened⟩

theorem after {α : Type} {outcome : Except ParseError α} {later : α → Trace}
    (returned : ∀ value, outcome = .ok value → Within metadata reading pos (later value)) :
    Within metadata reading pos (.after outcome later) := by
  cases outcome with
  | error error => exact nothing
  | ok value => exact returned value rfl

/-- A call behind a text that was read and may have opened more levels: every
text inside it grows by that one. -/
theorem beyond {passed : Bytes} {next : Nat} {trace : Trace} (levels : Nat) (within : Within metadata inner next trace)
    (read : Passes metadata pos passed next)
    (grow : ∀ depth front, Opens inner depth front → Opens reading (depth + levels) (passed ++ front)) :
    Within metadata reading pos ⟨trace.copies, trace.depth + levels⟩ := by
  obtain ⟨⟨rest, located⟩, rfl⟩ := read
  have extended : ∀ front, front <+: metadata.drop (pos + passed.length) → passed ++ front <+: metadata.drop pos := by
    rintro front ⟨tail, same⟩
    rw [drop_add_of_append passed located.symm] at same
    exact ⟨tail, by rw [List.append_assoc, same, located]⟩
  refine ⟨fun copy member => ?_, ?_⟩
  · obtain ⟨depth, front, opened, stands, asked⟩ := within.copied copy member
    refine ⟨depth + levels, passed ++ front, grow depth front opened, extended front stands, ?_⟩
    rwa [List.length_append, ← Nat.add_assoc]
  · obtain ⟨depth, front, bound, opened, stands⟩ := within.deep
    exact ⟨depth + levels, passed ++ front, Nat.add_le_add_right bound levels, grow depth front opened,
      extended front stands⟩

theorem behind {passed : Bytes} {next : Nat} {trace : Trace} (within : Within metadata inner next trace)
    (read : Passes metadata pos passed next)
    (grow : ∀ depth front, Opens inner depth front → Opens reading depth (passed ++ front)) :
    Within metadata reading pos trace := within.beyond 0 read grow

theorem nested {tag : UInt8} {next : Nat} {trace : Trace} (within : Within metadata inner next trace)
    (got : get metadata pos = .ok (tag, next))
    (wrap : ∀ depth front, Opens inner depth front → Opens reading (depth + 1) (tag :: front)) :
    Within metadata reading pos trace.nested := within.beyond 1 (get_passes got) wrap

end Within

theorem within_stringTrace (metadata : Bytes) {reading : Reading} (pos : Nat) :
    Within metadata reading pos (stringTrace metadata pos) := by
  refine .after fun copy asked => ⟨fun other member => ?_, 0, [], Nat.le_refl _, .start reading, List.nil_prefix⟩
  obtain rfl := List.mem_singleton.mp member
  exact ⟨0, [], .start reading, List.nil_prefix, asked⟩

/-- The same for the entry points and the two loops, at one bound of the recursion. -/
structure TracesWithin (metadata : Bytes) (fuel : Nat) : Prop where
  bencodingType : ∀ pos, Within metadata .value pos (typeTrace metadata fuel pos)
  list : ∀ pos, Within metadata .value pos (listTrace metadata fuel pos)
  items : ∀ pos, Within metadata .items pos (itemsTrace metadata fuel pos)
  dictionary : ∀ pos, Within metadata .value pos (dictionaryTrace metadata fuel pos)
  entries : ∀ pos, Within metadata .entries pos (entriesTrace metadata fuel pos)

namespace TracesWithin
variable {metadata : Bytes} {fuel : Nat}

theorem typeStep (traces : TracesWithin metadata fuel) (pos : Nat) :
    Within metadata .value pos (typeTrace metadata (fuel + 1) pos) := by
  simp only [typeTrace]
  refine .after fun nextChar _ => ?_
  split
  · exact .nothing
  split
  · exact traces.list pos
  split
  · exact traces.dictionary pos
  split
  · exact within_stringTrace metadata pos
  · exact .nothing

theorem listStep (traces : TracesWithin metadata fuel) (pos : Nat) :
    Within metadata .value pos (listTrace metadata (fuel + 1) pos) := by
  simp only [listTrace]
  refine .after ?_
  rintro ⟨first, start⟩ got
  split
  · exact .nothing
  · rename_i isTag
    obtain rfl : first = 108 := by simpa using isTag
    exact (traces.items start).nested got fun _ _ => .list

theorem itemsStep (traces : TracesWithin metadata fuel) (pos : Nat) :
    Within metadata .items pos (itemsTrace metadata (fuel + 1) pos) := by
  simp only [itemsTrace]
  refine .after fun next _ => ?_
  split
  · exact .nothing
  · have first := (traces.bencodingType pos).behind (Passes.nil metadata pos) fun _ _ => Opens.item
    refine first.andThen (.after ?_)
    rintro ⟨item, middle⟩ read
    obtain ⟨front, passed, spelled⟩ := (sound_of_fuel metadata fuel).bencodingType _ _ _ read
    exact (traces.items middle).behind passed fun _ _ => .pastItem spelled

theorem dictionaryStep (traces : TracesWithin metadata fuel) (pos : Nat) :
    Within metadata .value pos (dictionaryTrace metadata (fuel + 1) pos) := by
  simp only [dictionaryTrace]
  refine .after ?_
  rintro ⟨first, start⟩ got
  split
  · exact .nothing
  · rename_i isTag
    obtain rfl : first = 100 := by simpa using isTag
    exact (traces.entries start).nested got fun _ _ => .dict

/-- One round of the loop over a dictionary. -/
theorem entry {pos : Nat} {later : Nat → Trace} (values : ∀ pos, Within metadata .value pos (typeTrace metadata fuel pos))
    (entries : ∀ pos, Within metadata .entries pos (later pos)) :
    Within metadata .entries pos ((stringTrace metadata pos).andThen (.after (parseByteString metadata pos) fun key =>
      (typeTrace metadata fuel key.2).andThen
        (.after (parseBencodingType metadata fuel key.2) fun value => later value.2))) := by
  refine (within_stringTrace metadata pos).andThen (.after ?_)
  rintro ⟨key, start⟩ keyRead
  obtain ⟨keyText, keyPassed, keySpelled⟩ := parseByteString_sound keyRead
  refine ((values start).behind keyPassed fun _ _ => .keyed keySpelled).andThen (.after ?_)
  rintro ⟨value, stop⟩ valueRead
  obtain ⟨valueText, valuePassed, valueSpelled⟩ := (sound_of_fuel metadata fuel).bencodingType _ _ _ valueRead
  refine (entries stop).behind (keyPassed.append valuePassed) fun depth front opened => ?_
  rw [List.append_assoc]
  exact .pastEntry keySpelled valueSpelled opened

theorem entriesStep (traces : TracesWithin metadata fuel) (pos : Nat) :
    Within metadata .entries pos (entriesTrace metadata (fuel + 1) pos) := by
  simp only [entriesTrace]
  refine .after fun next _ => ?_
  split
  · exact .nothing
  · exact entry traces.bencodingType traces.entries

end TracesWithin

theorem tracesWithin_of_fuel (metadata : Bytes) (fuel : Nat) : TracesWithin metadata fuel := by
  induction fuel with
  | zero =>
    exact { bencodingType := fun _ => by simpa only [typeTrace] using .nothing
            list := fun _ => by simpa only [listTrace] using .nothing
            items := fun _ => by simpa only [itemsTrace] using .nothing
            dictionary := fun _ => by simpa only [dictionaryTrace] using .nothing
            entries := fun _ => by simpa only [entriesTrace] using .nothing }
  | succ fuel traces =>
    exact { bencodingType := traces.typeStep
            list := traces.listStep
            items := traces.itemsStep
            dictionary := traces.dictionaryStep
            entries := traces.entriesStep }

end Sound

section Complete

/-- The trace shows what happens at a place inside: the lists and dictionaries
open there, and the copy asked for there. -/
structure Trace.Shows (trace : Trace) (metadata : Bytes) (depth pos : Nat) : Prop where
  deep : depth ≤ trace.depth
  copied : ∀ copy, copyRequest metadata pos = .ok copy → copy ∈ trace.copies

namespace Trace.Shows
variable {trace first later : Trace} {metadata : Bytes} {depth pos : Nat}

theorem nested (seen : trace.Shows metadata depth pos) : trace.nested.Shows metadata (depth + 1) pos :=
  ⟨Nat.succ_le_succ seen.deep, seen.copied⟩

theorem left (seen : first.Shows metadata depth pos) : (first.andThen later).Shows metadata depth pos :=
  ⟨seen.deep.trans (le_max_left _ _), fun copy asked => List.mem_append_left _ (seen.copied copy asked)⟩

theorem right (seen : later.Shows metadata depth pos) : (first.andThen later).Shows metadata depth pos :=
  ⟨seen.deep.trans (le_max_right _ _), fun copy asked => List.mem_append_right _ (seen.copied copy asked)⟩

end Trace.Shows

theorem stringTrace_shows (metadata : Bytes) (pos : Nat) : (stringTrace metadata pos).Shows metadata 0 pos := by
  refine ⟨Nat.zero_le _, fun copy asked => ?_⟩
  rw [stringTrace, asked, Trace.after_ok]
  exact List.mem_singleton_self copy

/-- A string can be asked for only where a digit stands. -/
theorem digit_of_copyRequest {metadata : Bytes} {pos : Nat} {copy : Nat × Nat}
    (asked : copyRequest metadata pos = .ok copy) : ∃ c, peek metadata pos = .ok c ∧ isdigit c = true := by
  obtain ⟨first, length⟩ := copy
  obtain ⟨digits, rest, nonempty, all, located, _⟩ := copyRequest_sound asked
  obtain ⟨c, tail, rfl⟩ := List.exists_cons_of_ne_nil nonempty
  exact ⟨c, peek_of_drop located, all c (List.mem_cons_self ..)⟩

/-- Where nothing can be shown the byte that comes next does not matter; a value
with a list, a dictionary or a copy in it does not start with the closing byte. -/
theorem Opens.peeked {metadata front : Bytes} {depth pos : Nat} (opened : Opens .value depth front)
    (stands : front <+: metadata.drop pos) :
    (∀ trace : Trace, trace.Shows metadata depth (pos + front.length)) ∨
      ∃ c, peek metadata pos = .ok c ∧ c ≠ 101 := by
  obtain ⟨rest, located⟩ := stands
  cases opened with
  | here =>
    by_cases asks : ∃ copy, copyRequest metadata pos = .ok copy
    · obtain ⟨copy, asked⟩ := asks
      obtain ⟨c, peeked, digit⟩ := digit_of_copyRequest asked
      exact Or.inr ⟨c, peeked, (isdigit_ne_tags digit).2.1⟩
    · exact Or.inl fun trace => ⟨Nat.zero_le _, fun copy asked => absurd ⟨copy, asked⟩ asks⟩
  | list => exact Or.inr ⟨108, peek_of_drop located.symm, by decide⟩
  | dict => exact Or.inr ⟨100, peek_of_drop located.symm, by decide⟩

/-- The levels of recursion that are enough besides three for every byte left. -/
def Reading.levels : Reading → Nat
  | .value => 3
  | .items => 4
  | .entries => 4

/-- Wherever the text stands, the trace shows the place behind it, if the fuel is enough. -/
def Shown (metadata : Bytes) (reading : Reading) (depth : Nat) (front : Bytes) : Prop :=
  ∀ pos fuel, front <+: metadata.drop pos → 3 * (metadata.length - pos) + reading.levels ≤ fuel →
    (reading.trace metadata fuel pos).Shows metadata depth (pos + front.length)

namespace Shown
variable {metadata front : Bytes} {depth : Nat}

theorem here : Shown metadata .value 0 [] := by
  intro pos fuel _ enough
  simp only [Reading.levels] at enough
  obtain ⟨fuel, rfl⟩ := Nat.exists_eq_add_of_le' (show 1 ≤ fuel by omega)
  refine ⟨Nat.zero_le _, fun copy asked => ?_⟩
  replace asked : copyRequest metadata pos = .ok copy := asked
  obtain ⟨c, peeked, digit⟩ := digit_of_copyRequest asked
  obtain ⟨_, _, notInteger, notList, notDict⟩ := isdigit_ne_tags digit
  simp only [Reading.trace, typeTrace, peeked, Trace.after_ok, if_neg notInteger, if_neg notList, if_neg notDict,
    if_pos digit]
  exact (stringTrace_shows metadata pos).copied copy asked

/-- Behind the tag of a list or a dictionary one more of them is open. -/
theorem tagged {inner : Reading} {tag : UInt8} (levels : inner.levels = 4)
    (nests : ∀ pos fuel, peek metadata pos = .ok tag → get metadata pos = .ok (tag, pos + 1) →
      Reading.value.trace metadata (fuel + 2) pos = (inner.trace metadata fuel (pos + 1)).nested)
    (shown : Shown metadata inner depth front) : Shown metadata .value (depth + 1) (tag :: front) := by
  rintro pos fuel ⟨rest, located⟩ enough
  have inside := @length_of_drop _ [tag] _ _ located.symm (by simp)
  simp only [Reading.levels, List.length_singleton] at enough inside
  obtain ⟨fuel, rfl⟩ := Nat.exists_eq_add_of_le' (show 2 ≤ fuel by omega)
  have within := shown (pos + 1) fuel ⟨rest, (drop_add_of_append [tag] located.symm).symm⟩ (by omega)
  rw [nests pos fuel (peek_of_drop located.symm) (get_of_drop located.symm), List.length_cons,
    Nat.add_comm front.length, ← Nat.add_assoc]
  exact within.nested

theorem list (shown : Shown metadata .items depth front) : Shown metadata .value (depth + 1) (108 :: front) := by
  refine shown.tagged rfl fun pos fuel peeked got => ?_
  simp only [Reading.trace, typeTrace, listTrace, peeked, got, Trace.after_ok]
  rfl

theorem dict (shown : Shown metadata .entries depth front) : Shown metadata .value (depth + 1) (100 :: front) := by
  refine shown.tagged rfl fun pos fuel peeked got => ?_
  simp only [Reading.trace, typeTrace, dictionaryTrace, peeked, got, Trace.after_ok]
  rfl

theorem item (opened : Opens .value depth front) (shown : Shown metadata .value depth front) :
    Shown metadata .items depth front := by
  intro pos fuel stands enough
  rcases opened.peeked stands with anything | ⟨c, peeked, notEnd⟩
  · exact anything _
  simp only [Reading.levels] at enough
  obtain ⟨fuel, rfl⟩ := Nat.exists_eq_add_of_le' (show 1 ≤ fuel by omega)
  simp only [Reading.trace, itemsTrace, peeked, Trace.after_ok, if_neg notEnd]
  exact (shown pos fuel stands (by simp only [Reading.levels]; omega)).left

theorem pastItem (size : metadata.length < 2 ^ 64) {passed : Bytes} {value : BType} (spelled : Spells passed value)
    (shown : Shown metadata .items depth front) : Shown metadata .items depth (passed ++ front) := by
  rintro pos fuel ⟨rest, located⟩ enough
  rw [List.append_assoc] at located
  have inside := length_of_drop located.symm (List.ne_nil_of_length_pos spelled.length_pos)
  have positive := spelled.length_pos
  obtain ⟨c, tail, shape, notEnd⟩ := spelled.head
  have peeked : peek metadata pos = .ok c := peek_of_drop (by rw [← located, shape, List.cons_append])
  simp only [Reading.levels] at enough
  obtain ⟨fuel, rfl⟩ := Nat.exists_eq_add_of_le' (show 1 ≤ fuel by omega)
  have read := readsBack_of_spells spelled metadata _ pos fuel size located.symm (by omega)
  have later := shown (pos + passed.length) fuel ⟨rest, (drop_add_of_append passed located.symm).symm⟩
    (by simp only [Reading.levels]; omega)
  simp only [Reading.trace, itemsTrace, peeked, Trace.after_ok, if_neg notEnd, read]
  rw [List.length_append, ← Nat.add_assoc]
  exact later.right

theorem key : Shown metadata .entries 0 [] := by
  intro pos fuel _ enough
  simp only [Reading.levels] at enough
  obtain ⟨fuel, rfl⟩ := Nat.exists_eq_add_of_le' (show 1 ≤ fuel by omega)
  refine ⟨Nat.zero_le _, fun copy asked => ?_⟩
  replace asked : copyRequest metadata pos = .ok copy := asked
  obtain ⟨c, peeked, digit⟩ := digit_of_copyRequest asked
  simp only [Reading.trace, entriesTrace, peeked, Trace.after_ok, if_neg (isdigit_ne_tags digit).2.1]
  exact (stringTrace_shows metadata pos).left.copied copy asked

theorem keyed (size : metadata.length < 2 ^ 64) {keyText key : Bytes} (keySpelled : SpellsString keyText key)
    (shown : Shown metadata .value depth front) : Shown metadata .entries depth (keyText ++ front) := by
  rintro pos fuel ⟨rest, located⟩ enough
  rw [List.append_assoc] at located
  have positive := keySpelled.length_pos
  obtain ⟨c, tail, shape, digit⟩ := keySpelled.head
  have peeked : peek metadata pos = .ok c := peek_of_drop (by rw [← located, shape, List.cons_append])
  simp only [Reading.levels] at enough
  obtain ⟨fuel, rfl⟩ := Nat.exists_eq_add_of_le' (show 1 ≤ fuel by omega)
  have value := shown (pos + keyText.length) fuel ⟨rest, (drop_add_of_append keyText located.symm).symm⟩
    (by simp only [Reading.levels]; omega)
  simp only [Reading.trace, entriesTrace, peeked, Trace.after_ok, if_neg (isdigit_ne_tags digit).2.1,
    parseByteString_of_spells size keySpelled located.symm]
  rw [List.length_append, ← Nat.add_assoc]
  exact value.left.right

theorem pastEntry (size : metadata.length < 2 ^ 64) {keyText key valueText : Bytes} {value : BType}
    (keySpelled : SpellsString keyText key) (valueSpelled : Spells valueText value)
    (shown : Shown metadata .entries depth front) : Shown metadata .entries depth (keyText ++ (valueText ++ front)) := by
  rintro pos fuel ⟨rest, located⟩ enough
  simp only [List.append_assoc] at located
  have atValue := drop_add_of_append keyText located.symm
  have inside := length_of_drop atValue (List.ne_nil_of_length_pos valueSpelled.length_pos)
  have positive := keySpelled.length_pos
  obtain ⟨c, tail, shape, digit⟩ := keySpelled.head
  have peeked : peek metadata pos = .ok c := peek_of_drop (by rw [← located, shape, List.cons_append])
  simp only [Reading.levels] at enough
  obtain ⟨fuel, rfl⟩ := Nat.exists_eq_add_of_le' (show 1 ≤ fuel by omega)
  have read := readsBack_of_spells valueSpelled metadata _ (pos + keyText.length) fuel size atValue (by omega)
  have later := shown (pos + keyText.length + valueText.length) fuel
    ⟨rest, (drop_add_of_append valueText atValue).symm⟩ (by simp only [Reading.levels]; omega)
  simp only [Reading.trace, entriesTrace, peeked, Trace.after_ok, if_neg (isdigit_ne_tags digit).2.1,
    parseByteString_of_spells size keySpelled located.symm, read]
  rw [List.length_append, List.length_append, ← Nat.add_assoc, ← Nat.add_assoc]
  exact later.right.right

end Shown

/-- Every place inside is come to: the texts of the grammar are exactly what the
calls read on their way. -/
theorem Opens.shown {metadata front : Bytes} {reading : Reading} {depth : Nat} (size : metadata.length < 2 ^ 64)
    (opened : Opens reading depth front) : Shown metadata reading depth front := by
  induction opened with
  | here => exact .here
  | list _ ih => exact ih.list
  | dict _ ih => exact ih.dict
  | item opened ih => exact ih.item opened
  | pastItem spelled _ ih => exact ih.pastItem size spelled
  | key => exact .key
  | keyed keySpelled _ ih => exact ih.keyed size keySpelled
  | pastEntry keySpelled valueSpelled _ ih => exact ih.pastEntry size keySpelled valueSpelled

end Complete

end BittorrentClient.Bencode.Parser
