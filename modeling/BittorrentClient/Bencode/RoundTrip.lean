import BittorrentClient.Bencode.Encoder
import BittorrentClient.Bencode.Grammar

namespace BittorrentClient.Bencode
open Cpp

theorem spellsString_string (s : Bytes) : SpellsString (string s) s := by
  have shape : string s = toStringUnsigned s.length ++ 58 :: s := by
    simp only [string, List.append_assoc]
    rfl
  rw [shape]
  exact .intro (toStringUnsigned_ne_nil _) (toStringUnsigned_isdigit _) (digitsValue_toStringUnsigned _)

theorem toStringSigned_characters (v : Int) : ∀ c ∈ toStringSigned v, isdigit c = true ∨ c = 45 := by
  intro c member
  unfold toStringSigned at member
  split at member
  · rcases List.mem_cons.mp member with rfl | digit
    · exact Or.inr rfl
    · exact Or.inl (toStringUnsigned_isdigit _ c digit)
  · exact Or.inl (toStringUnsigned_isdigit _ c member)

theorem spells_integer (v : Int64) : Spells (integer v) (.integer v) := by
  have shape : integer v = 105 :: (toStringSigned v.toInt ++ [101]) := by
    simp only [integer, List.append_assoc]
    rfl
  rw [shape]
  exact .integer (toStringSigned_characters _) (stoll_toStringSigned v)

theorem spells_string (s : Bytes) : Spells (string s) (.string s) := .string (spellsString_string s)

theorem spells_list {items : List Bytes} {content : List BType} (spelled : List.Forall₂ Spells items content) :
    Spells (list items) (.list content) := by
  have zipped : ∃ parts : List (Bytes × BType), (∀ part ∈ parts, Spells part.1 part.2) ∧
      items = parts.map Prod.fst ∧ content = parts.map Prod.snd := by
    induction spelled with
    | nil => exact ⟨[], by simp, rfl, rfl⟩
    | @cons item value items content first _ ih =>
      obtain ⟨parts, all, rfl, rfl⟩ := ih
      exact ⟨(item, value) :: parts, List.forall_mem_cons.mpr ⟨first, all⟩, rfl, rfl⟩
  obtain ⟨parts, all, rfl, rfl⟩ := zipped
  rw [list_eq]
  exact .list all

/-- Entries that come in ascending key order, above every key already stored,
are each appended. -/
theorem assignEntries_of_ascend {content : List (Bytes × BType)} {parts : List SpelledEntry}
    (ascend : KeysAscend (content ++ parts.map (fun part => (part.key, part.value)))) :
    assignEntries content parts = content ++ parts.map (fun part => (part.key, part.value)) := by
  induction parts generalizing content with
  | nil => simp [assignEntries]
  | cons part parts ih =>
    have above : ∀ stored ∈ content, stored.1 < part.key := by
      intro stored member
      simp only [KeysAscend, List.map_append, List.map_cons, List.pairwise_append] at ascend
      exact ascend.2.2 _ (List.mem_map_of_mem member) _ (List.mem_cons_self ..)
    have ascend' : KeysAscend (content ++ [(part.key, part.value)] ++
        parts.map (fun part => (part.key, part.value))) := by
      rwa [List.append_assoc, List.singleton_append]
    have later := ih ascend'
    rw [List.append_assoc, List.singleton_append] at later
    rw [assignEntries, List.foldl_cons, mapAssign_of_above part.value above]
    exact later

/-- One entry of the dictionary encoder: the raw key and a text of the value. -/
def EntrySpelled (entry : Bytes × Bytes) (stored : Bytes × BType) : Prop :=
  entry.1 = stored.1 ∧ Spells entry.2 stored.2

theorem entrySpelled {key front : Bytes} {value : BType} (spelled : Spells front value) :
    EntrySpelled (key, front) (key, value) := ⟨rfl, spelled⟩

theorem spelledEntries {entries : List (Bytes × Bytes)} {content : List (Bytes × BType)}
    (spelled : List.Forall₂ EntrySpelled entries content) :
    ∃ parts : List SpelledEntry, (∀ part ∈ parts, SpellsString part.keyText part.key) ∧
      (∀ part ∈ parts, Spells part.valueText part.value) ∧
      entries.map (fun entry => string entry.1 ++ entry.2) = parts.map (fun part => part.keyText ++ part.valueText) ∧
      content = parts.map (fun part => (part.key, part.value)) := by
  induction spelled with
  | nil => exact ⟨[], by simp, by simp, rfl, rfl⟩
  | @cons entry stored entries content first _ ih =>
    obtain ⟨parts, keys, values, texts, rfl⟩ := ih
    obtain ⟨key, value⟩ := stored
    obtain ⟨rfl, valueSpelled⟩ := first
    refine ⟨⟨string entry.1, entry.1, entry.2, value⟩ :: parts, ?_, ?_, ?_, rfl⟩
    · exact List.forall_mem_cons.mpr ⟨spellsString_string entry.1, keys⟩
    · exact List.forall_mem_cons.mpr ⟨valueSpelled, values⟩
    · rw [List.map_cons, texts, List.map_cons]

/-- The dictionary encoder on values that are encoded already. -/
theorem spells_dict {entries : List (Bytes × Bytes)} {content : List (Bytes × BType)}
    (spelled : List.Forall₂ EntrySpelled entries content) (ascend : KeysAscend content) : Spells (dict entries) (.dict content) := by
  obtain ⟨parts, keys, values, texts, rfl⟩ := spelledEntries spelled
  have spelling := Spells.dict keys values
  rw [assignEntries_of_ascend (by rwa [List.nil_append]), List.nil_append] at spelling
  rw [dict_eq, texts]
  exact spelling

theorem encodeItems_eq (content : List BType) : encodeItems content = content.map encode := by
  induction content with
  | nil => rfl
  | cons item rest ih => rw [encodeItems, ih, List.map_cons]

theorem encodeEntries_eq (content : List (Bytes × BType)) :
    encodeEntries content = content.map (fun entry => (entry.1, encode entry.2)) := by
  induction content with
  | nil => rfl
  | cons entry rest ih => rw [encodeEntries, ih, List.map_cons]

/-- Every encoding is a text of the value it encodes. -/
theorem spells_encode {t : BType} (wellFormed : t.WellFormed) : Spells (encode t) t := by
  induction wellFormed with
  | integer v => exact spells_integer v
  | string s => exact spells_string s
  | @list content _ ih =>
    rw [encode, encodeItems_eq]
    exact spells_list (List.forall₂_map_left_iff.mpr (List.forall₂_same.mpr ih))
  | @dict content ascend _ ih =>
    rw [encode, encodeEntries_eq]
    refine spells_dict (List.forall₂_map_left_iff.mpr (List.forall₂_same.mpr fun entry member => ?_)) ascend
    exact entrySpelled (ih entry member)

namespace Parser

/-- Decoding undoes encoding over the whole format, at any position of any
buffer: `lead` is what the parser has already passed, `rest` what follows. -/
theorem parseValue_encode (t : BTree) (metadata : Metadata) (lead rest : Bytes)
    (holds : metadata.bytes = lead ++ (encode t.root ++ rest)) :
    parseValue metadata lead.length = .ok (t.root, lead.length + (encode t.root).length) := by
  have located : metadata.bytes.drop lead.length = encode t.root ++ rest := by
    rw [holds, List.drop_left]
  have bound : (encode t.root).length ≤ metadata.bytes.length := by
    simp only [holds, List.length_append]
    omega
  exact readsBack_of_spells (spells_encode t.wellFormed) metadata.bytes rest _ _ metadata.size_lt located (by omega)

/-- A dictionary with the key `e` and a nested list, between two foreign bytes. -/
theorem parseValue_encode_nested :
    parseValue ⟨text ['x', 'd', '1', ':', 'e', 'l', 'i', '-', '7', 'e', '1', ':', 'e', 'e', 'e', 'z'], by decide⟩ 1 =
      .ok (.dict [([101], .list [.integer (-7), .string [101]])], 15) :=
  parseValue_encode
    ⟨.dict [([101], .list [.integer (-7), .string [101]])], .dict (by simp [KeysAscend])
      (by simpa using .list (by simpa using ⟨.integer _, .string _⟩))⟩
    ⟨text ['x', 'd', '1', ':', 'e', 'l', 'i', '-', '7', 'e', '1', ':', 'e', 'e', 'e', 'z'], by decide⟩
    (text ['x']) (text ['z']) (by decide)

end Parser

end BittorrentClient.Bencode
