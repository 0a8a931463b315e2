import BittorrentClient.Dht.RoutingTableStore

namespace BittorrentClient.Dht
open Cpp

namespace RoutingTableStore

section Lines

theorem hexBytes_flatMap (bytes : Bytes) : hexBytes bytes.length (bytes.flatMap hexByte) = .ok bytes := by
  induction bytes with
  | nil => rfl
  | cons byte rest ih =>
    have first : ((byte :: rest).flatMap hexByte).take 2 = hexByte byte := rfl
    have later : ((byte :: rest).flatMap hexByte).drop 2 = rest.flatMap hexByte := rfl
    rw [List.length_cons, hexBytes, first, later, stoulHex_hexByte, ih]
    simp only [bind, Except.bind, pure, Except.pure, UInt8.ofNat_toNat]

theorem length_hex (id : NodeId) : id.hex.length = 40 := by
  have pairs : ∀ bytes : Bytes, (bytes.flatMap hexByte).length = 2 * bytes.length := by
    intro bytes
    induction bytes with
    | nil => rfl
    | cons byte rest ih =>
      have two : (hexByte byte).length = 2 := rfl
      rw [List.flatMap_cons, List.length_append, ih, two, List.length_cons]
      omega
  rw [NodeId.hex, pairs, id.length_eq]

theorem nodeIdFromHex_hex (id : NodeId) : nodeIdFromHex id.hex = .ok (some id) := by
  have read := hexBytes_flatMap id.bytes
  rw [id.length_eq] at read
  have same : NodeId.fromString id.bytes = id := dif_pos id.length_eq
  rw [nodeIdFromHex, if_neg (not_not_intro (length_hex id)), NodeId.hex, read]
  simp only [bind, Except.bind, pure, Except.pure, same]

theorem hex_solid (id : NodeId) : ∀ c ∈ id.hex, isspace c = false := by
  intro c member
  obtain ⟨byte, _, digit⟩ := List.mem_flatMap.mp member
  exact hexByte_solid byte c digit

/-- The text of an address that survives a file of blank-separated fields. -/
def Solid (ip : Bytes) : Prop := ip ≠ [] ∧ ∀ c ∈ ip, isspace c = false

theorem parseEntryLine_entryLine {entry : RoutingEntry} (solid : Solid entry.pa.ip) :
    parseEntryLine (entryLine entry) = .ok (some ⟨entry.toNode, 0⟩) := by
  have marked : entryMark.isPrefixOf (entryLine entry) = true := by
    rw [List.isPrefixOf_iff_prefix, entryLine, List.append_assoc]
    exact List.prefix_append _ _
  have fields : (entryLine entry).drop 6 =
      entry.id.hex ++ 32 :: (entry.pa.ip ++ 32 :: toStringUnsigned entry.pa.port.toNat) := rfl
  have hexNonempty : entry.id.hex ≠ [] := by
    intro empty
    have length := length_hex entry.id
    rw [empty] at length
    cases length
  rw [parseEntryLine, marked, fields, extractWord_word hexNonempty (hex_solid entry.id)]
  simp only [Bool.not_true, Bool.false_eq_true, if_false, extractWord_blank, extractWord_word solid.1 solid.2,
    extractU16_digits, nodeIdFromHex_hex, bind, Except.bind, pure, Except.pure, Option.map_some]

theorem entryLine_whole {entry : RoutingEntry} (solid : Solid entry.pa.ip) : 10 ∉ entryLine entry := by
  have newline : isspace 10 = true := by decide
  have number : ∀ c ∈ toStringUnsigned entry.pa.port.toNat, isspace c = false :=
    fun c member => isspace_of_isdigit (toStringUnsigned_isdigit _ c member)
  intro member
  simp only [entryLine, List.mem_append, List.mem_cons] at member
  rcases member with (mark | hex) | blank | ip | blank | port
  · exact absurd mark (by decide)
  · exact absurd (hex_solid _ _ hex) (by rw [newline]; decide)
  · exact absurd blank (by decide)
  · exact absurd (solid.2 _ ip) (by rw [newline]; decide)
  · exact absurd blank (by decide)
  · exact absurd (number _ port) (by rw [newline]; decide)

end Lines

section File
variable {entries : List RoutingEntry}

theorem lines_flatMap {content : List Bytes} (whole : ∀ line ∈ content, 10 ∉ line) :
    lines (content.flatMap (· ++ [10])) = content := by
  induction content with
  | nil => rfl
  | cons line rest ih =>
    have later := ih fun other member => whole other (List.mem_cons_of_mem line member)
    rw [List.flatMap_cons, List.append_assoc, List.singleton_append, lines_newline (whole line List.mem_cons_self),
      later]

theorem savedLines_whole (solid : ∀ entry ∈ entries, Solid entry.pa.ip) (selfId : NodeId) :
    ∀ line ∈ savedLines entries selfId, 10 ∉ line := by
  intro line member
  simp only [savedLines, List.mem_cons, List.mem_map] at member
  rcases member with rfl | rfl | rfl | ⟨entry, stored, rfl⟩
  · decide
  · decide
  · intro newline
    rcases List.mem_append.mp newline with mark | digit
    · exact absurd mark (by decide)
    · exact absurd (hex_solid selfId 10 digit) (by decide)
  · exact entryLine_whole (solid entry stored)

theorem loadLines_entryLine {entry : RoutingEntry} (solid : Solid entry.pa.ip) (rest : List Bytes)
    (snapshot : RoutingTableSnapshot) :
    loadLines (entryLine entry :: rest) snapshot =
      loadLines rest { snapshot with entries := snapshot.entries ++ [⟨entry.toNode, 0⟩] } := by
  have remark : ¬((entryLine entry).isEmpty = true ∨ (entryLine entry).head? = some 35) := by
    rintro (empty | mark)
    · cases empty
    · exact absurd (Option.some.inj mark) (by decide)
  have version : versionMark.isPrefixOf (entryLine entry) = false := rfl
  have selfId : selfIdMark.isPrefixOf (entryLine entry) = false := rfl
  have marked : entryMark.isPrefixOf (entryLine entry) = true := rfl
  rw [loadLines, if_neg remark, version, selfId, marked, parseEntryLine_entryLine solid]
  rfl

/-- The entry lines are read one by one. -/
theorem loadLines_entries (solid : ∀ entry ∈ entries, Solid entry.pa.ip) (snapshot : RoutingTableSnapshot) :
    loadLines (entries.map entryLine) snapshot =
      loadLines [] { snapshot with entries := snapshot.entries ++ entries.map fun entry => ⟨entry.toNode, 0⟩ } := by
  induction entries generalizing snapshot with
  | nil => rw [List.map_nil, List.map_nil, List.append_nil]
  | cons entry rest ih =>
    have others : ∀ other ∈ rest, Solid other.pa.ip := fun other member => solid other (List.mem_cons_of_mem entry member)
    rw [List.map_cons, List.map_cons, loadLines_entryLine (solid entry List.mem_cons_self), ih others]
    simp only [List.append_assoc, List.singleton_append]

theorem load_savedText (nonempty : entries ≠ []) (solid : ∀ entry ∈ entries, Solid entry.pa.ip) (selfId : NodeId)
    (path : Bytes) : load path (some (savedText entries selfId)) =
      .ok ⟨true, [], ⟨selfId, entries.map fun entry => ⟨entry.toNode, 0⟩⟩⟩ := by
  have split : lines (savedText entries selfId) = savedLines entries selfId :=
    lines_flatMap (savedLines_whole solid selfId)
  have remark : ∀ rest snapshot, loadLines (heading :: rest) snapshot = loadLines rest snapshot := fun _ _ => rfl
  have version : ∀ rest snapshot, loadLines ((versionMark ++ text ['1']) :: rest) snapshot = loadLines rest snapshot :=
    fun _ _ => rfl
  have own : ∀ rest, loadLines ((selfIdMark ++ selfId.hex) :: rest) ⟨.zero, []⟩ = loadLines rest ⟨selfId, []⟩ := by
    intro rest
    have digits : (selfIdMark ++ selfId.hex).drop 8 = selfId.hex := rfl
    have read : loadLines ((selfIdMark ++ selfId.hex) :: rest) ⟨.zero, []⟩ =
        (nodeIdFromHex ((selfIdMark ++ selfId.hex).drop 8) >>= fun id =>
          loadLines rest (id.elim ⟨.zero, []⟩ fun id => ⟨id, []⟩)) := rfl
    rw [read, digits, nodeIdFromHex_hex]
    rfl
  have some : (entries.map fun entry => (⟨entry.toNode, 0⟩ : RoutingEntry)).isEmpty = false := by
    simpa using nonempty
  rw [load, split, savedLines, remark, version, own, loadLines_entries solid, loadLines]
  simp only [List.nil_append, some, Bool.false_eq_true, if_false]

/-- What `save` does when the file takes the whole text. -/
theorem save_whole {io : StoreIo} {table : RoutingTable} {selfId : NodeId} {path : Bytes} (file : Option Bytes)
    (nonempty : table.all ≠ []) (whole : TakesWhole io path (savedText table.all selfId)) :
    save io table selfId path file = ⟨true, [], some (savedText table.all selfId)⟩ := by
  have some : ¬table.all.isEmpty = true := by simpa using nonempty
  have directory : ¬((parentDir path).map io.directory).getD true = false := by simp [whole.directory]
  have opens : ¬(!io.opens) = true := by simp [whole.opens]
  rw [save, if_neg directory, if_neg some, if_neg opens]
  simp only [whole.takes, decide_true, Bool.true_or, List.take_of_length_le whole.takes]

end File

end RoutingTableStore

namespace RoutingTable
open RoutingTableStore

section Rebuild
variable {t : RoutingTable} (selfId : NodeId) (clock : Nat → Nat)

/-- The loop of `load_persisted_routing_table`. -/
def addAll (t : RoutingTable) (entries : List RoutingEntry) : RoutingTable :=
  entries.zipIdx.foldl (fun t entry => t.add (clock entry.2) entry.1 false) t

theorem addAll_concat (entries : List RoutingEntry) (entry : RoutingEntry) :
    addAll clock t (entries ++ [entry]) = (addAll clock t entries).add (clock entries.length) entry false := by
  simp only [addAll, List.zipIdx_append, List.zipIdx_singleton, List.foldl_append, List.foldl_cons, List.foldl_nil,
    Nat.zero_add]

theorem addAll_selfId (entries : List RoutingEntry) : (addAll clock t entries).selfId = t.selfId := by
  refine List.foldlRecOn (motive := fun after : RoutingTable => after.selfId = t.selfId) _ _ rfl ?_
  intro middle same entry _
  exact (apply_selfId middle (.add _ _ _)).trans same

/-- A fresh table takes in distinct nodes bucket by bucket, as long as no bucket
runs over. -/
theorem addAll_buckets {entries : List RoutingEntry} (distinct : (entries.map (·.id)).Nodup)
    (named : ∀ entry ∈ entries, entry.id ≠ selfId ∧ entry.id ≠ .zero)
    (fits : ∀ b, (entries.filter fun entry => bucketIndex selfId entry.id = b).length ≤ K) (b : Nat) :
    ((addAll clock (init selfId) entries).buckets b).toList =
      entries.filter fun entry => bucketIndex selfId entry.id = b := by
  induction entries using List.reverseRecOn generalizing b with
  | nil => rfl
  | append_singleton entries entry ih =>
    rw [List.map_append, List.nodup_append] at distinct
    have earlier := ih distinct.1 (fun other member => named other (List.mem_append_left _ member)) fun b' => by
      have bound := fits b'
      rw [List.filter_append, List.length_append] at bound
      omega
    obtain ⟨other, nonzero⟩ := named entry (List.mem_append_right _ List.mem_cons_self)
    have self : (addAll clock (init selfId) entries).selfId = selfId := addAll_selfId clock entries
    rw [addAll_concat, add_buckets (clock entries.length) false (by rwa [self]) nonzero, self, List.filter_append]
    split
    case isFalse elsewhere =>
      rw [earlier, List.filter_cons_of_neg (by simpa using Ne.symm elsewhere), List.filter_nil, List.append_nil]
    case isTrue here =>
      subst here
      have missing : findInBucket ((addAll clock (init selfId) entries).buckets (bucketIndex selfId entry.id)) entry.id =
          none := by
        refine findInBucket_eq_none fun stored member same => ?_
        rw [earlier] at member
        have inEntries := List.mem_map_of_mem (f := (·.id)) (List.mem_filter.mp member).1
        exact distinct.2.2 _ inEntries _ (List.mem_map_of_mem List.mem_cons_self) same
      have room : ((addAll clock (init selfId) entries).buckets (bucketIndex selfId entry.id)).size < K := by
        have bound := fits (bucketIndex selfId entry.id)
        rw [List.filter_append, List.length_append, List.filter_cons_of_pos (by simp)] at bound
        rw [← Slots.length_toList, earlier]
        exact bound
      rw [toList_addToBucket_room _ missing room, earlier, List.filter_cons_of_pos (by simp), List.filter_nil]

/-- The entries of a table with the index of a bucket are those of the bucket. -/
theorem Invariant.filter_all (inv : t.Invariant) {b : Nat} (inside : b < numBuckets) :
    (t.all.filter fun entry => bucketIndex t.selfId entry.id = b) = (t.buckets b).toList := by
  have only : ∀ b', ((t.buckets b').toList.filter fun entry => bucketIndex t.selfId entry.id = b) =
      if b' = b then (t.buckets b).toList else [] := by
    intro b'
    split
    case isTrue same =>
      subst same
      exact List.filter_eq_self.mpr fun entry member => by simpa using inv.indexed b' entry member
    case isFalse elsewhere =>
      refine List.filter_eq_nil_iff.mpr fun entry member => ?_
      rw [inv.indexed b' entry member]
      simpa using elsewhere
  have picked : ∀ n, (List.range n).flatMap (fun b' => if b' = b then (t.buckets b).toList else []) =
      if b < n then (t.buckets b).toList else [] := by
    intro n
    induction n with
    | zero => rfl
    | succ n ih =>
      rw [List.range_succ, List.flatMap_append, ih, List.flatMap_singleton]
      rcases Nat.lt_trichotomy b n with below | rfl | above
      · rw [if_pos below, if_neg (Nat.ne_of_gt below), if_pos (Nat.lt_succ_of_lt below), List.append_nil]
      · rw [if_neg (Nat.lt_irrefl b), if_pos rfl, if_pos (Nat.lt_succ_self b), List.nil_append]
      · rw [if_neg (by omega), if_neg (by omega), if_neg (by omega), List.append_nil]
  simp only [all, List.filter_flatMap, only]
  rw [picked, if_pos inside]

theorem Invariant.length_filter_all (inv : t.Invariant) (b : Nat) :
    (t.all.filter fun entry => bucketIndex t.selfId entry.id = b).length ≤ K := by
  by_cases inside : b < numBuckets
  · rw [inv.filter_all inside, Slots.length_toList]
    exact inv.bounded b
  · have none : (t.all.filter fun entry => bucketIndex t.selfId entry.id = b) = [] := by
      refine List.filter_eq_nil_iff.mpr fun entry member => ?_
      obtain ⟨b', inside', stored⟩ := mem_all.mp member
      rw [inv.indexed b' entry stored]
      simpa using fun same : b' = b => inside (same ▸ inside')
    rw [none]
    exact Nat.zero_le K

end Rebuild

/-- What was put in has a solid address, so all that is stored has. -/
theorem solid_of_calls {calls : List Call} (solid : ∀ now entry counted, .add now entry counted ∈ calls →
    Solid entry.pa.ip) (selfId : NodeId) : ∀ entry ∈ (calls.foldl apply (init selfId)).all, Solid entry.pa.ip := by
  have kept : (calls.foldl apply (init selfId)).Invariant ∧
      ∀ entry ∈ (calls.foldl apply (init selfId)).all, Solid entry.pa.ip := by
    refine List.foldlRecOn (motive := fun t : RoutingTable => t.Invariant ∧ ∀ entry ∈ t.all, Solid entry.pa.ip)
      calls apply ⟨invariant_init selfId, fun entry member => ?_⟩ ?_
    · obtain ⟨b, _, stored⟩ := mem_all.mp member
      cases stored
    · rintro t ⟨inv, old⟩ call listed
      refine ⟨inv.calls [call], fun entry member => ?_⟩
      cases call with
      | add now added counted =>
        rcases inv.mem_all_add member with ⟨rfl, _⟩ | earlier
        · exact solid now entry counted listed
        · exact old entry earlier
      | remove id =>
        rw [apply, inv.all_remove] at member
        exact old entry (List.mem_filter.mp member).1
  exact kept.2

/-- A table of which `save` has written the whole text is read back by `load`, and
the entries rebuild its buckets. -/
theorem save_load_rebuild (io : StoreIo) (selfId printed : NodeId) (calls : List Call) (path : Bytes)
    (file : Option Bytes) (clock : Nat → Nat)
    (solid : ∀ now entry counted, .add now entry counted ∈ calls → Solid entry.pa.ip)
    (nonempty : (calls.foldl apply (init selfId)).all ≠ [])
    (written : TakesWhole io path (savedText (calls.foldl apply (init selfId)).all printed)) :
    let t := calls.foldl apply (init selfId)
    let restored : List RoutingEntry := t.all.map fun entry => ⟨entry.toNode, 0⟩
    load path (save io t printed path file).file = .ok ⟨true, [], ⟨printed, restored⟩⟩ ∧
    ∀ b < numBuckets, ((addAll clock (init selfId) restored).buckets b).toList.map (·.toNode) =
      (t.buckets b).toList.map (·.toNode) := by
  intro t restored
  have inv : t.Invariant := (invariant_init selfId).calls calls
  have self : t.selfId = selfId := calls_selfId _ calls
  refine ⟨?_, fun b inside => ?_⟩
  · rw [save_whole file nonempty written]
    exact load_savedText nonempty (solid_of_calls solid selfId) printed path
  · have ids : (restored.map (·.id)).Nodup := by
      have distinct := inv.ids_nodup
      rwa [List.map_map]
    have named : ∀ entry ∈ restored, entry.id ≠ selfId ∧ entry.id ≠ .zero := by
      intro entry member
      obtain ⟨stored, inTable, rfl⟩ := List.mem_map.mp member
      obtain ⟨b', _, inBucket⟩ := mem_all.mp inTable
      exact self ▸ inv.named b' stored inBucket
    have listed : ∀ b', (restored.filter fun entry => bucketIndex selfId entry.id = b') =
        (t.all.filter fun entry => bucketIndex t.selfId entry.id = b').map fun entry => ⟨entry.toNode, 0⟩ := by
      intro b'
      rw [List.filter_map, self]
      rfl
    have rebuilt := addAll_buckets selfId clock ids named (fun b' => by
      rw [listed, List.length_map]
      exact inv.length_filter_all b') b
    rw [rebuilt, listed, inv.filter_all inside, List.map_map]
    rfl

/-- Two nodes of one bucket, the first of them heard from again, one node of
another bucket, and one that was removed. -/
def nearCalls : List Call :=
  [.add 7 (nearEntry 2 7) true, .add 8 (nearEntry 3 8) true, .add 9 (nearEntry 16 9) true, .add 10 (nearEntry 2 10) true,
    .add 11 (nearEntry 4 11) true, .remove (nearEntry 4 11).id]

def nearTable : RoutingTable := nearCalls.foldl apply (init oneId)

/-- The table saved and loaded, and the bucket with two entries rebuilt in its order. -/
theorem save_load_rebuild_near :
    load (text ['t']) (save ⟨fun _ => true, true, 1000, true⟩ nearTable oneId (text ['t']) none).file = .ok ⟨true, [],
      ⟨oneId, [⟨(nearEntry 3 0).toNode, 0⟩, ⟨(nearEntry 2 0).toNode, 0⟩, ⟨(nearEntry 16 0).toNode, 0⟩]⟩⟩ ∧
    ((addAll (fun _ => 20) (init oneId) [⟨(nearEntry 3 0).toNode, 0⟩, ⟨(nearEntry 2 0).toNode, 0⟩,
      ⟨(nearEntry 16 0).toNode, 0⟩]).buckets 1).toList.map (·.toNode) =
        [(nearEntry 3 0).toNode, (nearEntry 2 0).toNode] := by
  have solid : ∀ now entry counted, Call.add now entry counted ∈ nearCalls → Solid entry.pa.ip := by
    intro now entry counted member
    have host : entry.pa.ip = text ['h', 'o', 's', 't'] := by
      simp only [nearCalls, List.mem_cons, Call.add.injEq, reduceCtorEq, List.not_mem_nil, or_false] at member
      rcases member with ⟨_, rfl, _⟩ | ⟨_, rfl, _⟩ | ⟨_, rfl, _⟩ | ⟨_, rfl, _⟩ | ⟨_, rfl, _⟩ <;> rfl
    rw [host]
    exact ⟨by decide, by decide +kernel⟩
  have all : nearTable.all = [nearEntry 3 8, nearEntry 2 10, nearEntry 16 9] := by decide +kernel
  have bucket : (nearTable.buckets 1).toList = [nearEntry 3 8, nearEntry 2 10] := by decide +kernel
  have nonempty : nearTable.all ≠ [] := by
    rw [all]
    exact List.cons_ne_nil _ _
  have written : TakesWhole ⟨fun _ => true, true, 1000, true⟩ (text ['t']) (savedText nearTable.all oneId) :=
    ⟨rfl, rfl, by decide +kernel⟩
  have loaded := save_load_rebuild _ oneId oneId nearCalls (text ['t']) none (fun _ => 20) solid nonempty written
  obtain ⟨read, rebuilt⟩ := loaded
  have there := rebuilt 1 (by decide)
  rw [show nearCalls.foldl apply (init oneId) = nearTable from rfl, all] at read there
  rw [bucket] at there
  exact ⟨read, there⟩

end RoutingTable

end BittorrentClient.Dht
