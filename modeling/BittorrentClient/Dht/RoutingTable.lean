import BittorrentClient.Dht.Krpc
import BittorrentClient.Library.Slots
import Mathlib.Data.List.Perm.Basic

namespace BittorrentClient.Dht
open Cpp

/-- `is_zero`. -/
def NodeId.isZero (id : NodeId) : Bool := id.bytes.all (· == 0)

/-- `NODE_GOOD_TIMEOUT`, in nanoseconds. -/
def nodeGoodTimeout : Nat := 15 * 60 * 10 ^ 9

/-- `is_good` at the time `now`: the age is a signed difference. -/
def RoutingEntry.isGood (now : Nat) (entry : RoutingEntry) : Bool := (now : Int) - entry.lastSeen < nodeGoodTimeout

/-- The buckets are arrays of `K` entries, of which `bucket_sizes_` says how
many are in use. -/
structure RoutingTable where
  selfId : NodeId
  buckets : Nat → Slots RoutingEntry
  peersReceivedPerBucket : Nat → Nat

namespace RoutingTable

def numBuckets : Nat := 160

/-- The loops of `bucket_index`, from byte `byteIdx` of the distance on. -/
def bucketOfBytes : Bytes → Nat → Nat
  | [], _ => 0
  | b :: rest, byteIdx =>
    if b = 0 then bucketOfBytes rest (byteIdx + 1)
    else
      match [7, 6, 5, 4, 3, 2, 1, 0].find? (fun bit => b.toNat &&& 1 <<< bit ≠ 0) with
      | some bit => numBuckets - 1 - (byteIdx * 8 + (7 - bit))
      | none => bucketOfBytes rest (byteIdx + 1)

def bucketIndex (selfId id : NodeId) : Nat :=
  let dist := selfId ^^^ id
  if dist.isZero then numBuckets else bucketOfBytes dist.bytes 0

/-- `find_in_bucket`; a pointer into the bucket is an index here. -/
def findInBucket (slots : Slots RoutingEntry) (id : NodeId) : Option Nat :=
  (List.range slots.size).find? (fun i => (slots.cell i).id = id)

def touchBucketEntry (slots : Slots RoutingEntry) (idx : Nat) (entry : RoutingEntry) : Slots RoutingEntry :=
  if slots.size ≤ idx then slots
  else
    let slots := slots.write idx entry
    if idx + 1 < slots.size then
      let updated := slots.cell idx
      (slots.closeGap idx).write (slots.size - 1) updated
    else slots

/-- The loop of `add` that looks for the least recently seen entry. -/
def leastRecentlySeen (slots : Slots RoutingEntry) : Nat :=
  ((List.range' 1 (slots.size - 1)).foldl
    (fun (best : Nat × Nat) i =>
      if (slots.cell i).lastSeen < best.2 then (i, (slots.cell i).lastSeen) else best)
    (0, (slots.cell 0).lastSeen)).1

/-- What `add` does to the bucket of the entry. -/
def addToBucket (now : Nat) (entry : RoutingEntry) (slots : Slots RoutingEntry) : Slots RoutingEntry :=
  match findInBucket slots entry.id with
  | some idx => touchBucketEntry (slots.write idx entry) idx entry
  | none =>
    if slots.size < K then slots.push entry
    else
      let replaceIdx := leastRecentlySeen slots
      if !(slots.cell replaceIdx).isGood now then slots.write replaceIdx entry else slots

/-- What `remove` does to the bucket of the id. -/
def removeFromBucket (id : NodeId) (slots : Slots RoutingEntry) : Slots RoutingEntry :=
  match findInBucket slots id with
  | some i => ⟨(slots.closeGap i).cell, slots.size - 1⟩
  | none => slots

def init (selfId : NodeId) : RoutingTable :=
  ⟨selfId, fun _ => ⟨fun _ => ⟨⟨.zero, ⟨[], 0⟩⟩, 0⟩, 0⟩, fun _ => 0⟩

def modifyBucket (t : RoutingTable) (bucket : Nat) (change : Slots RoutingEntry → Slots RoutingEntry) :
    RoutingTable :=
  { t with buckets := Function.update t.buckets bucket (change (t.buckets bucket)) }

def countReceived (t : RoutingTable) (bucket : Nat) : RoutingTable :=
  { t with peersReceivedPerBucket :=
      Function.update t.peersReceivedPerBucket bucket (t.peersReceivedPerBucket bucket + 1) }

/-- `add`, at the time `now`. -/
def add (t : RoutingTable) (now : Nat) (entry : RoutingEntry) (countAsReceived : Bool) : RoutingTable :=
  if entry.id = t.selfId || entry.id.isZero then t
  else
    let bucket := bucketIndex t.selfId entry.id
    if numBuckets ≤ bucket then t
    else
      let t := if countAsReceived then t.countReceived bucket else t
      t.modifyBucket bucket (addToBucket now entry)

def remove (t : RoutingTable) (id : NodeId) : RoutingTable :=
  let bucket := bucketIndex t.selfId id
  if numBuckets ≤ bucket then t else t.modifyBucket bucket (removeFromBucket id)

def size (t : RoutingTable) : Nat := ((List.range numBuckets).map (fun b => (t.buckets b).size)).sum

def all (t : RoutingTable) : List RoutingEntry := (List.range numBuckets).flatMap (fun b => (t.buckets b).toList)

section Buckets

theorem findInBucket_some {slots : Slots RoutingEntry} {id : NodeId} {i : Nat}
    (found : findInBucket slots id = some i) :
    i < slots.size ∧ (slots.cell i).id = id ∧ slots.toList[i]? = some (slots.cell i) := by
  have inside : i < slots.size := List.mem_range.mp (List.mem_of_find?_eq_some found)
  refine ⟨inside, by simpa using List.find?_some found, ?_⟩
  rw [Slots.getElem?_toList, if_pos inside]

theorem findInBucket_none {slots : Slots RoutingEntry} {id : NodeId} (missing : findInBucket slots id = none) :
    ∀ entry ∈ slots.toList, entry.id ≠ id := by
  intro entry member
  obtain ⟨i, inside, rfl⟩ := List.mem_map.mp member
  simpa using List.find?_eq_none.mp missing i inside

theorem toList_touchBucketEntry {slots : Slots RoutingEntry} {idx : Nat} (inside : idx < slots.size)
    (entry : RoutingEntry) : (touchBucketEntry slots idx entry).toList = slots.toList.eraseIdx idx ++ [entry] := by
  have size : (slots.write idx entry).size = slots.size := rfl
  have erased : (slots.write idx entry).toList.eraseIdx idx = slots.toList.eraseIdx idx := by
    rw [Slots.toList_write, List.eraseIdx_set_eq]
  simp only [touchBucketEntry, if_neg (Nat.not_le.mpr inside)]
  split
  · have updated : (slots.write idx entry).cell idx = entry := Function.update_self ..
    rw [updated, Slots.toList_closeGap_write _ (by rwa [size]), erased]
  · rename_i last
    rw [size] at last
    have nothingBehind : slots.toList.drop (idx + 1) = [] := List.drop_eq_nil_of_le (by rw [Slots.length_toList]; omega)
    rw [Slots.toList_write, List.set_eq_take_append_cons_drop, if_pos (by rwa [Slots.length_toList]),
      List.eraseIdx_eq_take_drop_succ, nothingBehind, List.append_nil]

/-- The new entry beside what is kept of the old ones, none of them with its id. -/
def Placed (entry : RoutingEntry) (old new : List RoutingEntry) : Prop :=
  ∃ kept, kept.Sublist old ∧ new.Perm (entry :: kept) ∧ (∀ other ∈ kept, other.id ≠ entry.id) ∧ kept.length < K

theorem eraseIdx_ids {entries : List RoutingEntry} (distinct : (entries.map (·.id)).Nodup) {i : Nat}
    {entry : RoutingEntry} (stored : entries[i]? = some entry) :
    ∀ other ∈ entries.eraseIdx i, other.id ≠ entry.id := by
  obtain ⟨inside, rfl⟩ := List.getElem?_eq_some_iff.mp stored
  have perm := ((List.getElem_cons_eraseIdx_perm inside).map (·.id)).nodup_iff.mpr distinct
  rw [List.map_cons, List.nodup_cons] at perm
  intro other member same
  exact perm.1 (same ▸ List.mem_map_of_mem member)

/-- What `add` makes of a bucket: nothing, or the entry is put in, in its old
place, a free one or that of a stale entry. -/
theorem toList_addToBucket {slots : Slots RoutingEntry} (distinct : (slots.toList.map (·.id)).Nodup)
    (bounded : slots.size ≤ K) (now : Nat) (entry : RoutingEntry) :
    (addToBucket now entry slots).toList = slots.toList ∨
      Placed entry slots.toList (addToBucket now entry slots).toList := by
  unfold addToBucket
  split
  · rename_i idx found
    obtain ⟨inside, sameId, stored⟩ := findInBucket_some found
    have size : (slots.write idx entry).size = slots.size := rfl
    have touched := @toList_touchBucketEntry (slots.write idx entry) idx (by rwa [size]) entry
    rw [Slots.toList_write, List.eraseIdx_set_eq] at touched
    refine Or.inr ⟨slots.toList.eraseIdx idx, List.eraseIdx_sublist .., ?_, ?_, ?_⟩
    · rw [touched]
      exact List.perm_append_singleton _ _
    · rw [← sameId]
      exact eraseIdx_ids distinct stored
    · rw [List.length_eraseIdx_of_lt (by rwa [Slots.length_toList]), Slots.length_toList]
      omega
  · rename_i missing
    split
    · rename_i room
      refine Or.inr ⟨slots.toList, List.Sublist.refl _, ?_, findInBucket_none missing, by rwa [Slots.length_toList]⟩
      rw [Slots.toList_push]
      exact List.perm_append_singleton _ _
    · simp only
      split
      · rw [Slots.toList_write]
        by_cases inside : leastRecentlySeen slots < slots.toList.length
        · refine Or.inr ⟨slots.toList.eraseIdx (leastRecentlySeen slots), List.eraseIdx_sublist ..,
            List.set_perm_cons_eraseIdx inside entry, ?_, ?_⟩
          · exact fun other member => findInBucket_none missing other (List.mem_of_mem_eraseIdx member)
          · rw [List.length_eraseIdx_of_lt inside, Slots.length_toList]
            rw [Slots.length_toList] at inside
            omega
        · exact Or.inl (List.set_eq_of_length_le (Nat.not_lt.mp inside))
      · exact Or.inl rfl

theorem eraseIdx_eq_filter {entries : List RoutingEntry} (distinct : (entries.map (·.id)).Nodup) {i : Nat}
    {entry : RoutingEntry} (stored : entries[i]? = some entry) :
    entries.eraseIdx i = entries.filter (fun other => other.id ≠ entry.id) := by
  induction entries generalizing i with
  | nil => cases stored
  | cons first rest ih =>
    obtain ⟨fresh, distinctRest⟩ := List.nodup_cons.mp distinct
    have freshIds : ∀ other ∈ rest, other.id ≠ first.id :=
      fun other member same => fresh (List.mem_map.mpr ⟨other, member, same⟩)
    cases i with
    | zero =>
      obtain rfl : first = entry := by simpa using stored
      have others : rest.filter (fun other => other.id ≠ first.id) = rest :=
        List.filter_eq_self.mpr fun other member => by simpa using freshIds other member
      rw [List.eraseIdx_cons_zero, List.filter_cons_of_neg (by simp), others]
    | succ i =>
      have later : rest[i]? = some entry := by simpa using stored
      have different : first.id ≠ entry.id := Ne.symm (freshIds entry (List.mem_of_getElem? later))
      rw [List.eraseIdx_cons_succ, List.filter_cons_of_pos (by simpa using different), ih distinctRest later]

theorem toList_removeFromBucket {slots : Slots RoutingEntry} (distinct : (slots.toList.map (·.id)).Nodup)
    (id : NodeId) : (removeFromBucket id slots).toList = slots.toList.filter (fun entry => entry.id ≠ id) := by
  unfold removeFromBucket
  split
  · rename_i i found
    obtain ⟨inside, rfl, stored⟩ := findInBucket_some found
    rw [Slots.toList_closeGap slots inside]
    exact eraseIdx_eq_filter distinct stored
  · rename_i missing
    exact (List.filter_eq_self.mpr fun entry member => by simpa using findInBucket_none missing entry member).symm

end Buckets

section Table

/-- The representation invariant, bucket by bucket. -/
structure Invariant (t : RoutingTable) : Prop where
  bounded : ∀ b, (t.buckets b).size ≤ K
  indexed : ∀ b, ∀ entry ∈ (t.buckets b).toList, bucketIndex t.selfId entry.id = b
  distinct : ∀ b, ((t.buckets b).toList.map (·.id)).Nodup
  named : ∀ b, ∀ entry ∈ (t.buckets b).toList, entry.id ≠ t.selfId ∧ entry.id ≠ .zero

theorem invariant_init (selfId : NodeId) : (init selfId).Invariant where
  bounded := fun _ => Nat.zero_le _
  indexed := fun _ _ member => by simp [init, Slots.toList] at member
  distinct := fun _ => List.nodup_nil
  named := fun _ _ member => by simp [init, Slots.toList] at member

theorem modifyBucket_buckets (t : RoutingTable) (bucket b : Nat) (change : Slots RoutingEntry → Slots RoutingEntry) :
    (t.modifyBucket bucket change).buckets b = if b = bucket then change (t.buckets b) else t.buckets b := by
  simp only [modifyBucket, Function.update_apply]
  split
  · rename_i same
    rw [same]
  · rfl

/-- Changing one bucket keeps the invariant when the changed bucket has it. -/
theorem Invariant.modifyBucket {t : RoutingTable} (inv : t.Invariant) {bucket : Nat}
    {change : Slots RoutingEntry → Slots RoutingEntry} (bounded : (change (t.buckets bucket)).size ≤ K)
    (indexed : ∀ entry ∈ (change (t.buckets bucket)).toList, bucketIndex t.selfId entry.id = bucket)
    (distinct : ((change (t.buckets bucket)).toList.map (·.id)).Nodup)
    (named : ∀ entry ∈ (change (t.buckets bucket)).toList, entry.id ≠ t.selfId ∧ entry.id ≠ .zero) :
    (t.modifyBucket bucket change).Invariant := by
  refine ⟨fun b => ?_, fun b => ?_, fun b => ?_, fun b => ?_⟩
  all_goals
    rw [modifyBucket_buckets]
    split
  · rename_i same
    rwa [same]
  · exact inv.bounded b
  · rename_i same
    subst same
    exact indexed
  · exact inv.indexed b
  · rename_i same
    rwa [same]
  · exact inv.distinct b
  · rename_i same
    subst same
    exact named
  · exact inv.named b

theorem isZero_iff {id : NodeId} : id.isZero = true ↔ id = .zero := by
  rw [NodeId.isZero, List.all_eq_true]
  constructor
  · intro zeros
    apply NodeId.bytes_injective
    exact List.eq_replicate_iff.mpr ⟨id.length_eq, fun b member => by simpa using zeros b member⟩
  · rintro rfl b member
    simpa using List.eq_of_mem_replicate member

theorem invariant_addToBucket {t : RoutingTable} (inv : t.Invariant) {entry : RoutingEntry}
    (named : entry.id ≠ t.selfId ∧ entry.id ≠ .zero) (now : Nat) :
    (t.modifyBucket (bucketIndex t.selfId entry.id) (addToBucket now entry)).Invariant := by
  have distinct := inv.distinct (bucketIndex t.selfId entry.id)
  have bounded := inv.bounded (bucketIndex t.selfId entry.id)
  rcases toList_addToBucket distinct bounded now entry with unchanged | ⟨kept, sub, perm, others, length⟩
  · refine inv.modifyBucket ?_ ?_ ?_ ?_
    · rw [← Slots.length_toList, unchanged, Slots.length_toList]
      exact bounded
    · rw [unchanged]
      exact inv.indexed _
    · rwa [unchanged]
    · rw [unchanged]
      exact inv.named _
  · refine inv.modifyBucket ?_ ?_ ?_ ?_
    · rw [← Slots.length_toList, perm.length_eq, List.length_cons]
      exact length
    · intro other member
      rcases List.mem_cons.mp (perm.mem_iff.mp member) with rfl | old
      · rfl
      · exact inv.indexed _ other (sub.subset old)
    · rw [(perm.map (·.id)).nodup_iff, List.map_cons, List.nodup_cons]
      refine ⟨fun member => ?_, distinct.sublist (sub.map (·.id))⟩
      obtain ⟨other, inKept, same⟩ := List.mem_map.mp member
      exact others other inKept same
    · intro other member
      rcases List.mem_cons.mp (perm.mem_iff.mp member) with rfl | old
      · exact named
      · exact inv.named _ other (sub.subset old)

/-- `add` does nothing, or changes the bucket of the entry and a counter. -/
theorem add_cases (t : RoutingTable) (now : Nat) (entry : RoutingEntry) (countAsReceived : Bool) :
    t.add now entry countAsReceived = t ∨ (entry.id ≠ t.selfId ∧ entry.id ≠ .zero) ∧
      ∃ received, t.add now entry countAsReceived =
        { t.modifyBucket (bucketIndex t.selfId entry.id) (addToBucket now entry) with
          peersReceivedPerBucket := received } := by
  by_cases refused : (entry.id = t.selfId || entry.id.isZero) = true
  · exact Or.inl (if_pos refused)
  have named : entry.id ≠ t.selfId ∧ entry.id ≠ .zero := by simpa [isZero_iff] using refused
  by_cases beyond : numBuckets ≤ bucketIndex t.selfId entry.id
  · exact Or.inl ((if_neg refused).trans (if_pos beyond))
  · refine Or.inr ⟨named, (if countAsReceived then t.countReceived (bucketIndex t.selfId entry.id)
      else t).peersReceivedPerBucket, ((if_neg refused).trans (if_neg beyond)).trans ?_⟩
    cases countAsReceived <;> rfl

theorem Invariant.add {t : RoutingTable} (inv : t.Invariant) (now : Nat) (entry : RoutingEntry)
    (countAsReceived : Bool) : (t.add now entry countAsReceived).Invariant := by
  rcases add_cases t now entry countAsReceived with unchanged | ⟨named, received, changed⟩
  · rwa [unchanged]
  · have placed := invariant_addToBucket inv named now
    rw [changed]
    exact ⟨placed.bounded, placed.indexed, placed.distinct, placed.named⟩

theorem Invariant.remove {t : RoutingTable} (inv : t.Invariant) (id : NodeId) : (t.remove id).Invariant := by
  unfold RoutingTable.remove
  simp only
  split
  · exact inv
  have filtered := toList_removeFromBucket (inv.distinct (bucketIndex t.selfId id)) id
  refine inv.modifyBucket ?_ ?_ ?_ ?_
  · rw [← Slots.length_toList, filtered]
    exact (List.length_filter_le _ _).trans ((Slots.length_toList _).trans_le (inv.bounded _))
  · rw [filtered]
    exact fun entry member => inv.indexed _ entry (List.mem_filter.mp member).1
  · rw [filtered]
    exact (inv.distinct _).sublist (List.filter_sublist.map _)
  · rw [filtered]
    exact fun entry member => inv.named _ entry (List.mem_filter.mp member).1

theorem mem_all {t : RoutingTable} {entry : RoutingEntry} :
    entry ∈ t.all ↔ ∃ b < numBuckets, entry ∈ (t.buckets b).toList := by
  simp [all]

theorem size_eq_length_all (t : RoutingTable) : t.size = t.all.length := by
  simp only [size, all, List.length_flatMap, Slots.length_toList]

/-- Ids are distinct across buckets, since an id has one bucket. -/
theorem Invariant.ids_nodup {t : RoutingTable} (inv : t.Invariant) : (t.all.map (·.id)).Nodup := by
  rw [all, List.map_flatMap, List.nodup_flatMap]
  refine ⟨fun b _ => inv.distinct b, List.pairwise_iff_forall_sublist.mpr ?_⟩
  intro b b' ordered
  have different : b ≠ b' := (List.pairwise_iff_forall_sublist.mp List.nodup_range) ordered
  intro id inFirst inSecond
  obtain ⟨entry, stored, rfl⟩ := List.mem_map.mp inFirst
  obtain ⟨entry', stored', same⟩ := List.mem_map.mp inSecond
  have first := inv.indexed b entry stored
  have second := inv.indexed b' entry' stored'
  rw [same] at second
  exact different (first.symm.trans second)

/-- `remove` takes out the entry with the id and keeps the order of the others. -/
theorem Invariant.all_remove {t : RoutingTable} (inv : t.Invariant) (id : NodeId) :
    (t.remove id).all = t.all.filter (fun entry => entry.id ≠ id) := by
  have elsewhere : ∀ b, b ≠ bucketIndex t.selfId id →
      (t.buckets b).toList.filter (fun entry => entry.id ≠ id) = (t.buckets b).toList := by
    intro b other
    refine List.filter_eq_self.mpr fun entry member => ?_
    have index := inv.indexed b entry member
    simpa using fun same => other (index.symm.trans (by rw [same]))
  unfold RoutingTable.remove
  simp only [all, List.filter_flatMap]
  split
  · rename_i beyond
    refine List.flatMap_congr fun b member => ?_
    have inside := List.mem_range.mp member
    exact (elsewhere b (by omega)).symm
  · refine List.flatMap_congr fun b _ => ?_
    rw [modifyBucket_buckets]
    split
    · rename_i same
      rw [toList_removeFromBucket (inv.distinct b)]
    · rename_i other
      exact (elsewhere b other).symm

/-- What `closest` and the lookups see of a table. -/
def contents (t : RoutingTable) (inv : t.Invariant) : Contents t.selfId where
  entries := t.all
  noSelf := fun entry member => by
    obtain ⟨b, _, stored⟩ := mem_all.mp member
    exact (inv.named b entry stored).1

end Table

/-- The calls that change a table; `add` reads the clock. -/
inductive Call
  | add (now : Nat) (entry : RoutingEntry) (countAsReceived : Bool)
  | remove (id : NodeId)

def apply (t : RoutingTable) : Call → RoutingTable
  | .add now entry countAsReceived => t.add now entry countAsReceived
  | .remove id => t.remove id

theorem Invariant.calls {t : RoutingTable} (inv : t.Invariant) (calls : List Call) :
    (calls.foldl apply t).Invariant := by
  induction calls generalizing t with
  | nil => exact inv
  | cons call rest ih =>
    cases call with
    | add now entry countAsReceived => exact ih (inv.add now entry countAsReceived)
    | remove id => exact ih (inv.remove id)

theorem apply_selfId (t : RoutingTable) (call : Call) : (t.apply call).selfId = t.selfId := by
  cases call with
  | add now entry countAsReceived =>
    rcases add_cases t now entry countAsReceived with unchanged | ⟨_, _, changed⟩
    · rw [apply, unchanged]
    · rw [apply, changed]
      rfl
  | remove id =>
    simp only [apply, RoutingTable.remove]
    split <;> rfl

theorem calls_selfId (t : RoutingTable) (calls : List Call) : (calls.foldl apply t).selfId = t.selfId := by
  induction calls generalizing t with
  | nil => rfl
  | cons call rest ih => rw [List.foldl_cons, ih, apply_selfId]

/-- The representation invariant of the table after any calls. -/
theorem routing_table_invariant (selfId : NodeId) (calls : List Call) :
    let t := calls.foldl apply (init selfId)
    (∀ b < numBuckets, (t.buckets b).size ≤ 8) ∧
    (∀ b < numBuckets, ∀ entry ∈ (t.buckets b).toList, bucketIndex selfId entry.id = b) ∧
    (t.all.map (·.id)).Nodup ∧
    (∀ entry ∈ t.all, entry.id ≠ selfId ∧ entry.id ≠ .zero) ∧
    t.size = t.all.length ∧
    ∀ id, (∀ entry ∈ (t.remove id).all, entry.id ≠ id) ∧
      (t.remove id).all = t.all.filter (fun entry => entry.id ≠ id) := by
  have inv := (invariant_init selfId).calls calls
  have self : (calls.foldl apply (init selfId)).selfId = selfId := calls_selfId _ calls
  refine ⟨fun b _ => inv.bounded b, fun b _ => ?_, inv.ids_nodup, ?_, size_eq_length_all _, fun id => ⟨?_, ?_⟩⟩
  · have indexed := inv.indexed b
    rwa [self] at indexed
  · intro entry member
    obtain ⟨b, _, stored⟩ := mem_all.mp member
    have named := inv.named b entry stored
    rwa [self] at named
  · intro entry member
    rw [inv.all_remove id] at member
    simpa using (List.mem_filter.mp member).2
  · exact inv.all_remove id

end RoutingTable

end BittorrentClient.Dht
