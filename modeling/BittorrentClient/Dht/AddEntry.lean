import BittorrentClient.Dht.RoutingTable

namespace BittorrentClient.Dht
open Cpp

namespace NodeId

theorem bytes_xor (a b : NodeId) : (a ^^^ b).bytes = List.zipWith (· ^^^ ·) a.bytes b.bytes := rfl

/-- Only the own id is at distance zero. -/
theorem eq_of_xor_isZero {a b : NodeId} (zero : (a ^^^ b).isZero = true) : a = b := by
  apply bytes_injective
  have same : a.bytes.length = b.bytes.length := a.length_eq.trans b.length_eq.symm
  refine List.ext_getElem same fun i inA inB => ?_
  have inside : i < (a ^^^ b).bytes.length := by
    rw [(a ^^^ b).length_eq]
    rwa [a.length_eq] at inA
  have byte := List.all_eq_true.mp zero _ (List.getElem_mem inside)
  simp only [bytes_xor, List.getElem_zipWith, beq_iff_eq] at byte
  exact UInt8.xor_eq_zero_iff.mp byte

end NodeId

namespace RoutingTable

theorem bucketOfBytes_lt (bytes : Bytes) (byteIdx : Nat) : bucketOfBytes bytes byteIdx < numBuckets := by
  induction bytes generalizing byteIdx with
  | nil => exact Nat.zero_lt_succ _
  | cons b rest ih =>
    unfold bucketOfBytes
    split
    · exact ih _
    · split
      · simp only [numBuckets]
        omega
      · exact ih _

theorem bucketIndex_lt {selfId id : NodeId} (other : id ≠ selfId) : bucketIndex selfId id < numBuckets := by
  have distant : ¬(selfId ^^^ id).isZero = true := fun zero => other (NodeId.eq_of_xor_isZero zero).symm
  simp only [bucketIndex, if_neg distant]
  exact bucketOfBytes_lt _ 0

section Buckets

theorem findInBucket_eq_none {slots : Slots RoutingEntry} {id : NodeId}
    (missing : ∀ entry ∈ slots.toList, entry.id ≠ id) : findInBucket slots id = none := by
  refine List.find?_eq_none.mpr fun i inside => ?_
  have different := missing (slots.cell i) (List.mem_map_of_mem inside)
  simpa using different

variable {slots : Slots RoutingEntry} (now : Nat) {entry : RoutingEntry}

/-- An entry of its id moves to the end, with the new data. -/
theorem toList_addToBucket_known {idx : Nat} (found : findInBucket slots entry.id = some idx) :
    ∃ before old after, slots.toList = before ++ old :: after ∧ old.id = entry.id ∧
      (addToBucket now entry slots).toList = before ++ after ++ [entry] := by
  obtain ⟨inside, sameId, stored⟩ := findInBucket_some found
  have size : (slots.write idx entry).size = slots.size := rfl
  have touched := @toList_touchBucketEntry (slots.write idx entry) idx (by rwa [size]) entry
  rw [Slots.toList_write, List.eraseIdx_set_eq] at touched
  have position : idx < slots.toList.length := by rwa [Slots.length_toList]
  have cell : slots.toList[idx] = slots.cell idx := List.getElem?_eq_some_iff.mp stored |>.2
  refine ⟨slots.toList.take idx, slots.cell idx, slots.toList.drop (idx + 1), ?_, sameId, ?_⟩
  · rw [← cell, List.getElem_cons_drop, List.take_append_drop]
  · rw [← List.eraseIdx_eq_take_drop_succ, ← touched]
    simp only [addToBucket, found]

theorem toList_addToBucket_room (missing : findInBucket slots entry.id = none) (room : slots.size < K) :
    (addToBucket now entry slots).toList = slots.toList ++ [entry] := by
  simp only [addToBucket, missing, if_pos room, Slots.toList_push]

/-- In a full bucket the first of the least recently seen entries gives way,
unless it is good. -/
theorem toList_addToBucket_full (missing : findInBucket slots entry.id = none) (full : slots.size = K) :
    ∃ before oldest after, slots.toList = before ++ oldest :: after ∧
      (∀ other ∈ before, oldest.lastSeen < other.lastSeen) ∧ (∀ other ∈ after, oldest.lastSeen ≤ other.lastSeen) ∧
      (addToBucket now entry slots).toList =
        if oldest.isGood now then before ++ oldest :: after else before ++ entry :: after := by
  obtain ⟨_, bound, first, least⟩ := Slots.first_least (fun i => (slots.cell i).lastSeen) (slots.size - 1)
  change leastRecentlySeen slots ≤ slots.size - 1 at bound
  change ∀ j < leastRecentlySeen slots, (slots.cell (leastRecentlySeen slots)).lastSeen < (slots.cell j).lastSeen
    at first
  change ∀ j ≤ slots.size - 1, (slots.cell (leastRecentlySeen slots)).lastSeen ≤ (slots.cell j).lastSeen at least
  have added : addToBucket now entry slots =
      if !(slots.cell (leastRecentlySeen slots)).isGood now then slots.write (leastRecentlySeen slots) entry
      else slots := by
    simp only [addToBucket, missing, full, Nat.lt_irrefl, if_false]
  generalize leastRecentlySeen slots = i at bound first least added
  have inside : i < slots.size := by
    rw [full] at bound ⊢
    exact Nat.lt_of_le_of_lt bound (by decide)
  have position : i < slots.toList.length := by rwa [Slots.length_toList]
  have stored := Slots.getElem?_toList slots i
  rw [if_pos inside] at stored
  have cell : slots.toList[i] = slots.cell i := List.getElem?_eq_some_iff.mp stored |>.2
  have whole : slots.toList = slots.toList.take i ++ slots.cell i :: slots.toList.drop (i + 1) := by
    rw [← cell, List.getElem_cons_drop, List.take_append_drop]
  refine ⟨slots.toList.take i, slots.cell i, slots.toList.drop (i + 1), whole, ?_, ?_, ?_⟩
  · intro other member
    obtain ⟨j, below, rfl⟩ := List.mem_take_iff_getElem.mp member
    rw [Slots.length_toList, Nat.lt_min] at below
    have found := Slots.getElem?_toList slots j
    rw [if_pos below.2] at found
    rw [(List.getElem?_eq_some_iff.mp found).2]
    exact first j below.1
  · intro other member
    obtain ⟨j, within, rfl⟩ := List.mem_iff_getElem.mp (List.mem_of_mem_drop member)
    rw [Slots.length_toList] at within
    have found := Slots.getElem?_toList slots j
    rw [if_pos within] at found
    rw [(List.getElem?_eq_some_iff.mp found).2]
    exact least j (by omega)
  · rw [added]
    cases (slots.cell i).isGood now with
    | true => exact whole
    | false =>
      rw [if_pos Bool.not_false, if_neg Bool.false_ne_true, Slots.toList_write,
        List.set_eq_take_append_cons_drop, if_pos position]

end Buckets

section Table
variable {t : RoutingTable} (now : Nat) {entry : RoutingEntry} (countAsReceived : Bool)

theorem add_named (other : entry.id ≠ t.selfId) (nonzero : entry.id ≠ .zero) :
    t.add now entry countAsReceived =
      (if countAsReceived then t.countReceived (bucketIndex t.selfId entry.id) else t).modifyBucket
        (bucketIndex t.selfId entry.id) (addToBucket now entry) := by
  have accepted : ¬(entry.id = t.selfId || entry.id.isZero) = true := by simpa [isZero_iff] using ⟨other, nonzero⟩
  have inside := Nat.not_le.mpr (bucketIndex_lt other)
  simp only [add, if_neg accepted, if_neg inside]

theorem add_buckets (other : entry.id ≠ t.selfId) (nonzero : entry.id ≠ .zero) (b : Nat) :
    (t.add now entry countAsReceived).buckets b =
      if b = bucketIndex t.selfId entry.id then addToBucket now entry (t.buckets b) else t.buckets b := by
  rw [add_named now countAsReceived other nonzero, modifyBucket_buckets]
  cases countAsReceived <;> rfl

theorem add_peersReceivedPerBucket (other : entry.id ≠ t.selfId) (nonzero : entry.id ≠ .zero) (b : Nat) :
    (t.add now entry countAsReceived).peersReceivedPerBucket b =
      t.peersReceivedPerBucket b + if b = bucketIndex t.selfId entry.id ∧ countAsReceived = true then 1 else 0 := by
  rw [add_named now countAsReceived other nonzero]
  cases countAsReceived with
  | false =>
    simp only [Bool.false_eq_true, and_false, if_false, Nat.add_zero]
    rfl
  | true =>
    simp only [if_true, modifyBucket, countReceived, Function.update_apply, and_true]
    split
    · rename_i same
      rw [same]
    · rfl

/-- Whoever is good and has another id stays. -/
theorem Invariant.good_stays (inv : t.Invariant) (other : entry.id ≠ t.selfId) (nonzero : entry.id ≠ .zero)
    {stored : RoutingEntry} (member : stored ∈ t.all) (good : stored.isGood now = true)
    (different : stored.id ≠ entry.id) : stored ∈ (t.add now entry countAsReceived).all := by
  obtain ⟨b, inside, held⟩ := mem_all.mp member
  refine mem_all.mpr ⟨b, inside, ?_⟩
  rw [add_buckets now countAsReceived other nonzero]
  split
  case isFalse => exact held
  case isTrue =>
    cases found : findInBucket (t.buckets b) entry.id with
    | some idx =>
      obtain ⟨before, old, after, whole, sameId, added⟩ := toList_addToBucket_known now found
      rw [whole, List.mem_append, List.mem_cons] at held
      rw [added, List.mem_append, List.mem_append]
      rcases held with early | rfl | late
      · exact Or.inl (Or.inl early)
      · exact absurd sameId different
      · exact Or.inl (Or.inr late)
    | none =>
      rcases Nat.lt_or_eq_of_le (inv.bounded b) with room | full
      · rw [toList_addToBucket_room now found room]
        exact List.mem_append_left _ held
      · obtain ⟨before, oldest, after, whole, _, _, added⟩ := toList_addToBucket_full now found full
        rw [added]
        split
        case isTrue => rwa [← whole]
        case isFalse stale =>
          rw [whole, List.mem_append, List.mem_cons] at held
          rw [List.mem_append, List.mem_cons]
          rcases held with early | rfl | late
          · exact Or.inl early
          · exact absurd good stale
          · exact Or.inr (Or.inr late)

/-- Whatever is in the table after `add` is the new entry or was there before. -/
theorem Invariant.mem_all_add {now : Nat} {countAsReceived : Bool} (inv : t.Invariant) {stored : RoutingEntry}
    (member : stored ∈ (t.add now entry countAsReceived).all) :
    (stored = entry ∧ entry.id ≠ t.selfId ∧ entry.id ≠ .zero) ∨ stored ∈ t.all := by
  rcases add_cases t now entry countAsReceived with unchanged | ⟨named, received, changed⟩
  · exact Or.inr (unchanged ▸ member)
  rw [changed] at member
  obtain ⟨b, inside, found⟩ := mem_all.mp member
  have bucket : (t.modifyBucket (bucketIndex t.selfId entry.id) (addToBucket now entry)).buckets b =
      if b = bucketIndex t.selfId entry.id then addToBucket now entry (t.buckets b) else t.buckets b :=
    modifyBucket_buckets t _ b _
  change stored ∈ ((t.modifyBucket _ _).buckets b).toList at found
  rw [bucket] at found
  split at found
  case isFalse => exact Or.inr (mem_all.mpr ⟨b, inside, found⟩)
  case isTrue =>
    rcases toList_addToBucket (inv.distinct b) (inv.bounded b) now entry with same | ⟨kept, old, placed, _, _⟩
    · exact Or.inr (mem_all.mpr ⟨b, inside, same ▸ found⟩)
    · rcases List.mem_cons.mp (placed.mem_iff.mp found) with new | earlier
      · exact Or.inl ⟨new, named⟩
      · exact Or.inr (mem_all.mpr ⟨b, inside, old.subset earlier⟩)

end Table

/-- What `add` does to a table that calls of `add` and `remove` have built. -/
theorem add_outcome (selfId : NodeId) (calls : List Call) (now : Nat) (entry : RoutingEntry) (countAsReceived : Bool)
    (other : entry.id ≠ selfId) (nonzero : entry.id ≠ .zero) :
    let t := calls.foldl apply (init selfId)
    let bucket := bucketIndex selfId entry.id
    let old := (t.buckets bucket).toList
    let after := t.add now entry countAsReceived
    let new := (after.buckets bucket).toList
    bucket < numBuckets ∧
    ((∃ stored ∈ old, stored.id = entry.id) →
      ∃ front stored back, old = front ++ stored :: back ∧ stored.id = entry.id ∧ new = front ++ back ++ [entry]) ∧
    ((∀ stored ∈ old, stored.id ≠ entry.id) → old.length < 8 → new = old ++ [entry]) ∧
    ((∀ stored ∈ old, stored.id ≠ entry.id) → 8 ≤ old.length →
      ∃ front oldest back, old = front ++ oldest :: back ∧ (∀ stored ∈ front, oldest.lastSeen < stored.lastSeen) ∧
        (∀ stored ∈ back, oldest.lastSeen ≤ stored.lastSeen) ∧
        new = if oldest.isGood now then old else front ++ entry :: back) ∧
    (∀ stored ∈ t.all, stored.isGood now = true → stored.id ≠ entry.id → stored ∈ after.all) ∧
    (∀ b, b ≠ bucket → after.buckets b = t.buckets b) ∧
    ∀ b, after.peersReceivedPerBucket b =
      t.peersReceivedPerBucket b + if b = bucket ∧ countAsReceived = true then 1 else 0 := by
  intro t bucket old after new
  have inv : t.Invariant := (invariant_init selfId).calls calls
  have self : t.selfId = selfId := calls_selfId _ calls
  rw [← self] at other
  have changed : ∀ b, after.buckets b = if b = bucket then addToBucket now entry (t.buckets b) else t.buckets b := by
    intro b
    have added := add_buckets now countAsReceived other nonzero b
    rwa [self] at added
  have here : new = (addToBucket now entry (t.buckets bucket)).toList := by
    rw [show new = (after.buckets bucket).toList from rfl, changed, if_pos rfl]
  refine ⟨?_, ?_, ?_, ?_, ?_, ?_, ?_⟩
  · have inside := bucketIndex_lt other
    rwa [self] at inside
  · rintro ⟨stored, member, sameId⟩
    cases found : findInBucket (t.buckets bucket) entry.id with
    | none => exact absurd sameId (findInBucket_none found stored member)
    | some idx =>
      rw [here]
      exact toList_addToBucket_known now found
  · intro missing room
    have absent := findInBucket_eq_none missing
    rw [Slots.length_toList] at room
    rw [here]
    exact toList_addToBucket_room now absent room
  · intro missing full
    have absent := findInBucket_eq_none missing
    rw [Slots.length_toList] at full
    obtain ⟨front, oldest, back, whole, first, least, added⟩ :=
      toList_addToBucket_full now absent (Nat.le_antisymm (inv.bounded bucket) full)
    refine ⟨front, oldest, back, whole, first, least, ?_⟩
    rw [here, added]
    split
    · exact whole.symm
    · rfl
  · intro stored member good different
    exact inv.good_stays now countAsReceived other nonzero member good different
  · intro b elsewhere
    rw [changed, if_neg elsewhere]
  · intro b
    have counted := add_peersReceivedPerBucket now countAsReceived other nonzero b
    rwa [self] at counted

def oneId : NodeId := ⟨List.replicate 18 0 ++ [0, 1], rfl⟩

/-- A node whose id differs from the own one in the last byte alone. -/
def nearEntry (last : UInt8) (lastSeen : Nat) : RoutingEntry :=
  ⟨⟨⟨List.replicate 18 0 ++ [0, last], rfl⟩, ⟨text ['h', 'o', 's', 't'], 6881⟩⟩, lastSeen⟩

/-- Eight nodes of one bucket and one of another. -/
def crowdedCalls : List Call :=
  .add 3 (nearEntry 2 3) true :: [16, 17, 18, 19, 20, 21, 22, 23].map fun last => .add 7 (nearEntry last last.toNat) true

/-- Twenty minutes later. -/
def late : Nat := 20 * 60 * 10 ^ 9

/-- The first of eight nodes is the oldest and no longer good: a ninth takes its place. -/
theorem add_outcome_crowded :
    (((crowdedCalls.foldl apply (init oneId)).add late (nearEntry 24 late) true).buckets 4).toList =
      [nearEntry 24 late, nearEntry 17 17, nearEntry 18 18, nearEntry 19 19, nearEntry 20 20, nearEntry 21 21,
        nearEntry 22 22, nearEntry 23 23] := by
  have bucket : ((crowdedCalls.foldl apply (init oneId)).buckets 4).toList =
      nearEntry 16 16 :: [nearEntry 17 17, nearEntry 18 18, nearEntry 19 19, nearEntry 20 20, nearEntry 21 21,
        nearEntry 22 22, nearEntry 23 23] := by decide +kernel
  have outcome := (add_outcome oneId crowdedCalls late (nearEntry 24 late) true (by decide) (by decide)).2.2.2.1
  rw [show bucketIndex oneId (nearEntry 24 late).id = 4 by decide +kernel, bucket] at outcome
  obtain ⟨front, oldest, back, whole, first, _, replaced⟩ := outcome (by decide +kernel) (by decide)
  cases front with
  | nil =>
    obtain ⟨rfl, rfl⟩ := List.cons.inj whole
    rw [replaced]
    decide +kernel
  | cons head front =>
    obtain ⟨rfl, rest⟩ := List.cons.inj whole
    have younger := first _ List.mem_cons_self
    have least : ∀ stored ∈ [nearEntry 17 17, nearEntry 18 18, nearEntry 19 19, nearEntry 20 20, nearEntry 21 21,
        nearEntry 22 22, nearEntry 23 23], 16 ≤ stored.lastSeen := by decide
    exact absurd younger (Nat.not_lt.mpr (least oldest (rest ▸ List.mem_append_right _ List.mem_cons_self)))

end RoutingTable

end BittorrentClient.Dht
