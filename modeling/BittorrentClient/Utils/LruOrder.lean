import BittorrentClient.Library.Recency
import BittorrentClient.Utils.LruCache
import Mathlib.Data.List.Perm.Basic

namespace BittorrentClient
open Cpp Recency

namespace LruCache

variable {Key Value : Type}

/-- What the cache holds, most recently used first. -/
def contents (c : LruCache Key Value) : List (Key × Value) := c.items.map fun node => (node.key, node.value)

theorem contents_keys (c : LruCache Key Value) : c.contents.map Prod.fst = c.items.map (·.key) := by
  rw [contents, List.map_map]
  rfl

variable [DecidableEq Key] {c : LruCache Key Value} {key : Key} {it : Nat}

/-- `index_` leads from the keys to the nodes of `items_`, and nowhere else. -/
structure Invariant (c : LruCache Key Value) : Prop where
  addresses : (c.items.map (·.address)).Nodup
  allocated : ∀ node ∈ c.items, node.address < c.allocated
  keys : (c.items.map (·.key)).Nodup
  indexed : ∀ key it, c.index.lookup key = some it ↔ ∃ node ∈ c.items, node.key = key ∧ node.address = it
  bounded : c.items.length ≤ c.capacity

/-- The iterator refers to the node of the key. -/
def Points (c : LruCache Key Value) (it : Nat) (key : Key) : Prop := ∃ node ∈ c.items, node.address = it ∧ node.key = key

theorem invariant_vacant (capacity allocated : Nat) :
    (⟨capacity, [], ∅, allocated⟩ : LruCache Key Value).Invariant where
  addresses := List.nodup_nil
  allocated := fun _ member => nomatch member
  keys := List.nodup_nil
  indexed := fun key it => by
    constructor
    · intro found
      cases (AList.lookup_empty key).symm.trans found
    · rintro ⟨node, member, _⟩
      cases member
  bounded := Nat.zero_le _

theorem invariant_make (capacity : Nat) : (make capacity : LruCache Key Value).Invariant := invariant_vacant capacity 0

section Nodes
variable {node other : LruNode Key Value}

theorem Invariant.eq_of_address (inv : c.Invariant) (member : node ∈ c.items) (member' : other ∈ c.items)
    (same : other.address = node.address) : other = node :=
  List.inj_on_of_nodup_map inv.addresses member' member same

theorem Invariant.eq_of_key (inv : c.Invariant) (member : node ∈ c.items) (member' : other ∈ c.items)
    (same : other.key = node.key) : other = node :=
  List.inj_on_of_nodup_map inv.keys member' member same

/-- A node is told from the others by its address as well as by its key. -/
theorem Invariant.address_iff (inv : c.Invariant) (member : node ∈ c.items) (member' : other ∈ c.items) :
    other.address = node.address ↔ other.key = node.key := by
  constructor
  · intro same
    rw [inv.eq_of_address member member' same]
  · intro same
    rw [inv.eq_of_key member member' same]

theorem Invariant.keys_perm (inv : c.Invariant) : c.index.keys.Perm (c.items.map (·.key)) := by
  refine (List.perm_ext_iff_of_nodup c.index.keys_nodup inv.keys).mpr fun key => ?_
  rw [← AList.mem_keys, ← AList.lookup_isSome, Option.isSome_iff_exists, List.mem_map]
  constructor
  · rintro ⟨it, found⟩
    obtain ⟨node, member, sameKey, _⟩ := (inv.indexed key it).mp found
    exact ⟨node, member, sameKey⟩
  · rintro ⟨node, member, sameKey⟩
    exact ⟨node.address, (inv.indexed key node.address).mpr ⟨node, member, sameKey, rfl⟩⟩

theorem Invariant.length_index (inv : c.Invariant) : c.index.keys.length = c.items.length := by
  rw [inv.keys_perm.length_eq, List.length_map]

theorem Invariant.lookup_none (inv : c.Invariant) : c.index.lookup key = none ↔ key ∉ c.contents.map Prod.fst := by
  rw [contents_keys, List.mem_map, Option.eq_none_iff_forall_ne_some]
  constructor
  · rintro missing ⟨node, member, sameKey⟩
    exact missing node.address ((inv.indexed key node.address).mpr ⟨node, member, sameKey, rfl⟩)
  · intro missing it found
    obtain ⟨node, member, sameKey, _⟩ := (inv.indexed key it).mp found
    exact missing ⟨node, member, sameKey⟩

theorem Invariant.of_perm (inv : c.Invariant) {items : List (LruNode Key Value)} (perm : items.Perm c.items) :
    ({ c with items := items } : LruCache Key Value).Invariant where
  addresses := (perm.map _).nodup_iff.mpr inv.addresses
  allocated := fun node member => inv.allocated node (perm.mem_iff.mp member)
  keys := (perm.map _).nodup_iff.mpr inv.keys
  indexed := fun key it => by
    simp only [perm.mem_iff]
    exact inv.indexed key it
  bounded := by
    rw [perm.length_eq]
    exact inv.bounded

end Nodes

section Pointers
variable {node : LruNode Key Value}

/-- A node that is spliced to the front is used. -/
theorem Invariant.splice (inv : c.Invariant) (member : node ∈ c.items) :
    (c.splice node.address).Invariant ∧
      (c.splice node.address).items = node :: c.items.filter (fun other => other.key ≠ node.key) := by
  have front : c.items.filter (fun other => other.address = node.address) = [node] :=
    filter_eq_singleton inv.addresses member
  have others : c.items.filter (fun other => other.address ≠ node.address) =
      c.items.filter (fun other => other.key ≠ node.key) := by
    refine List.filter_congr fun other member' => ?_
    exact decide_eq_decide.mpr (not_congr (inv.address_iff member member'))
  have moved : (c.splice node.address).items = node :: c.items.filter (fun other => other.key ≠ node.key) := by
    simp only [LruCache.splice, front, others, List.singleton_append]
  refine ⟨inv.of_perm ?_, moved⟩
  have perm := List.filter_append_perm (fun other : LruNode Key Value => other.address = node.address) c.items
  simpa using perm

theorem splice_contents {items : List (LruNode Key Value)}
    (moved : items = node :: c.items.filter (fun other => other.key ≠ node.key)) :
    (items.map fun other => (other.key, other.value)) = touch node.key node.value c.contents := by
  rw [moved, List.map_cons, touch, without, contents, List.filter_map]
  rfl

/-- Values may change where they are. -/
theorem Invariant.map_items (inv : c.Invariant) {g : LruNode Key Value → LruNode Key Value}
    (address : ∀ node, (g node).address = node.address) (sameKey : ∀ node, (g node).key = node.key) :
    ({ c with items := c.items.map g } : LruCache Key Value).Invariant where
  addresses := by
    have same : (c.items.map g).map (·.address) = c.items.map (·.address) := by
      rw [List.map_map]
      exact List.map_congr_left fun node _ => address node
    rw [same]
    exact inv.addresses
  allocated := by
    intro node member
    obtain ⟨old, inItems, rfl⟩ := List.mem_map.mp member
    rw [address]
    exact inv.allocated old inItems
  keys := by
    have same : (c.items.map g).map (·.key) = c.items.map (·.key) := by
      rw [List.map_map]
      exact List.map_congr_left fun node _ => sameKey node
    rw [same]
    exact inv.keys
  indexed := fun key it => by
    rw [inv.indexed]
    constructor
    · rintro ⟨node, member, atKey, atAddress⟩
      exact ⟨g node, List.mem_map_of_mem member, (sameKey node).trans atKey, (address node).trans atAddress⟩
    · rintro ⟨_, member, atKey, atAddress⟩
      obtain ⟨node, inItems, rfl⟩ := List.mem_map.mp member
      exact ⟨node, inItems, (sameKey node).symm.trans atKey, (address node).symm.trans atAddress⟩
  bounded := by
    rw [List.length_map]
    exact inv.bounded

theorem Invariant.modifyAt (inv : c.Invariant) (it : Nat) (f : Value → Value) : (c.modifyAt it f).Invariant := by
  refine inv.map_items (fun node => ?_) (fun node => ?_)
  · split <;> rfl
  · split <;> rfl

/-- A write through a pointer changes the value of its key. -/
theorem Invariant.contents_modifyAt (inv : c.Invariant) (points : c.Points it key) (f : Value → Value) :
    (c.modifyAt it f).contents = c.contents.map fun entry => if entry.1 = key then (entry.1, f entry.2) else entry := by
  obtain ⟨node, member, rfl, rfl⟩ := points
  simp only [contents, LruCache.modifyAt, List.map_map]
  refine List.map_congr_left fun other member' => ?_
  simp only [Function.comp_apply, inv.address_iff member member']
  split <;> rfl

theorem Invariant.valueAt (inv : c.Invariant) (points : c.Points it key) :
    ∃ value, (key, value) ∈ c.contents ∧ c.valueAt it = some value := by
  obtain ⟨node, member, rfl, rfl⟩ := points
  refine ⟨node.value, List.mem_map_of_mem (f := fun node => (node.key, node.value)) member, ?_⟩
  have found : c.items.find? (fun other => other.address = node.address) = some node := by
    have first : (c.items.filter (fun other => other.address = node.address)).head? = some node := by
      rw [filter_eq_singleton inv.addresses member]
      rfl
    rwa [List.head?_filter] at first
  rw [LruCache.valueAt, found, Option.map_some]

/-- `get` of a key that is not there, and of one that is. -/
theorem Invariant.get_cases (inv : c.Invariant) (key : Key) :
    (key ∉ c.contents.map Prod.fst ∧ c.get key = (none, c)) ∨
    ∃ it value, (key, value) ∈ c.contents ∧ c.get key = (some it, c.splice it) ∧ (c.splice it).Invariant ∧
      (c.splice it).Points it key ∧ (c.splice it).contents = touch key value c.contents := by
  cases found : c.index.lookup key with
  | none => exact Or.inl ⟨inv.lookup_none.mp found, by simp only [LruCache.get, found]⟩
  | some it =>
    obtain ⟨node, member, rfl, rfl⟩ := (inv.indexed key it).mp found
    obtain ⟨kept, moved⟩ := inv.splice member
    refine Or.inr ⟨node.address, node.value, List.mem_map_of_mem (f := fun node => (node.key, node.value)) member,
      by simp only [LruCache.get, found], kept, ⟨node, ?_, rfl, rfl⟩, splice_contents moved⟩
    rw [moved]
    exact List.mem_cons_self

/-- Taking out a node takes its key out of the index. -/
theorem Invariant.eraseAt (inv : c.Invariant) (member : node ∈ c.items) :
    (c.eraseAt node).Invariant ∧ (c.eraseAt node).contents = without node.key c.contents := by
  have others : c.items.filter (fun other => other.address ≠ node.address) =
      c.items.filter (fun other => other.key ≠ node.key) := by
    refine List.filter_congr fun other member' => ?_
    exact decide_eq_decide.mpr (not_congr (inv.address_iff member member'))
  have kept : (c.eraseAt node).items.Sublist c.items := List.filter_sublist
  refine ⟨?_, ?_⟩
  · refine ⟨inv.addresses.sublist (kept.map _), fun other member' => inv.allocated other (kept.subset member'),
      inv.keys.sublist (kept.map _), fun key it => ?_, Nat.le_trans kept.length_le inv.bounded⟩
    simp only [LruCache.eraseAt, UnorderedMap.lookup_erase_eq, others, List.mem_filter, decide_eq_true_eq]
    by_cases same : key = node.key
    · rw [if_pos same]
      constructor
      · intro found
        cases found
      · rintro ⟨other, ⟨_, different⟩, atKey, _⟩
        exact absurd (atKey.trans same) different
    · rw [if_neg same, inv.indexed]
      constructor
      · rintro ⟨other, inItems, atKey, atAddress⟩
        exact ⟨other, ⟨inItems, fun equal => same (atKey.symm.trans equal)⟩, atKey, atAddress⟩
      · rintro ⟨other, ⟨inItems, _⟩, atKey, atAddress⟩
        exact ⟨other, inItems, atKey, atAddress⟩
  · simp only [contents, without, LruCache.eraseAt, others, List.filter_map]
    rfl

theorem Invariant.eraseAt_items (inv : c.Invariant) {front back : List (LruNode Key Value)}
    (whole : c.items = front ++ node :: back) : (c.eraseAt node).items = front ++ back := by
  have distinct := inv.addresses
  rw [whole, List.map_append, List.map_cons, List.nodup_append, List.nodup_cons] at distinct
  obtain ⟨_, ⟨notBehind, _⟩, apart⟩ := distinct
  have before : front.filter (fun other => other.address ≠ node.address) = front := by
    refine List.filter_eq_self.mpr fun other inFront => ?_
    simpa using apart _ (List.mem_map_of_mem inFront) _ List.mem_cons_self
  have behind : back.filter (fun other => other.address ≠ node.address) = back := by
    refine List.filter_eq_self.mpr fun other inBack => ?_
    simpa using fun same : other.address = node.address => notBehind (same ▸ List.mem_map_of_mem inBack)
  rw [LruCache.eraseAt, whole, List.filter_append, List.filter_cons_of_neg (by simp), before, behind]

/-- A walk over the cache that erases the nodes with certain values. -/
theorem Invariant.eraseWhere (inv : c.Invariant) (p : Value → Bool) :
    let after := c.items.foldl (fun c node => if p node.value then c.eraseAt node else c) c
    after.Invariant ∧ after.contents = c.contents.filter (fun entry => !p entry.2) ∧ after.capacity = c.capacity := by
  have walk : ∀ (rest front : List (LruNode Key Value)) (c : LruCache Key Value), c.Invariant → c.items = front ++ rest →
      (rest.foldl (fun c node => if p node.value then c.eraseAt node else c) c).Invariant ∧
      (rest.foldl (fun c node => if p node.value then c.eraseAt node else c) c).items =
        front ++ rest.filter (fun node => !p node.value) ∧
      (rest.foldl (fun c node => if p node.value then c.eraseAt node else c) c).capacity = c.capacity := by
    intro rest
    induction rest with
    | nil => exact fun front c inv whole => ⟨inv, whole, rfl⟩
    | cons node rest ih =>
      intro front c inv whole
      have member : node ∈ c.items := whole ▸ List.mem_append_right front List.mem_cons_self
      rw [List.foldl_cons]
      split
      case isTrue erased =>
        rw [List.filter_cons_of_neg (by simpa using erased)]
        exact ih front (c.eraseAt node) (inv.eraseAt member).1 (inv.eraseAt_items whole)
      case isFalse kept =>
        rw [List.filter_cons_of_pos (by simpa using kept)]
        have later := ih (front ++ [node]) c inv (by rw [whole, List.append_assoc, List.singleton_append])
        rwa [List.append_assoc, List.singleton_append] at later
  obtain ⟨kept, items, capacity⟩ := walk c.items [] c inv rfl
  refine ⟨kept, ?_, capacity⟩
  rw [contents, items, List.nil_append, contents, List.filter_map]
  rfl

/-- The least recently used node is erased. -/
theorem Invariant.evictLru (inv : c.Invariant) :
    c.evictLru.Invariant ∧ c.evictLru.contents = c.contents.dropLast ∧ c.evictLru.capacity = c.capacity := by
  unfold LruCache.evictLru
  split
  case h_1 empty =>
    have none : c.contents = [] := by rw [contents, List.getLast?_eq_none_iff.mp empty, List.map_nil]
    exact ⟨inv, by rw [none, List.dropLast_nil], rfl⟩
  case h_2 last found =>
    have whole : c.items = c.items.dropLast ++ [last] := (List.dropLast_append_getLast? last found).symm
    have member : last ∈ c.items := List.mem_of_getLast? found
    obtain ⟨kept, _⟩ := inv.eraseAt member
    have front : (c.eraseAt last).items = c.items.dropLast := by
      rw [inv.eraseAt_items whole, List.append_nil]
    refine ⟨?_, ?_, rfl⟩
    · rw [← front]
      exact kept
    · rw [contents, contents, List.map_dropLast]

end Pointers

section Put
variable {value : Value}

/-- A new node goes to the front. -/
theorem Invariant.emplaceFront (inv : c.Invariant) (missing : key ∉ c.contents.map Prod.fst)
    (room : c.items.length < c.capacity) :
    ({ c with
        items := ⟨c.allocated, key, value⟩ :: c.items
        index := c.index.insert key c.allocated
        allocated := c.allocated + 1 } : LruCache Key Value).Invariant := by
  rw [contents_keys] at missing
  refine ⟨?_, ?_, ?_, ?_, room⟩
  · refine List.nodup_cons.mpr ⟨fun member => ?_, inv.addresses⟩
    obtain ⟨node, inItems, same⟩ := List.mem_map.mp member
    exact absurd same (Nat.ne_of_lt (inv.allocated node inItems))
  · intro node member
    rcases List.mem_cons.mp member with rfl | old
    · exact Nat.lt_succ_self _
    · exact Nat.lt_succ_of_lt (inv.allocated node old)
  · exact List.nodup_cons.mpr ⟨missing, inv.keys⟩
  · intro other it
    rw [UnorderedMap.lookup_insert_eq]
    by_cases same : other = key
    · rw [if_pos same]
      constructor
      · intro found
        exact ⟨_, List.mem_cons_self, same.symm, Option.some.inj found⟩
      · rintro ⟨node, member, atKey, rfl⟩
        rcases List.mem_cons.mp member with rfl | old
        · rfl
        · exact absurd (List.mem_map.mpr ⟨node, old, atKey.trans same⟩) missing
    · rw [if_neg same, inv.indexed]
      constructor
      · rintro ⟨node, member, atKey, atAddress⟩
        exact ⟨node, List.mem_cons_of_mem _ member, atKey, atAddress⟩
      · rintro ⟨node, member, atKey, atAddress⟩
        rcases List.mem_cons.mp member with rfl | old
        · exact absurd atKey.symm same
        · exact ⟨node, old, atKey, atAddress⟩

/-- `put` uses the key, with the new value, and keeps as many entries as the
capacity allows. -/
theorem Invariant.put (inv : c.Invariant) (positive : 0 < c.capacity) (key : Key) (value : Value) :
    (c.put key value).2.Invariant ∧ (c.put key value).2.contents = (touch key value c.contents).take c.capacity ∧
      (c.put key value).2.Points (c.put key value).1 key ∧ (c.put key value).2.capacity = c.capacity := by
  unfold LruCache.put
  cases found : c.index.lookup key with
  | some it =>
    obtain ⟨node, member, rfl, rfl⟩ := (inv.indexed key it).mp found
    have written : { node with value := value } ∈ (c.modifyAt node.address fun _ => value).items :=
      List.mem_map.mpr ⟨node, member, if_pos rfl⟩
    obtain ⟨kept, moved⟩ := (inv.modifyAt node.address fun _ => value).splice written
    have used : ((c.modifyAt node.address fun _ => value).splice node.address).contents =
        touch node.key value c.contents := by
      refine (splice_contents moved).trans ?_
      rw [inv.contents_modifyAt ⟨node, member, rfl, rfl⟩]
      exact congrArg ((node.key, value) :: ·) (without_map node.key (fun _ => value) c.contents)
    refine ⟨kept, ?_, ⟨{ node with value := value }, ?_, rfl, rfl⟩, rfl⟩
    · rw [← used]
      refine (List.take_of_length_le ?_).symm
      rw [contents, List.length_map]
      exact kept.bounded
    · rw [moved]
      exact List.mem_cons_self
  | none =>
    have missing := inv.lookup_none.mp found
    simp only
    by_cases full : c.capacity ≤ c.index.keys.length
    · obtain ⟨kept, contentsEq, capacityEq⟩ := inv.evictLru
      rw [if_pos full]
      have length : c.contents.length = c.capacity := by
        rw [contents, List.length_map]
        exact Nat.le_antisymm inv.bounded (inv.length_index ▸ full)
      have gone : key ∉ c.evictLru.contents.map Prod.fst := by
        rw [contentsEq]
        exact fun member => missing ((List.dropLast_sublist _).map Prod.fst |>.subset member)
      have room : c.evictLru.items.length < c.evictLru.capacity := by
        have shorter := congrArg List.length contentsEq
        rw [contents, List.length_map, List.length_dropLast, length] at shorter
        omega
      refine ⟨kept.emplaceFront gone room, ?_, ⟨_, List.mem_cons_self, rfl, rfl⟩, capacityEq⟩
      rw [take_touch_of_full value missing length positive, ← contentsEq]
      rfl
    · rw [if_neg full]
      have room : c.items.length < c.capacity := by
        rw [inv.length_index] at full
        omega
      refine ⟨inv.emplaceFront missing room, ?_, ⟨_, List.mem_cons_self, rfl, rfl⟩, rfl⟩
      rw [take_touch_of_room value missing (by rw [contents, List.length_map]; exact room)]
      rfl

end Put

end LruCache

end BittorrentClient
