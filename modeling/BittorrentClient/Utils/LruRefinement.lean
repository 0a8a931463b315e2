import BittorrentClient.Library.Lru
import BittorrentClient.Utils.LruOrder

namespace BittorrentClient
open Cpp Recency Lru

namespace LruCache

variable {Key Value : Type} [DecidableEq Key]

/-- A call, with what it says about keys in place of nodes and its answer. An
iterator has to refer to a node. -/
def call (c : LruCache Key Value) :
    Call Key Value Nat → Option ((Call Key Value Key × Answer Key Value) × LruCache Key Value)
  | .get key =>
    let (pointer, after) := c.get key
    some ((.get key, .value (pointer.bind after.valueAt)), after)
  | .contains key => some ((.contains key, .flag (c.contains key)), c)
  | .put key value =>
    let (reference, after) := c.put key value
    some ((.put key value, .value (after.valueAt reference)), after)
  | .erase key =>
    let (erased, after) := c.erase key
    some ((.erase key, .flag erased), after)
  | .eraseAt it =>
    match c.items.find? (fun node => node.address = it) with
    | none => none
    | some pos => some ((.eraseAt pos.key, .key ((c.following pos).map LruNode.key)), c.eraseAt pos)
  | .clear => some ((.clear, .done), c.clear)
  | .lruKey => some ((.lruKey, .key c.lruKey), c)

def calls (c : LruCache Key Value) :
    List (Call Key Value Nat) → Option (List (Call Key Value Key × Answer Key Value) × LruCache Key Value)
  | [] => some ([], c)
  | first :: rest =>
    match c.call first with
    | none => none
    | some (answered, after) =>
      match calls after rest with
      | none => none
      | some (trace, last) => some (answered :: trace, last)

/-- The two structures hold the entries of the state, in the order of their last
uses. -/
structure Refines (capacity : Nat) (c : LruCache Key Value) (s : State Key Value) : Prop where
  invariant : c.Invariant
  capacity : c.capacity = capacity
  lists : Lists c.contents s

namespace Refines
variable {capacity : Nat} {c after : LruCache Key Value} {s : State Key Value} {key : Key} {value : Value}

theorem make (capacity : Nat) : Refines capacity (LruCache.make capacity : LruCache Key Value) State.empty :=
  ⟨invariant_make capacity, rfl, Lists.empty⟩

theorem length_contents (refines : Refines capacity c s) : c.contents.length ≤ capacity := by
  rw [contents, List.length_map, ← refines.capacity]
  exact refines.invariant.bounded

theorem contains_eq (refines : Refines capacity c s) (key : Key) : c.contains key = decide (key ∈ s.keys) := by
  have missing : c.index.lookup key = none ↔ key ∉ s.keys :=
    refines.invariant.lookup_none.trans (not_congr (refines.lists.keys key).symm)
  rw [LruCache.contains]
  cases found : c.index.lookup key with
  | none => exact (decide_eq_false (missing.mp found)).symm
  | some it =>
    have held : key ∈ s.keys := Decidable.of_not_not fun absent => nomatch found.symm.trans (missing.mpr absent)
    exact (decide_eq_true held).symm

/-- What a pointer to the value of a key reads. -/
theorem valueAt_eq (refines : Refines capacity c s) {it : Nat} (points : c.Points it key) : c.valueAt it = s.value key := by
  obtain ⟨value, member, read⟩ := refines.invariant.valueAt points
  rw [read]
  exact (refines.lists.values _ member).symm

theorem get (refines : Refines capacity c s) (key : Key) :
    ∃ t, Step capacity s (.get key) (.value ((c.get key).1.bind (c.get key).2.valueAt)) t ∧
      Refines capacity (c.get key).2 t := by
  rcases refines.invariant.get_cases key with ⟨missing, result⟩ | ⟨it, value, member, result, kept, points, used⟩
  · rw [result]
    exact ⟨s, .miss fun held => missing ((refines.lists.keys key).mp held), refines⟩
  · have later : Refines capacity (c.splice it) (s.use key) :=
      ⟨kept, refines.capacity, used ▸ refines.lists.use member⟩
    rw [result]
    refine ⟨s.use key, ?_, later⟩
    rw [Option.bind_some, later.valueAt_eq points]
    exact .hit ((refines.lists.keys key).mpr (List.mem_map_of_mem member))

theorem put (refines : Refines capacity c s) (positive : 0 < capacity) (key : Key) (value : Value) :
    ∃ t, Step capacity s (.put key value) (.value ((c.put key value).2.valueAt (c.put key value).1)) t ∧
      Refines capacity (c.put key value).2 t := by
  obtain ⟨kept, used, points, same⟩ :=
    refines.invariant.put (refines.capacity.symm ▸ positive) key value
  rw [refines.capacity] at used same
  have finish : ∀ keys, Lists (c.put key value).2.contents (s.store keys key value) →
      Step capacity s (.put key value) (.value (some value)) (s.store keys key value) →
      ∃ t, Step capacity s (.put key value) (.value ((c.put key value).2.valueAt (c.put key value).1)) t ∧
        Refines capacity (c.put key value).2 t := by
    intro keys lists step
    have later : Refines capacity (c.put key value).2 (s.store keys key value) := ⟨kept, same, lists⟩
    have stored : (s.store keys key value).value key = some value := Function.update_self ..
    refine ⟨_, ?_, later⟩
    rw [later.valueAt_eq points, stored]
    exact step
  have stored := refines.lists.store key value
  by_cases held : key ∈ s.keys
  · have fits : (touch key value c.contents).length ≤ capacity := by
      have size : (touch key value c.contents).length = s.keys.card :=
        stored.card.symm.trans (congrArg Finset.card (Finset.insert_eq_of_mem held))
      rw [size, refines.lists.card]
      exact refines.length_contents
    refine finish s.keys ?_ (.overwrite held)
    rw [used, List.take_of_length_le fits]
    exact stored
  · have missing : key ∉ c.contents.map Prod.fst := fun member => held ((refines.lists.keys key).mpr member)
    rcases Nat.lt_or_ge c.contents.length capacity with room | full
    · refine finish s.keys ?_ (.add held (refines.lists.card ▸ room))
      rw [used, take_touch_of_room value missing room, ← without_of_notMem missing]
      exact stored
    · have exact_ : c.contents.length = capacity := Nat.le_antisymm refines.length_contents full
      obtain ⟨last, found⟩ : ∃ last, c.contents.getLast? = some last := by
        cases found : c.contents.getLast? with
        | none =>
          rw [List.getLast?_eq_none_iff.mp found, List.length_nil] at exact_
          omega
        | some last => exact ⟨last, rfl⟩
      have dropped := refines.lists.dropLast found
      have gone : key ∉ c.contents.dropLast.map Prod.fst :=
        fun member => missing (((List.dropLast_sublist _).map Prod.fst).subset member)
      refine finish (s.keys.erase last.1) ?_ (.evict held (refines.lists.card.trans exact_) (refines.lists.least found))
      rw [used, take_touch_of_full value missing exact_ positive, ← without_of_notMem gone]
      exact dropped.store key value

theorem eraseNode (refines : Refines capacity c s) {pos : LruNode Key Value} (member : pos ∈ c.items) :
    Refines capacity (c.eraseAt pos) (s.remove pos.key) := by
  obtain ⟨kept, left⟩ := refines.invariant.eraseAt member
  exact ⟨kept, refines.capacity, left ▸ refines.lists.without pos.key⟩

theorem mem_keys (refines : Refines capacity c s) {pos : LruNode Key Value} (member : pos ∈ c.items) : pos.key ∈ s.keys := by
  rw [refines.lists.keys, contents_keys]
  exact List.mem_map_of_mem member

theorem erase (refines : Refines capacity c s) (key : Key) :
    ∃ t, Step capacity s (.erase key) (.flag (c.erase key).1) t ∧ Refines capacity (c.erase key).2 t := by
  have present := refines.contains_eq key
  rw [LruCache.contains] at present
  refine ⟨s.remove key, ?_⟩
  cases found : c.index.lookup key with
  | none =>
    rw [found] at present
    have missing : key ∉ s.keys := of_decide_eq_false present.symm
    have same : s.remove key = s := by rw [State.remove, Finset.erase_eq_of_notMem missing]
    have result : c.erase key = (false, c) := by rw [LruCache.erase, found]
    have step : Step capacity s (.erase key) (.flag (decide (key ∈ s.keys))) (s.remove key) := .erase
    rw [← present] at step
    rw [result]
    exact ⟨step, same.symm ▸ refines⟩
  | some it =>
    obtain ⟨pos, member, rfl, rfl⟩ := (refines.invariant.indexed key it).mp found
    have result : c.erase pos.key = (true, c.eraseAt pos) := by
      rw [LruCache.erase, found]
      rfl
    have step : Step capacity s (.erase pos.key) (.flag (decide (pos.key ∈ s.keys))) (s.remove pos.key) := .erase
    rw [decide_eq_true (refines.mem_keys member)] at step
    rw [result]
    exact ⟨step, refines.eraseNode member⟩

/-- The node that `erase` returns is the next in the order of use. -/
theorem following (refines : Refines capacity c s) {pos : LruNode Key Value} (member : pos ∈ c.items) :
    s.Precedes pos.key ((c.following pos).map LruNode.key) := by
  obtain ⟨front, back, whole⟩ := List.append_of_mem member
  have apart : ∀ node ∈ front, decide (node.address ≠ pos.address) = true := by
    have distinct := refines.invariant.addresses
    rw [whole, List.map_append, List.nodup_append] at distinct
    intro node inFront
    exact decide_eq_true (distinct.2.2 _ (List.mem_map_of_mem inFront) _ List.mem_cons_self)
  have next : c.following pos = back.head? := by
    rw [LruCache.following, whole, List.dropWhile_append_of_pos apart, List.dropWhile_cons_of_neg (by simp), List.tail_cons]
  have lists := refines.lists
  rw [contents, whole, List.map_append, List.map_cons] at lists
  have precedes := lists.precedes
  rw [List.head?_map, Option.map_map] at precedes
  rw [next]
  exact precedes

theorem lruKey (refines : Refines capacity c s) : Step capacity s .lruKey (.key c.lruKey) s := by
  have last : c.contents.getLast? = c.items.getLast?.map fun node => (node.key, node.value) := List.getLast?_map
  rw [LruCache.lruKey]
  cases found : c.items.getLast? with
  | none =>
    refine .noKey (Finset.card_eq_zero.mp ?_)
    rw [refines.lists.card, contents, List.getLast?_eq_none_iff.mp found, List.map_nil, List.length_nil]
  | some node =>
    rw [found, Option.map_some] at last
    exact .lruKey (refines.lists.least last)

theorem clear (refines : Refines capacity c s) : Refines capacity c.clear { s with keys := ∅ } := by
  refine ⟨invariant_vacant _ _, refines.capacity, refines.lists.sublist (List.nil_sublist _) fun key => ?_⟩
  exact ⟨fun member => absurd member (Finset.notMem_empty key), fun member => absurd member List.not_mem_nil⟩

/-- One call of the cache is one of the specification. -/
theorem call (refines : Refines capacity c s) (positive : 0 < capacity) {op : Call Key Value Nat}
    {answered : Call Key Value Key × Answer Key Value} (run : c.call op = some (answered, after)) :
    ∃ t, Step capacity s answered.1 answered.2 t ∧ Refines capacity after t := by
  cases op with
  | get key =>
    cases run
    exact refines.get key
  | contains key =>
    cases run
    rw [refines.contains_eq key]
    exact ⟨s, .contains, refines⟩
  | put key value =>
    cases run
    exact refines.put positive key value
  | erase key =>
    cases run
    exact refines.erase key
  | eraseAt it =>
    rw [LruCache.call] at run
    split at run
    case h_1 => cases run
    case h_2 pos found =>
      cases run
      have member := List.mem_of_find?_eq_some found
      exact ⟨_, .eraseAt (refines.mem_keys member) (refines.following member), refines.eraseNode member⟩
  | clear =>
    cases run
    exact ⟨_, .clear, refines.clear⟩
  | lruKey =>
    cases run
    exact ⟨s, refines.lruKey, refines⟩

theorem calls (refines : Refines capacity c s) (positive : 0 < capacity) {ops : List (Call Key Value Nat)}
    {trace : List (Call Key Value Key × Answer Key Value)} (run : c.calls ops = some (trace, after)) :
    ∃ t, Run capacity s trace t ∧ Refines capacity after t := by
  induction ops generalizing c s trace with
  | nil =>
    cases run
    exact ⟨s, .nil, refines⟩
  | cons op rest ih =>
    rw [LruCache.calls] at run
    split at run
    case h_1 => cases run
    case h_2 answered middle first =>
      split at run
      case h_1 => cases run
      case h_2 tail last others =>
        cases run
        obtain ⟨t, step, next⟩ := refines.call positive first
        obtain ⟨u, steps, reached⟩ := ih next others
        exact ⟨u, .cons step steps, reached⟩

theorem get_eq (refines : Refines capacity c s) (key : Key) :
    (c.get key).1.bind (c.get key).2.valueAt = if key ∈ s.keys then s.value key else none := by
  obtain ⟨t, step, _⟩ := refines.get key
  generalize (c.get key).1.bind (c.get key).2.valueAt = answer at step
  cases step with
  | hit member => rw [if_pos member]
  | miss missing => rw [if_neg missing]

/-- A new key in a full cache costs the least recently used one. -/
theorem put_full (refines : Refines capacity c s) (positive : 0 < capacity) (missing : key ∉ s.keys)
    (full : s.keys.card = capacity) (value : Value) :
    ∃ victim, s.Least victim ∧ ∀ other, other ∈ (c.put key value).2.items.map (·.key) ↔
      other = key ∨ other ∈ s.keys ∧ other ≠ victim := by
  obtain ⟨t, step, later⟩ := refines.put positive key value
  generalize (c.put key value).2.valueAt (c.put key value).1 = answer at step
  cases step with
  | overwrite member => exact absurd member missing
  | add _ room => exact absurd full (Nat.ne_of_lt room)
  | evict _ _ least =>
    refine ⟨_, least, fun other => ?_⟩
    rw [← contents_keys, ← later.lists.keys]
    change other ∈ insert key (s.keys.erase _) ↔ _
    rw [Finset.mem_insert, Finset.mem_erase, and_comm]

end Refines

/-- Only an iterator that refers to nothing has no answer. -/
theorem call_isSome {c : LruCache Key Value} {op : Call Key Value Nat}
    (valid : ∀ it, op = .eraseAt it → ∃ node ∈ c.items, node.address = it) : (c.call op).isSome = true := by
  cases op with
  | eraseAt it =>
    obtain ⟨node, member, refers⟩ := valid it rfl
    rw [call]
    split
    case h_1 missing => exact absurd refers (by simpa using List.find?_eq_none.mp missing node member)
    case h_2 => rfl
  | _ => rfl

/-- The cache is one that evicts the least recently used key. -/
theorem refines_lru {capacity : Nat} (positive : 0 < capacity) {ops : List (Call Key Value Nat)}
    {trace : List (Call Key Value Key × Answer Key Value)} {c : LruCache Key Value}
    (run : (make capacity : LruCache Key Value).calls ops = some (trace, c)) :
    ∃ s, Run capacity State.empty trace s ∧
      c.index.keys.Perm (c.items.map (·.key)) ∧ (c.items.map (·.key)).Nodup ∧ c.items.length ≤ capacity ∧
      (∀ key, key ∈ c.items.map (·.key) ↔ key ∈ s.keys) ∧
      (c.items.map (·.key)).Pairwise (fun a b => s.used b < s.used a) ∧
      (∀ key, c.contains key = decide (key ∈ s.keys) ∧
        (c.get key).1.bind (c.get key).2.valueAt = if key ∈ s.keys then s.value key else none) ∧
      (∀ key value, key ∉ s.keys → c.items.length = capacity → ∃ victim, s.Least victim ∧
        ∀ other, other ∈ (c.put key value).2.items.map (·.key) ↔ other = key ∨ other ∈ s.keys ∧ other ≠ victim) ∧
      ∀ op, (∀ it, op = .eraseAt it → ∃ node ∈ c.items, node.address = it) → (c.call op).isSome = true := by
  obtain ⟨s, steps, refines⟩ := (Refines.make capacity).calls positive run
  have inv := refines.invariant
  have keys : ∀ key, key ∈ c.items.map (·.key) ↔ key ∈ s.keys := by
    intro key
    rw [refines.lists.keys, contents_keys]
  refine ⟨s, steps, inv.keys_perm, inv.keys, refines.capacity ▸ inv.bounded, keys, ?order,
    fun key => ⟨refines.contains_eq key, refines.get_eq key⟩, ?evicts, fun _ => call_isSome⟩
  case order =>
    rw [← contents_keys]
    exact List.pairwise_map.mpr refines.lists.order
  case evicts =>
    intro key value missing full
    refine refines.put_full positive missing ?_ value
    rw [refines.lists.card, contents, List.length_map, full]

/-- A room for two: the second key makes way for the third, since the first was
used again. -/
theorem refines_lru_two : ∃ (trace : List (Call Nat Nat Nat × Answer Nat Nat)) (c : LruCache Nat Nat),
    (make 2 : LruCache Nat Nat).calls [.put 1 10, .put 2 20, .get 1, .put 3 30] = some (trace, c) ∧
      c.items.map (·.key) = [3, 1] ∧ ∃ s, Run 2 State.empty trace s ∧ s.keys = {3, 1} := by
  obtain ⟨s, steps, _, _, _, keys, _⟩ :=
    @refines_lru Nat Nat _ 2 (by decide) [.put 1 10, .put 2 20, .get 1, .put 3 30] _ _ rfl
  refine ⟨_, _, rfl, rfl, s, steps, ?_⟩
  ext key
  rw [← keys key]
  change key ∈ [3, 1] ↔ _
  simp

end LruCache

end BittorrentClient
