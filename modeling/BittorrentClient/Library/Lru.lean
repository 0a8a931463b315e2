import BittorrentClient.Library.Recency
import Mathlib.Data.Finset.Card

namespace Lru
open Recency

variable {κ α : Type}

/-- A call of a cache whose entries are pointed to by an `ι`. -/
inductive Call (κ α ι : Type)
  | get (key : κ)
  | contains (key : κ)
  | put (key : κ) (value : α)
  | erase (key : κ)
  | eraseAt (pos : ι)
  | clear
  | lruKey

inductive Answer (κ α : Type)
  | value (value : Option α)
  | flag (flag : Bool)
  | key (key : Option κ)
  | done

/-- The keys that are there, the latest value put for each key, and the time of
its last use. -/
structure State (κ α : Type) where
  keys : Finset κ
  value : κ → Option α
  used : κ → Nat
  clock : Nat

namespace State

def empty : State κ α := ⟨∅, fun _ => none, fun _ => 0, 0⟩

/-- No key that is there was used longer ago. -/
def Least (s : State κ α) (key : κ) : Prop := key ∈ s.keys ∧ ∀ other ∈ s.keys, s.used key ≤ s.used other

/-- The key that was used last before another one. -/
def Precedes (s : State κ α) (key : κ) : Option κ → Prop
  | none => ∀ other ∈ s.keys, s.used key ≤ s.used other
  | some next => next ∈ s.keys ∧ s.used next < s.used key ∧ ∀ other ∈ s.keys, s.used other < s.used key → s.used other ≤ s.used next

variable [DecidableEq κ]

def use (s : State κ α) (key : κ) : State κ α :=
  { s with used := Function.update s.used key s.clock, clock := s.clock + 1 }

/-- A value is put for a key, which takes its place among the given ones. -/
def store (s : State κ α) (keys : Finset κ) (key : κ) (value : α) : State κ α :=
  ({ s with keys := insert key keys, value := Function.update s.value key (some value) } : State κ α).use key

def remove (s : State κ α) (key : κ) : State κ α := { s with keys := s.keys.erase key }

end State

/-- What a cache that evicts the least recently used key does at each call. -/
inductive Step [DecidableEq κ] (capacity : Nat) (s : State κ α) : Call κ α κ → Answer κ α → State κ α → Prop
  | hit {key} (member : key ∈ s.keys) : Step capacity s (.get key) (.value (s.value key)) (s.use key)
  | miss {key} (missing : key ∉ s.keys) : Step capacity s (.get key) (.value none) s
  | contains {key} : Step capacity s (.contains key) (.flag (decide (key ∈ s.keys))) s
  | overwrite {key value} (member : key ∈ s.keys) :
      Step capacity s (.put key value) (.value (some value)) (s.store s.keys key value)
  | add {key value} (missing : key ∉ s.keys) (room : s.keys.card < capacity) :
      Step capacity s (.put key value) (.value (some value)) (s.store s.keys key value)
  | evict {key value victim} (missing : key ∉ s.keys) (full : s.keys.card = capacity) (least : s.Least victim) :
      Step capacity s (.put key value) (.value (some value)) (s.store (s.keys.erase victim) key value)
  | erase {key} : Step capacity s (.erase key) (.flag (decide (key ∈ s.keys))) (s.remove key)
  | eraseAt {pos next} (member : pos ∈ s.keys) (precedes : s.Precedes pos next) :
      Step capacity s (.eraseAt pos) (.key next) (s.remove pos)
  | clear : Step capacity s .clear .done { s with keys := ∅ }
  | lruKey {key} (least : s.Least key) : Step capacity s .lruKey (.key (some key)) s
  | noKey (vacant : s.keys = ∅) : Step capacity s .lruKey (.key none) s

inductive Run [DecidableEq κ] (capacity : Nat) : State κ α → List (Call κ α κ × Answer κ α) → State κ α → Prop
  | nil {s} : Run capacity s [] s
  | cons {s t u call answer rest} (step : Step capacity s call answer t) (run : Run capacity t rest u) :
      Run capacity s ((call, answer) :: rest) u

/-- The entries are those of the state, the most recently used one in front. -/
structure Lists (entries : List (κ × α)) (s : State κ α) : Prop where
  distinct : (entries.map Prod.fst).Nodup
  keys : ∀ key, key ∈ s.keys ↔ key ∈ entries.map Prod.fst
  values : ∀ entry ∈ entries, s.value entry.1 = some entry.2
  order : entries.Pairwise fun a b => s.used b.1 < s.used a.1
  past : ∀ entry ∈ entries, s.used entry.1 < s.clock

namespace Lists
variable {entries : List (κ × α)} {s : State κ α} {key : κ} {value : α}

theorem empty : Lists [] (State.empty : State κ α) where
  distinct := List.nodup_nil
  keys := fun key => by
    rw [State.empty, List.map_nil]
    exact ⟨fun member => absurd member (Finset.notMem_empty key), fun member => absurd member List.not_mem_nil⟩
  values := fun _ member => absurd member List.not_mem_nil
  order := List.Pairwise.nil
  past := fun _ member => absurd member List.not_mem_nil

/-- A sublist, with the keys that are left. -/
theorem sublist (lists : Lists entries s) {kept : List (κ × α)} (sub : kept.Sublist entries) {keys : Finset κ}
    (left : ∀ key, key ∈ keys ↔ key ∈ kept.map Prod.fst) : Lists kept { s with keys := keys } where
  distinct := lists.distinct.sublist (sub.map Prod.fst)
  keys := left
  values := fun entry member => lists.values entry (sub.subset member)
  order := lists.order.sublist sub
  past := fun entry member => lists.past entry (sub.subset member)

/-- The last entry is the least recently used one. -/
theorem least (lists : Lists entries s) {last : κ × α} (found : entries.getLast? = some last) : s.Least last.1 := by
  have whole : entries = entries.dropLast ++ [last] := (List.dropLast_append_getLast? last found).symm
  refine ⟨(lists.keys last.1).mpr (List.mem_map_of_mem (List.mem_of_getLast? found)), fun other member => ?_⟩
  obtain ⟨entry, inEntries, rfl⟩ := List.mem_map.mp ((lists.keys other).mp member)
  have order := lists.order
  rw [whole, List.pairwise_append] at order
  rw [whole, List.mem_append, List.mem_singleton] at inEntries
  rcases inEntries with front | rfl
  · exact Nat.le_of_lt (order.2.2 entry front last (List.mem_singleton_self last))
  · exact Nat.le_refl _

/-- The entry behind another one was used last before it. -/
theorem precedes {front back : List (κ × α)} {entry : κ × α} (lists : Lists (front ++ entry :: back) s) :
    s.Precedes entry.1 (back.head?.map Prod.fst) := by
  have order := lists.order
  rw [List.pairwise_append, List.pairwise_cons] at order
  obtain ⟨_, ⟨behind, later⟩, earlier⟩ := order
  have cases : ∀ other ∈ s.keys, s.used entry.1 ≤ s.used other ∨ ∃ next ∈ back, next.1 = other := by
    intro other member
    obtain ⟨item, inEntries, rfl⟩ := List.mem_map.mp ((lists.keys other).mp member)
    rcases List.mem_append.mp inEntries with before | inRest
    · exact Or.inl (Nat.le_of_lt (earlier item before entry List.mem_cons_self))
    · rcases List.mem_cons.mp inRest with rfl | after
      · exact Or.inl (Nat.le_refl _)
      · exact Or.inr ⟨item, after, rfl⟩
  cases back with
  | nil => exact fun other member => (cases other member).resolve_right fun ⟨_, member, _⟩ => absurd member List.not_mem_nil
  | cons next rest =>
    refine ⟨(lists.keys next.1).mpr ?_, behind next List.mem_cons_self, fun other member before => ?_⟩
    · exact List.mem_map_of_mem (List.mem_append_right front (List.mem_cons_of_mem entry List.mem_cons_self))
    · obtain ⟨item, after, rfl⟩ := (cases other member).resolve_left (Nat.not_le.mpr before)
      rcases List.mem_cons.mp after with rfl | further
      · exact Nat.le_refl _
      · exact Nat.le_of_lt ((List.pairwise_cons.mp later).1 item further)

section Keys
variable [DecidableEq κ]

theorem card (lists : Lists entries s) : s.keys.card = entries.length := by
  have same : s.keys = (entries.map Prod.fst).toFinset := by
    ext key
    rw [lists.keys, List.mem_toFinset]
  rw [same, List.toFinset_card_of_nodup lists.distinct, List.length_map]

theorem without (lists : Lists entries s) (key : κ) : Lists (Recency.without key entries) (s.remove key) := by
  refine lists.sublist List.filter_sublist fun other => ?_
  rw [Finset.mem_erase, lists.keys, List.mem_map, List.mem_map]
  constructor
  · rintro ⟨different, entry, member, rfl⟩
    exact ⟨entry, mem_without.mpr ⟨member, different⟩, rfl⟩
  · rintro ⟨entry, kept, rfl⟩
    obtain ⟨member, different⟩ := mem_without.mp kept
    exact ⟨different, entry, member, rfl⟩

/-- What is used comes to the front, and its time is later than all others. -/
theorem store (lists : Lists entries s) (key : κ) (value : α) : Lists (touch key value entries) (s.store s.keys key value) := by
  have others : ∀ entry ∈ Recency.without key entries, entry ∈ entries ∧ entry.1 ≠ key := fun _ => mem_without.mp
  have time : ∀ entry ∈ Recency.without key entries, (s.store s.keys key value).used entry.1 = s.used entry.1 :=
    fun entry member => Function.update_of_ne (others entry member).2 _ _
  have now : (s.store s.keys key value).used key = s.clock := Function.update_self ..
  refine ⟨nodup_touch lists.distinct, ?_, ?_, ?_, ?_⟩
  · intro other
    rw [touch, List.map_cons, List.mem_cons]
    change other ∈ insert key s.keys ↔ _
    rw [Finset.mem_insert]
    by_cases same : other = key
    · exact ⟨fun _ => Or.inl same, fun _ => Or.inl same⟩
    · have kept := (lists.without key).keys other
      rw [State.remove, Finset.mem_erase] at kept
      exact ⟨fun either => either.imp_right fun member => kept.mp ⟨same, member⟩,
        fun either => either.imp_right fun member => (kept.mpr member).2⟩
  · intro entry member
    rcases List.mem_cons.mp member with rfl | old
    · exact Function.update_self ..
    · exact (Function.update_of_ne (others entry old).2 _ _).trans (lists.values entry (others entry old).1)
  · refine List.pairwise_cons.mpr ⟨fun entry member => ?_, ?_⟩
    · rw [time entry member, now]
      exact lists.past entry (others entry member).1
    · refine (lists.order.sublist List.filter_sublist).imp_of_mem fun {a b} memberA memberB before => ?_
      rw [time a memberA, time b memberB]
      exact before
  · intro entry member
    rcases List.mem_cons.mp member with rfl | old
    · exact now.trans_lt (Nat.lt_succ_self _)
    · rw [time entry old]
      exact Nat.lt_succ_of_lt (lists.past entry (others entry old).1)

/-- A use without a new value. -/
theorem use (lists : Lists entries s) (member : (key, value) ∈ entries) : Lists (touch key value entries) (s.use key) := by
  have held : key ∈ s.keys := (lists.keys key).mpr (List.mem_map_of_mem member)
  have same : s.store s.keys key value = s.use key := by
    rw [State.store, Finset.insert_eq_of_mem held, ← lists.values _ member, Function.update_eq_self]
  rw [← same]
  exact lists.store key value

/-- Without its last entry, the list is that of the state without the least
recently used key. -/
theorem dropLast (lists : Lists entries s) {last : κ × α} (found : entries.getLast? = some last) :
    Lists entries.dropLast (s.remove last.1) := by
  have whole : entries = entries.dropLast ++ [last] := (List.dropLast_append_getLast? last found).symm
  have distinct := lists.distinct
  rw [whole, List.map_append, List.nodup_append] at distinct
  refine lists.sublist (List.dropLast_sublist entries) fun key => ?_
  rw [Finset.mem_erase, lists.keys]
  constructor
  · rintro ⟨different, member⟩
    rw [whole, List.map_append, List.mem_append, List.map_singleton, List.mem_singleton] at member
    exact member.resolve_right different
  · intro member
    exact ⟨distinct.2.2 key member last.1 (List.mem_singleton_self _),
      ((List.dropLast_sublist entries).map Prod.fst).subset member⟩

end Keys

end Lists

end Lru
