import Mathlib.Data.List.Basic
import Mathlib.Data.List.Nodup

namespace Recency

variable {κ α : Type} [DecidableEq κ]

/-- The entries without the one of a key. -/
def without (key : κ) (entries : List (κ × α)) : List (κ × α) := entries.filter (fun entry => entry.1 ≠ key)

/-- A key is used, with a new value, and comes to the front. -/
def touch (key : κ) (value : α) (entries : List (κ × α)) : List (κ × α) := (key, value) :: without key entries

/-- The first entry of each key of a history that begins with what is latest. -/
def latest (history : List (κ × α)) : List (κ × α) := history.eraseDupsBy (fun a b => a.1 == b.1)

theorem mem_without {key : κ} {entries : List (κ × α)} {entry : κ × α} :
    entry ∈ without key entries ↔ entry ∈ entries ∧ entry.1 ≠ key := by
  simp [without]

theorem without_of_notMem {key : κ} {entries : List (κ × α)} (missing : key ∉ entries.map Prod.fst) :
    without key entries = entries := by
  refine List.filter_eq_self.mpr fun entry member => ?_
  simpa using fun same : entry.1 = key => missing (same ▸ List.mem_map_of_mem member)

theorem without_map (key : κ) (f : α → α) (entries : List (κ × α)) :
    without key (entries.map fun entry => if entry.1 = key then (entry.1, f entry.2) else entry) =
      without key entries := by
  induction entries with
  | nil => rfl
  | cons entry rest ih =>
    simp only [without, List.map_cons] at ih ⊢
    by_cases same : entry.1 = key
    · rw [if_pos same, List.filter_cons_of_neg (by simpa using same), List.filter_cons_of_neg (by simpa using same), ih]
    · rw [if_neg same, List.filter_cons_of_pos (by simpa using same), List.filter_cons_of_pos (by simpa using same), ih]

theorem touch_append (key : κ) (value : α) (entries rest : List (κ × α)) :
    touch key value (entries ++ rest) = touch key value entries ++ without key rest := by
  rw [touch, touch, without, without, without, List.filter_append, List.cons_append]

/-- A new key in a full list takes the place of the last entry. -/
theorem take_touch_of_full {key : κ} (value : α) {entries : List (κ × α)} {n : Nat} (missing : key ∉ entries.map Prod.fst)
    (full : entries.length = n) (positive : 0 < n) : (touch key value entries).take n = (key, value) :: entries.dropLast := by
  obtain ⟨m, rfl⟩ : ∃ m, n = m + 1 := ⟨n - 1, by omega⟩
  rw [touch, without_of_notMem missing, List.dropLast_eq_take, full, List.take_succ_cons, Nat.add_sub_cancel]

/-- Where there is room, nothing is lost. -/
theorem take_touch_of_room {key : κ} (value : α) {entries : List (κ × α)} {n : Nat} (missing : key ∉ entries.map Prod.fst)
    (room : entries.length < n) : (touch key value entries).take n = (key, value) :: entries := by
  rw [touch, without_of_notMem missing]
  exact List.take_of_length_le room

theorem nodup_touch {key : κ} {value : α} {entries : List (κ × α)} (distinct : (entries.map Prod.fst).Nodup) :
    ((touch key value entries).map Prod.fst).Nodup := by
  rw [touch, List.map_cons, List.nodup_cons]
  refine ⟨fun member => ?_, distinct.sublist (List.filter_sublist.map _)⟩
  obtain ⟨entry, kept, same⟩ := List.mem_map.mp member
  exact (mem_without.mp kept).2 same

theorem latest_step (entry : κ × α) (rest : List (κ × α)) :
    latest (entry :: rest) = entry :: latest (without entry.1 rest) := by
  rw [latest, List.eraseDupsBy_cons]
  congr 2
  refine List.filter_congr fun other _ => ?_
  simp

/-- Leaving out a key before or after looking for the latest entries is the
same. -/
theorem latest_without (key : κ) (history : List (κ × α)) :
    latest (without key history) = without key (latest history) := by
  have step : ∀ n, ∀ history : List (κ × α), history.length ≤ n →
      latest (without key history) = without key (latest history) := by
    intro n
    induction n with
    | zero =>
      intro history short
      obtain rfl := List.length_eq_zero_iff.mp (Nat.le_zero.mp short)
      rfl
    | succ n ih =>
      intro history short
      cases history with
      | nil => rfl
      | cons entry rest =>
        have shorter : (without entry.1 rest).length ≤ n :=
          Nat.le_trans (List.length_filter_le _ _) (Nat.le_of_succ_le_succ short)
        have later := ih (without entry.1 rest) shorter
        have swap : without key (without entry.1 rest) = without entry.1 (without key rest) := List.filter_comm ..
        by_cases same : entry.1 = key
        · have gone : without key (entry :: rest) = without key rest := List.filter_cons_of_neg (by simpa using same)
          have twice : without key (without key rest) = without key rest := by simp [without]
          rw [same] at later
          rw [gone, latest_step, same]
          simp only [without] at later twice ⊢
          rw [List.filter_cons_of_neg (by simpa using same), ← later, twice]
        · have stays : ∀ rest, without key (entry :: rest) = entry :: without key rest :=
            fun rest => List.filter_cons_of_pos (by simpa using same)
          rw [stays, latest_step, latest_step, stays, ← later, swap]
  exact step history.length history (Nat.le_refl _)

theorem latest_cons (key : κ) (value : α) (history : List (κ × α)) :
    latest ((key, value) :: history) = touch key value (latest history) := by
  rw [touch, ← latest_without, latest_step]

theorem nodup_latest (history : List (κ × α)) : ((latest history).map Prod.fst).Nodup := by
  induction history with
  | nil => exact List.nodup_nil
  | cons entry rest ih =>
    rw [latest_cons]
    exact nodup_touch ih

theorem latest_sublist (history : List (κ × α)) : (latest history).Sublist history := by
  induction history with
  | nil => exact List.Sublist.slnil
  | cons entry rest ih =>
    rw [latest_cons]
    exact (List.filter_sublist.trans ih).cons_cons entry

/-- Using a key in a list that was cut off gives what is in front when it is used
in the whole list. -/
theorem take_touch (key : κ) (value : α) {entries : List (κ × α)} (distinct : (entries.map Prod.fst).Nodup) (n : Nat) :
    (touch key value entries).take n = (touch key value (entries.take n)).take n := by
  have others : ∀ n, (without key entries).take n = (without key (entries.take (n + 1))).take n := by
    induction entries with
    | nil => exact fun _ => rfl
    | cons entry rest ih =>
      obtain ⟨fresh, distinct'⟩ := List.nodup_cons.mp distinct
      intro n
      by_cases same : entry.1 = key
      · have gone : ∀ rest, without key (entry :: rest) = without key rest :=
          fun rest => List.filter_cons_of_neg (by simpa using same)
        have absent : key ∉ rest.map Prod.fst := same ▸ fresh
        have missing : key ∉ (rest.take n).map Prod.fst :=
          fun member => absent (((List.take_sublist n rest).map Prod.fst).subset member)
        rw [List.take_succ_cons, gone, gone, without_of_notMem missing, without_of_notMem absent, List.take_take,
          Nat.min_self]
      · have stays : ∀ rest, without key (entry :: rest) = entry :: without key rest :=
          fun rest => List.filter_cons_of_pos (by simpa using same)
        rw [List.take_succ_cons, stays, stays]
        cases n with
        | zero => rfl
        | succ n => rw [List.take_succ_cons, List.take_succ_cons, ih distinct' n]
  cases n with
  | zero => rfl
  | succ n => rw [touch, touch, List.take_succ_cons, List.take_succ_cons, others]

/-- What bears the name of an item, where names are distinct, is the item. -/
theorem filter_eq_singleton {f : α → κ} {items : List α} (distinct : (items.map f).Nodup) {a : α} (member : a ∈ items) :
    items.filter (fun other => f other = f a) = [a] := by
  obtain ⟨front, back, rfl⟩ := List.append_of_mem member
  rw [List.map_append, List.map_cons, List.nodup_append, List.nodup_cons] at distinct
  obtain ⟨_, ⟨notBehind, _⟩, apart⟩ := distinct
  have before : front.filter (fun other => f other = f a) = [] := by
    refine List.filter_eq_nil_iff.mpr fun other inFront => ?_
    simpa using apart _ (List.mem_map_of_mem inFront) _ List.mem_cons_self
  have behind : back.filter (fun other => f other = f a) = [] := by
    refine List.filter_eq_nil_iff.mpr fun other inBack => ?_
    simpa using fun same : f other = f a => notBehind (same ▸ List.mem_map_of_mem inBack)
  rw [List.filter_append, List.filter_cons_of_pos (by simp), before, behind, List.nil_append]

section Find
variable {key other : κ} {value : α} {entries : List (κ × α)}

/-- The value of a key. -/
def find (key : κ) (entries : List (κ × α)) : Option α := (entries.find? (fun entry => entry.1 = key)).map Prod.snd

theorem find_cons (key : κ) (entry : κ × α) (rest : List (κ × α)) :
    find key (entry :: rest) = if entry.1 = key then some entry.2 else find key rest := by
  by_cases same : entry.1 = key
  · rw [if_pos same, find, List.find?_cons_of_pos (by simpa using same), Option.map_some]
  · rw [if_neg same, find, List.find?_cons_of_neg (by simpa using same), find]

theorem mem_of_find (found : find key entries = some value) : (key, value) ∈ entries := by
  obtain ⟨entry, first, rfl⟩ := Option.map_eq_some_iff.mp found
  have same : entry.1 = key := by simpa using List.find?_some first
  exact same ▸ List.mem_of_find?_eq_some first

theorem find_of_mem (distinct : (entries.map Prod.fst).Nodup) (member : (key, value) ∈ entries) :
    find key entries = some value := by
  induction entries with
  | nil => cases member
  | cons entry rest ih =>
    obtain ⟨fresh, others⟩ := List.nodup_cons.mp distinct
    rw [find_cons]
    rcases List.mem_cons.mp member with rfl | later
    · rw [if_pos rfl]
    · rw [if_neg fun same : entry.1 = key => fresh (same ▸ List.mem_map_of_mem later)]
      exact ih others later

theorem find_eq_none : find key entries = none ↔ key ∉ entries.map Prod.fst := by
  induction entries with
  | nil => simp [find]
  | cons entry rest ih =>
    rw [find_cons, List.map_cons, List.mem_cons, not_or, ← ih]
    by_cases same : entry.1 = key
    · rw [if_pos same]
      exact ⟨fun found => (nomatch found), fun apart => absurd same.symm apart.1⟩
    · rw [if_neg same]
      exact ⟨fun missing => ⟨Ne.symm same, missing⟩, And.right⟩

theorem find_without (key other : κ) (entries : List (κ × α)) :
    find other (without key entries) = if other = key then none else find other entries := by
  induction entries with
  | nil => simp [find, without]
  | cons entry rest ih =>
    by_cases gone : entry.1 = key
    · have kept : without key (entry :: rest) = without key rest := List.filter_cons_of_neg (by simpa using gone)
      rw [kept, ih, find_cons, gone]
      by_cases same : other = key
      · rw [if_pos same, if_pos same]
      · rw [if_neg same, if_neg same, if_neg (Ne.symm same)]
    · have kept : without key (entry :: rest) = entry :: without key rest :=
        List.filter_cons_of_pos (by simpa using gone)
      rw [kept, find_cons, find_cons, ih]
      by_cases same : entry.1 = other
      · rw [if_pos same, if_pos same, if_neg fun equal => gone (same.trans equal)]
      · rw [if_neg same, if_neg same]

theorem find_touch (key other : κ) (value : α) (entries : List (κ × α)) :
    find other (touch key value entries) = if other = key then some value else find other entries := by
  rw [touch, find_cons, find_without]
  by_cases same : other = key
  · rw [if_pos same.symm, if_pos same]
  · rw [if_neg (Ne.symm same), if_neg same, if_neg same]

/-- Using a key with the value that it has changes no value. -/
theorem find_touch_self (distinct : (entries.map Prod.fst).Nodup) (member : (key, value) ∈ entries) (other : κ) :
    find other (touch key value entries) = find other entries := by
  rw [find_touch]
  split
  case isTrue same => rw [same, find_of_mem distinct member]
  case isFalse => rfl

theorem find_map (key other : κ) (f : α → α) (entries : List (κ × α)) :
    find other (entries.map fun entry => if entry.1 = key then (entry.1, f entry.2) else entry) =
      if other = key then (find other entries).map f else find other entries := by
  induction entries with
  | nil => simp [find]
  | cons entry rest ih =>
    rw [List.map_cons, find_cons, find_cons, ih]
    by_cases changed : entry.1 = key
    · rw [if_pos changed]
      by_cases same : entry.1 = other
      · rw [if_pos same, if_pos same, if_pos (same.symm.trans changed), Option.map_some]
      · rw [if_neg same, if_neg same]
    · rw [if_neg changed]
      by_cases same : entry.1 = other
      · rw [if_pos same, if_pos same, if_neg fun equal => changed (same.trans equal)]
      · rw [if_neg same, if_neg same]

theorem find_filter (distinct : (entries.map Prod.fst).Nodup) (p : α → Bool) (key : κ) :
    find key (entries.filter fun entry => p entry.2) = (find key entries).filter p := by
  induction entries with
  | nil => rfl
  | cons entry rest ih =>
    obtain ⟨fresh, others⟩ := List.nodup_cons.mp distinct
    by_cases kept : p entry.2 = true
    · rw [List.filter_cons_of_pos (by simpa using kept), find_cons, find_cons, ih others]
      split
      · rw [Option.filter_some_pos kept]
      · rfl
    · rw [List.filter_cons_of_neg (by simpa using kept), find_cons, ih others]
      split
      case isFalse => rfl
      case isTrue same =>
        rw [find_eq_none.mpr (same ▸ fresh), Option.filter_some_neg (by simpa using kept)]
        rfl

end Find

end Recency
