import Mathlib.Data.List.Basic
import Mathlib.Logic.Function.Basic

/-- A fixed array of which the first `size` cells are in use. Cells beyond
them hold leftovers. -/
structure Slots (α : Type) where
  cell : Nat → α
  size : Nat

namespace Slots

variable {α : Type}

/-- The cells in use. -/
def toList (s : Slots α) : List α := (List.range s.size).map s.cell

/-- `a[size++] = x`. -/
def push (s : Slots α) (x : α) : Slots α := ⟨Function.update s.cell s.size x, s.size + 1⟩

/-- `a[i] = x`. -/
def write (s : Slots α) (i : Nat) (x : α) : Slots α := { s with cell := Function.update s.cell i x }

/-- The loop that moves every cell in use behind `i` one place down. -/
def closeGap (s : Slots α) (i : Nat) : Slots α :=
  { s with cell := (List.range' i (s.size - 1 - i)).foldl (fun cell j => Function.update cell j (cell (j + 1))) s.cell }

@[simp] theorem length_toList (s : Slots α) : s.toList.length = s.size := by simp [toList]

theorem getElem?_toList (s : Slots α) (i : Nat) : s.toList[i]? = if i < s.size then some (s.cell i) else none := by
  simp only [toList, List.getElem?_map]
  split
  · rename_i inside
    rw [List.getElem?_range inside, Option.map_some]
  · rename_i outside
    rw [List.getElem?_eq_none (by simpa using outside), Option.map_none]

theorem toList_push (s : Slots α) (x : α) : (s.push x).toList = s.toList ++ [x] := by
  have old : (List.range s.size).map (Function.update s.cell s.size x) = (List.range s.size).map s.cell := by
    refine List.map_congr_left fun i member => Function.update_of_ne ?_ _ _
    exact Nat.ne_of_lt (List.mem_range.mp member)
  simp only [toList, push, List.range_succ, List.map_append, List.map_singleton, old, Function.update_self]

theorem toList_write (s : Slots α) {i : Nat} (x : α) : (s.write i x).toList = s.toList.set i x := by
  refine List.ext_getElem? fun j => ?_
  rw [List.getElem?_set, getElem?_toList, getElem?_toList, length_toList]
  simp only [write, Function.update_apply]
  by_cases same : i = j
  · subst same
    simp
  · rw [if_neg same, if_neg (Ne.symm same)]

theorem shift_apply (cell : Nat → α) (i n j : Nat) :
    (List.range' i n).foldl (fun cell j => Function.update cell j (cell (j + 1))) cell j =
      if i ≤ j ∧ j < i + n then cell (j + 1) else cell j := by
  induction n generalizing i cell with
  | zero =>
    rw [if_neg (by omega)]
    rfl
  | succ n ih =>
    rw [List.range'_succ, List.foldl_cons, ih]
    simp only [Function.update_apply]
    rcases Nat.lt_trichotomy j i with below | rfl | above
    · rw [if_neg (by omega), if_neg (by omega), if_neg (by omega)]
    · rw [if_neg (by omega), if_pos rfl, if_pos (by omega)]
    · by_cases inside : j < i + 1 + n
      · rw [if_pos (by omega), if_neg (by omega), if_pos (by omega)]
      · rw [if_neg (by omega), if_neg (by omega), if_neg (by omega)]

theorem closeGap_cell (s : Slots α) (i j : Nat) :
    (s.closeGap i).cell j = if i ≤ j ∧ j + 1 < s.size then s.cell (j + 1) else s.cell j := by
  have same : (i ≤ j ∧ j < i + (s.size - 1 - i)) ↔ (i ≤ j ∧ j + 1 < s.size) := by omega
  simp only [closeGap, shift_apply, same]

/-- Closing the gap and giving up the last cell takes the entry out. -/
theorem toList_closeGap (s : Slots α) {i : Nat} (inside : i < s.size) :
    toList ⟨(s.closeGap i).cell, s.size - 1⟩ = s.toList.eraseIdx i := by
  refine List.ext_getElem? fun j => ?_
  rw [List.getElem?_eraseIdx, getElem?_toList, getElem?_toList, getElem?_toList]
  simp only [closeGap_cell]
  by_cases before : j < i
  · rw [if_pos before, if_neg (show ¬(i ≤ j ∧ j + 1 < s.size) by omega), if_pos (by omega), if_pos (by omega)]
  · rw [if_neg before]
    by_cases within : j + 1 < s.size
    · rw [if_pos within, if_pos (by omega), if_pos (by omega)]
    · rw [if_neg within, if_neg (by omega)]

/-- Closing the gap and writing the last cell moves an entry to the end. -/
theorem toList_closeGap_write (s : Slots α) {i : Nat} (inside : i < s.size) (x : α) :
    ((s.closeGap i).write (s.size - 1) x).toList = s.toList.eraseIdx i ++ [x] := by
  rw [← toList_closeGap s inside, ← toList_push]
  have size : s.size - 1 + 1 = s.size := by omega
  simp only [push, write, toList, size]
  rfl

/-- The loop that looks for the first of the least cells, by a number that each
cell has. -/
theorem first_least (f : Nat → Nat) (n : Nat) :
    let best := (List.range' 1 n).foldl (fun (best : Nat × Nat) i => if f i < best.2 then (i, f i) else best) (0, f 0)
    best.2 = f best.1 ∧ best.1 ≤ n ∧ (∀ j < best.1, f best.1 < f j) ∧ ∀ j ≤ n, f best.1 ≤ f j := by
  induction n with
  | zero => exact ⟨rfl, Nat.le_refl 0, fun j below => absurd below (Nat.not_lt_zero j), by simp⟩
  | succ n ih =>
    obtain ⟨value, bound, first, least⟩ := ih
    rw [List.range'_1_concat, List.foldl_append, List.foldl_cons, List.foldl_nil, Nat.add_comm 1 n]
    generalize (List.range' 1 n).foldl (fun (best : Nat × Nat) i => if f i < best.2 then (i, f i) else best)
      (0, f 0) = best at value bound first least ⊢
    dsimp only
    split
    · rename_i smaller
      rw [value] at smaller
      refine ⟨rfl, Nat.le_refl _, fun j below => ?_, fun j within => ?_⟩
      · exact Nat.lt_of_lt_of_le smaller (least j (Nat.le_of_lt_succ below))
      · rcases Nat.lt_or_eq_of_le within with below | rfl
        · exact Nat.le_of_lt (Nat.lt_of_lt_of_le smaller (least j (Nat.le_of_lt_succ below)))
        · exact Nat.le_refl _
    · rename_i larger
      rw [value, Nat.not_lt] at larger
      refine ⟨value, Nat.le_succ_of_le bound, first, fun j within => ?_⟩
      rcases Nat.lt_or_eq_of_le within with below | rfl
      · exact least j (Nat.le_of_lt_succ below)
      · exact larger

end Slots
