import Mathlib.Algebra.BigOperators.Group.List.Basic
import Mathlib.Algebra.GroupWithZero.Nat
import Mathlib.Data.List.Nodup
import Mathlib.Data.List.Perm.Basic
import Mathlib.Data.List.Range

namespace Tiling

/-- The cell of a number: where it begins, and how much of `length` it has. -/
def cell (size length k : Nat) : Nat × Nat := (k * size, min size (length - k * size))

/-- The first `n` cells. -/
def cells (size length n : Nat) : List (Nat × Nat) := (List.range n).map (cell size length)

/-- The number of cells that a length needs. -/
def count (size length : Nat) : Nat := (length + size - 1) / size

def covers (offset : Nat) (extent : Nat × Nat) : Bool := extent.1 ≤ offset && offset < extent.1 + extent.2

variable {size length n k offset : Nat}

theorem cells_succ (size length n : Nat) : cells size length (n + 1) = cells size length n ++ [cell size length n] := by
  rw [cells, List.range_succ, List.map_append]
  rfl

/-- The cells that begin within the length are those that it needs. -/
theorem lt_count_iff (positive : 0 < size) : k < count size length ↔ k * size < length := by
  rw [count, Nat.lt_div_iff_mul_lt positive, Nat.mul_comm]
  omega

theorem count_spec (positive : 0 < size) : length ≤ count size length * size := by
  by_contra short
  exact absurd ((lt_count_iff positive).mpr (Nat.not_le.mp short)) (Nat.lt_irrefl _)

/-- A cell ends where the next one begins, or with the length. -/
theorem cell_end (inside : k * size < length) : k * size + min size (length - k * size) = min ((k + 1) * size) length := by
  rw [Nat.add_mul, Nat.one_mul]
  omega

/-- An offset lies in the cell that its quotient names. -/
theorem covers_cell_iff (positive : 0 < size) (inside : offset < length) :
    covers offset (cell size length k) = true ↔ k = offset / size := by
  have divided := Nat.div_add_mod offset size
  have remainder := Nat.mod_lt offset positive
  rw [covers, Bool.and_eq_true, decide_eq_true_eq, decide_eq_true_eq]
  change k * size ≤ offset ∧ offset < k * size + min size (length - k * size) ↔ k = offset / size
  constructor
  · rintro ⟨below, above⟩
    have next : offset < (k + 1) * size := by
      rw [Nat.add_mul, Nat.one_mul]
      omega
    exact (Nat.div_eq_of_lt_le below next).symm
  · rintro rfl
    rw [Nat.mul_comm]
    omega

/-- The cells cover what they reach, and each offset once. -/
theorem countP_cells (positive : 0 < size) (inside : offset < length) (reached : offset < n * size) :
    (cells size length n).countP (covers offset) = 1 := by
  have named : offset / size < n := Nat.div_lt_of_lt_mul (Nat.mul_comm n size ▸ reached)
  have same : ∀ k, covers offset (cell size length k) = (k == offset / size) := by
    intro k
    rw [Bool.eq_iff_iff, covers_cell_iff positive inside, beq_iff_eq]
  rw [cells, List.countP_map]
  have single := List.count_eq_one_of_mem List.nodup_range (List.mem_range.mpr named)
  rw [List.count] at single
  rw [← single]
  exact congrArg (List.countP · (List.range n)) (funext same)

theorem sum_cells (size length n : Nat) : ((cells size length n).map Prod.snd).sum = min (n * size) length := by
  induction n with
  | zero => simp [cells]
  | succ n ih =>
    rw [cells_succ, List.map_append, List.sum_append, ih, List.map_singleton, List.sum_singleton, cell, Nat.add_mul,
      Nat.one_mul]
    omega

/-- Extents that are cells of distinct numbers, as many as the length needs, are
its tiling in some order. -/
theorem perm_cells {numbers : List Nat} (distinct : numbers.Nodup) (within : ∀ k ∈ numbers, k < n)
    (enough : n ≤ numbers.length) : (numbers.map (cell size length)).Perm (cells size length n) := by
  have sub : numbers ⊆ List.range n := fun k member => List.mem_range.mpr (within k member)
  have perm : numbers.Perm (List.range n) :=
    (List.subperm_of_subset distinct sub).perm_of_length_le (by rw [List.length_range]; exact enough)
  exact perm.map _

end Tiling
