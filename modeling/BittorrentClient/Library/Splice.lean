import Mathlib.Data.List.Basic

variable {α : Type}

namespace Splice

/-- The list with `data` written over its elements from `offset` on. -/
def overwrite (xs : List α) (offset : Nat) (data : List α) : List α :=
  xs.take offset ++ (data ++ xs.drop (offset + data.length))

/-- The `length` elements from `offset` on. -/
def slice (xs : List α) (offset length : Nat) : List α := (xs.drop offset).take length

theorem overwrite_length {xs data : List α} {offset : Nat} (fits : offset + data.length ≤ xs.length) :
    (overwrite xs offset data).length = xs.length := by
  simp only [overwrite, List.length_append, List.length_take, List.length_drop]
  omega

theorem overwrite_nil (xs : List α) (offset : Nat) : overwrite xs offset [] = xs := by
  simp [overwrite]

theorem slice_length {xs : List α} {offset length : Nat} (fits : offset + length ≤ xs.length) :
    (slice xs offset length).length = length := by
  simp only [slice, List.length_take, List.length_drop]
  omega

/-- The next elements that fit into a room are those of the rest that do. -/
theorem slice_min (xs : List α) (offset room : Nat) :
    slice xs offset (min (xs.length - offset) room) = (xs.drop offset).take room := by
  rw [slice, ← List.length_drop, Nat.min_comm, ← List.take_eq_take_min]

theorem drop_add_min (xs : List α) (offset room : Nat) :
    xs.drop (offset + min (xs.length - offset) room) = (xs.drop offset).drop room := by
  rw [List.drop_drop]
  by_cases all : xs.length - offset ≤ room
  · rw [List.drop_eq_nil_of_le (by omega), List.drop_eq_nil_of_le (by omega)]
  · rw [Nat.min_eq_right (by omega)]

theorem slice_getElem? (xs : List α) (offset length n : Nat) :
    (slice xs offset length)[n]? = if n < length then xs[offset + n]? else none := by
  simp only [slice, List.getElem?_take, List.getElem?_drop]

/-- An overwrite is what it is at every index. -/
theorem overwrite_getElem? {xs data : List α} {offset : Nat} (fits : offset + data.length ≤ xs.length) (n : Nat) :
    (overwrite xs offset data)[n]? =
      if offset ≤ n ∧ n < offset + data.length then data[n - offset]? else xs[n]? := by
  have taken : (xs.take offset).length = offset := by
    rw [List.length_take]
    omega
  unfold overwrite
  by_cases before : n < offset
  · rw [List.getElem?_append_left (by omega), List.getElem?_take, if_pos before, if_neg (by omega)]
  · rw [List.getElem?_append_right (by omega), taken]
    by_cases inside : n < offset + data.length
    · rw [List.getElem?_append_left (by omega), if_pos (by omega)]
    · rw [List.getElem?_append_right (by omega), if_neg (by omega), List.getElem?_drop]
      congr 1
      omega

/-- A buffer that is filled in order grows by what is written at its end. -/
theorem overwrite_fill {xs : List α} {blank : α} {offset length : Nat} (fits : offset + length ≤ xs.length) :
    overwrite (xs.take offset ++ List.replicate (xs.length - offset) blank) offset (slice xs offset length) =
      xs.take (offset + length) ++ List.replicate (xs.length - (offset + length)) blank := by
  have taken : (xs.take offset).length = offset := by
    rw [List.length_take]
    omega
  have before : (xs.take offset ++ List.replicate (xs.length - offset) blank).take offset = xs.take offset := by
    rw [List.take_append_of_le_length (Nat.le_of_eq taken.symm), List.take_take, Nat.min_self]
  have after : (xs.take offset ++ List.replicate (xs.length - offset) blank).drop (offset + length) =
      List.replicate (xs.length - (offset + length)) blank := by
    rw [List.drop_append, List.drop_eq_nil_of_le (Nat.le_trans (Nat.le_of_eq taken) (Nat.le_add_right _ _)), taken, Nat.add_sub_cancel_left,
      List.drop_replicate, Nat.sub_sub, List.nil_append]
  rw [overwrite, slice_length fits, before, after, slice, List.take_add, List.append_assoc]

/-- A write that starts past a first block leaves the block alone. -/
theorem overwrite_append_right {xs ys data : List α} {offset : Nat} (past : xs.length ≤ offset) :
    overwrite (xs ++ ys) offset data = xs ++ overwrite ys (offset - xs.length) data := by
  have shifted : offset + data.length - xs.length = offset - xs.length + data.length := by omega
  simp only [overwrite, List.take_append, List.drop_append, List.take_of_length_le past,
    List.drop_eq_nil_of_le (by omega : xs.length ≤ offset + data.length), List.nil_append, shifted,
    List.append_assoc]

/-- A write that starts inside a first block is one write to the block and
one at the start of what follows it. -/
theorem overwrite_append_split {xs ys data : List α} {offset : Nat} (inside : offset ≤ xs.length) :
    overwrite (xs ++ ys) offset data =
      overwrite xs offset (data.take (xs.length - offset)) ++ overwrite ys 0 (data.drop (xs.length - offset)) := by
  by_cases short : data.length ≤ xs.length - offset
  · have before : offset + data.length ≤ xs.length := by omega
    simp only [List.take_of_length_le short, List.drop_eq_nil_of_le short, overwrite_nil]
    simp only [overwrite, List.take_append_of_le_length inside, List.drop_append_of_le_length before,
      List.append_assoc]
  · have taken : (data.take (xs.length - offset)).length = xs.length - offset := by
      rw [List.length_take]
      omega
    have rest : offset + data.length - xs.length = 0 + (data.length - (xs.length - offset)) := by omega
    have past : xs.length ≤ offset + data.length := by omega
    have whole : xs.length ≤ offset + (xs.length - offset) := by omega
    simp only [overwrite, List.take_append_of_le_length inside, List.drop_append, taken, List.length_drop,
      List.drop_eq_nil_of_le past, List.drop_eq_nil_of_le whole, List.append_nil, List.nil_append, rest,
      List.take_zero, List.append_assoc]
    rw [← List.append_assoc (data.take _), List.take_append_drop]

theorem slice_append_right {xs ys : List α} {offset length : Nat} (past : xs.length ≤ offset) :
    slice (xs ++ ys) offset length = slice ys (offset - xs.length) length := by
  simp only [slice, List.drop_append, List.drop_eq_nil_of_le past, List.nil_append]

theorem slice_append_split {xs ys : List α} {offset length : Nat} (inside : offset ≤ xs.length) :
    slice (xs ++ ys) offset length =
      slice xs offset (min length (xs.length - offset)) ++ slice ys 0 (length - (xs.length - offset)) := by
  simp only [slice, List.drop_append_of_le_length inside, List.take_append, List.length_drop, List.drop_zero]
  rw [← List.length_drop, ← List.take_eq_take_min]

theorem slice_overwrite_self {xs data : List α} {offset : Nat} (fits : offset + data.length ≤ xs.length) :
    slice (overwrite xs offset data) offset data.length = data := by
  apply List.ext_getElem?
  intro n
  rw [slice_getElem?]
  split
  · rename_i inside
    rw [overwrite_getElem? fits, if_pos (by omega), Nat.add_sub_cancel_left]
  · rename_i outside
    rw [List.getElem?_eq_none (by omega)]

theorem slice_overwrite_apart {xs data : List α} {offset start length : Nat}
    (fits : offset + data.length ≤ xs.length)
    (apart : start + length ≤ offset ∨ offset + data.length ≤ start) :
    slice (overwrite xs offset data) start length = slice xs start length := by
  apply List.ext_getElem?
  intro n
  rw [slice_getElem?, slice_getElem?]
  split
  · rw [overwrite_getElem? fits, if_neg (by omega)]
  · rfl

/-- Blocks of one size, the last one cut at the end, put together again. -/
theorem flatten_slices (xs : List α) (size count : Nat) :
    ((List.range count).map (fun i => slice xs (i * size) (min size (xs.length - i * size)))).flatten =
      xs.take (count * size) := by
  induction count with
  | zero => simp
  | succ count ih =>
    have block : slice xs (count * size) (min size (xs.length - count * size)) =
        (xs.drop (count * size)).take size := by
      rw [slice, ← List.length_drop, ← List.take_eq_take_min]
    rw [List.range_succ, List.map_append, List.flatten_append, ih, Nat.succ_mul, List.take_add]
    simp only [List.map_cons, List.map_nil, List.flatten_cons, List.flatten_nil, List.append_nil, block]

/-- What a write over `data` at `offset` may leave behind when it stops
part-way: every element is the old one, or the new one inside the range. -/
structure Patched (old new : List α) (offset : Nat) (data : List α) : Prop where
  length_eq : new.length = old.length
  element : ∀ n, new[n]? = old[n]? ∨ offset ≤ n ∧ n < offset + data.length ∧ new[n]? = data[n - offset]?

theorem Patched.refl (old : List α) (offset : Nat) (data : List α) : Patched old old offset data :=
  ⟨rfl, fun _ => Or.inl rfl⟩

theorem Patched.of_overwrite {old data : List α} {offset : Nat} (count : Nat)
    (fits : offset + data.length ≤ old.length) :
    Patched old (overwrite old offset (data.take count)) offset data := by
  have short : offset + (data.take count).length ≤ old.length := by
    rw [List.length_take]
    omega
  refine ⟨overwrite_length short, ?_⟩
  intro n
  rw [overwrite_getElem? short]
  split
  · rename_i inside
    rw [List.length_take] at inside
    refine Or.inr ⟨inside.1, by omega, ?_⟩
    rw [List.getElem?_take, if_pos (by omega)]
  · exact Or.inl rfl

theorem Patched.append_right {xs ys zs data : List α} {offset : Nat} (past : xs.length ≤ offset)
    (patched : Patched ys zs (offset - xs.length) data) : Patched (xs ++ ys) (xs ++ zs) offset data := by
  refine ⟨by simp only [List.length_append, patched.length_eq], ?_⟩
  intro n
  by_cases first : n < xs.length
  · rw [List.getElem?_append_left first, List.getElem?_append_left first]
    exact Or.inl rfl
  · rw [List.getElem?_append_right (by omega), List.getElem?_append_right (by omega)]
    rcases patched.element (n - xs.length) with same | ⟨lower, upper, written⟩
    · exact Or.inl same
    · refine Or.inr ⟨by omega, by omega, ?_⟩
      rw [written]
      congr 1
      omega

theorem Patched.append_split {xs xs' ys ys' data : List α} {offset : Nat} (inside : offset ≤ xs.length)
    (first : Patched xs xs' offset (data.take (xs.length - offset)))
    (second : Patched ys ys' 0 (data.drop (xs.length - offset))) :
    Patched (xs ++ ys) (xs' ++ ys') offset data := by
  have lengths := first.length_eq
  refine ⟨by simp only [List.length_append, first.length_eq, second.length_eq], ?_⟩
  intro n
  by_cases before : n < xs.length
  · rw [List.getElem?_append_left before, List.getElem?_append_left (by omega)]
    rcases first.element n with same | ⟨lower, upper, written⟩
    · exact Or.inl same
    · rw [List.length_take] at upper
      refine Or.inr ⟨lower, by omega, ?_⟩
      rw [written, List.getElem?_take, if_pos (by omega)]
  · rw [List.getElem?_append_right (by omega), List.getElem?_append_right (by omega), lengths]
    rcases second.element (n - xs.length) with same | ⟨lower, upper, written⟩
    · exact Or.inl same
    · rw [List.length_drop] at upper
      refine Or.inr ⟨by omega, by omega, ?_⟩
      rw [written, List.getElem?_drop]
      congr 1
      omega

/-- Outside the range nothing changes. -/
theorem Patched.slice_eq {old new data : List α} {offset start length : Nat} (patched : Patched old new offset data)
    (apart : start + length ≤ offset ∨ offset + data.length ≤ start) :
    slice new start length = slice old start length := by
  apply List.ext_getElem?
  intro n
  rw [slice_getElem?, slice_getElem?]
  split
  · rcases patched.element (start + n) with same | ⟨lower, upper, _⟩
    · exact same
    · omega
  · rfl

/-- Patching a range with what it already holds changes nothing there. -/
theorem Patched.slice_self {old new data : List α} {offset : Nat} (patched : Patched old new offset data)
    (holds : slice old offset data.length = data) : slice new offset data.length = data := by
  apply List.ext_getElem?
  intro n
  have original := congrArg (·[n]?) holds
  simp only [slice_getElem?] at original ⊢
  split
  · rename_i inside
    rw [if_pos inside] at original
    rcases patched.element (offset + n) with same | ⟨_, _, written⟩
    · rw [same, original]
    · rw [written, Nat.add_sub_cancel_left]
  · rename_i outside
    rw [List.getElem?_eq_none (by omega)]

end Splice
