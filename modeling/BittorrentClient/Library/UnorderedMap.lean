import Mathlib.Data.List.AList

namespace Cpp

/-- A `std::unordered_map`. The order of its entries means nothing. -/
abbrev UnorderedMap (κ α : Type) := AList fun _ : κ => α

namespace UnorderedMap

variable {κ α : Type} [DecidableEq κ]

/-- `erase` for each key of a range. -/
def eraseAll (keys : List κ) (m : UnorderedMap κ α) : UnorderedMap κ α := keys.foldl (fun m key => m.erase key) m

theorem lookup_insert_eq (m : UnorderedMap κ α) (key other : κ) (value : α) :
    (m.insert key value).lookup other = if other = key then some value else m.lookup other := by
  split
  case isTrue same => rw [same, AList.lookup_insert]
  case isFalse different => exact AList.lookup_insert_ne different

theorem lookup_erase_eq (m : UnorderedMap κ α) (key other : κ) :
    (m.erase key).lookup other = if other = key then none else m.lookup other := by
  split
  case isTrue same => rw [same, AList.lookup_erase]
  case isFalse different => exact AList.lookup_erase_ne different

theorem lookup_eraseAll (keys : List κ) (m : UnorderedMap κ α) (other : κ) :
    (eraseAll keys m).lookup other = if other ∈ keys then none else m.lookup other := by
  induction keys generalizing m with
  | nil => rfl
  | cons key rest ih =>
    change (eraseAll rest (m.erase key)).lookup other = _
    rw [ih, lookup_erase_eq]
    by_cases later : other ∈ rest
    · rw [if_pos later, if_pos (List.mem_cons_of_mem key later)]
    · simp only [List.mem_cons, later, or_false, if_false]

/-- With distinct keys, the first entry with a key is all there is to erase. -/
theorem mem_eraseP_of_nodup {entries : List (κ × α)} (distinct : (entries.map Prod.fst).Nodup) {key : κ}
    (entry : κ × α) :
    entry ∈ entries.eraseP (fun entry => entry.1 = key) ↔ entry ∈ entries ∧ entry.1 ≠ key := by
  induction entries with
  | nil => simp
  | cons first rest ih =>
    obtain ⟨new, distinct⟩ := List.nodup_cons.mp distinct
    by_cases same : first.1 = key
    · rw [List.eraseP_cons_of_pos (by simpa using same), List.mem_cons]
      refine ⟨fun member => ⟨Or.inr member, ?_⟩, ?_⟩
      · intro again
        exact new (same.trans again.symm ▸ List.mem_map_of_mem member)
      · rintro ⟨rfl | member, different⟩
        · exact absurd same different
        · exact member
    · rw [List.eraseP_cons_of_neg (by simpa using same), List.mem_cons, List.mem_cons, ih distinct]
      constructor
      · rintro (rfl | ⟨member, different⟩)
        · exact ⟨Or.inl rfl, same⟩
        · exact ⟨Or.inr member, different⟩
      · rintro ⟨rfl | member, different⟩
        · exact Or.inl rfl
        · exact Or.inr ⟨member, different⟩

end UnorderedMap

end Cpp
