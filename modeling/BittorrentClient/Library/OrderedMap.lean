import Mathlib.Data.List.Basic
import Mathlib.Order.Defs.Unbundled

namespace Cpp

variable {κ α : Type}

/-- A `std::map` iterates its keys in strictly ascending order. -/
def KeysAscend [LT κ] (entries : List (κ × α)) : Prop := (entries.map Prod.fst).Pairwise (· < ·)

/-- The assignment `m[key] = value`: overwrite the entry or insert it in key order. -/
def mapAssign [LT κ] [DecidableLT κ] [DecidableEq κ] (key : κ) (value : α) :
    List (κ × α) → List (κ × α)
  | [] => [(key, value)]
  | (k, v) :: rest =>
    if key < k then (key, value) :: (k, v) :: rest
    else if key = k then (key, value) :: rest
    else (k, v) :: mapAssign key value rest

/-- `m.find(key)`, `none` standing for `m.end()`. -/
def mapFind [DecidableEq κ] (key : κ) : List (κ × α) → Option α
  | [] => none
  | (k, v) :: rest => if key = k then some v else mapFind key rest

/-- An assignment is seen by its own key only. -/
theorem mapFind_mapAssign [LT κ] [DecidableLT κ] [DecidableEq κ] (key other : κ) (value : α)
    (entries : List (κ × α)) :
    mapFind other (mapAssign key value entries) = if other = key then some value else mapFind other entries := by
  induction entries with
  | nil => rfl
  | cons entry rest ih =>
    simp only [mapAssign]
    split
    · rfl
    split
    · rename_i same
      simp only [mapFind, same]
      split <;> rfl
    · rename_i different
      simp only [mapFind, ih]
      by_cases first : other = entry.1
      · have notKey : ¬other = key := fun same => different (same.symm.trans first)
        rw [if_pos first, if_neg notKey, if_pos first]
      · rw [if_neg first, if_neg first]

section
variable [LT κ] [DecidableLT κ] [DecidableEq κ] [Std.Asymm (α := κ) (· < ·)]

/-- A key above every stored key goes to the end, so entries assigned in
ascending order reproduce the list they came from. -/
theorem mapAssign_of_above {key : κ} (value : α) {entries : List (κ × α)}
    (above : ∀ entry ∈ entries, entry.1 < key) :
    mapAssign key value entries = entries ++ [(key, value)] := by
  induction entries with
  | nil => rfl
  | cons entry rest ih =>
    have below := above entry (List.mem_cons_self ..)
    have notBefore : ¬key < entry.1 := Std.Asymm.asymm _ _ below
    have different : ¬key = entry.1 := by
      intro same
      exact notBefore (same ▸ below)
    simp only [mapAssign, if_neg notBefore, if_neg different, List.cons_append]
    rw [ih (fun e member => above e (List.mem_cons_of_mem _ member))]

end

end Cpp
