import Mathlib.Algebra.BigOperators.Group.List.Lemmas
import Mathlib.Algebra.GroupWithZero.Nat
import Mathlib.Data.List.Dedup
import Mathlib.Data.List.Induction

namespace Tally

variable {α β : Type} [BEq α] [LawfulBEq α] [BEq β] [LawfulBEq β]

theorem eraseDups_concat (keys : List α) (key : α) :
    (keys ++ [key]).eraseDups = if key ∈ keys then keys.eraseDups else keys.eraseDups ++ [key] := by
  rw [List.eraseDups_append]
  by_cases seen : key ∈ keys
  · simp [List.removeAll, seen]
  · simp [List.removeAll, seen, List.eraseDups_cons]

theorem nodup_eraseDups (keys : List α) : keys.eraseDups.Nodup := by
  induction keys using List.reverseRecOn with
  | nil => simp
  | append_singleton keys key ih =>
    rw [eraseDups_concat]
    split
    · exact ih
    · rename_i unseen
      refine List.nodup_append.mpr ⟨ih, List.nodup_singleton _, ?_⟩
      rintro other member _ inLast rfl
      rw [List.mem_singleton] at inLast
      exact unseen (inLast ▸ List.mem_eraseDups.mp member)

/-- Adding one to the number at a key's place is the same as counting that key
once more. -/
theorem modify_idxOf {distinct : List α} (nodup : distinct.Nodup) {key : α} (member : key ∈ distinct)
    (count count' : α → Nat) (here : count' key = count key + 1) (others : ∀ other, other ≠ key → count' other = count other) :
    (distinct.map count).modify (distinct.idxOf key) (· + 1) = distinct.map count' := by
  induction distinct with
  | nil => cases member
  | cons first rest ih =>
    obtain ⟨fresh, nodupRest⟩ := List.nodup_cons.mp nodup
    by_cases same : first = key
    · subst same
      have unchanged : rest.map count = rest.map count' :=
        List.map_congr_left fun other inRest => (others other fun equal => fresh (equal ▸ inRest)).symm
      simp [here, unchanged]
    · have inRest : key ∈ rest := (List.mem_cons.mp member).resolve_left fun equal => same equal.symm
      have tail := ih nodupRest inRest
      rw [List.idxOf_cons_ne _ same, List.map_cons, List.modify_succ_cons, tail, List.map_cons, others first same]

/-- The occurrences of the distinct keys are all there are. -/
theorem sum_count (keys : List α) : (keys.eraseDups.map keys.count).sum = keys.length := by
  classical
  have same : keys.eraseDups.Perm keys.dedup := by
    refine (List.perm_ext_iff_of_nodup (nodup_eraseDups keys) (List.nodup_dedup keys)).mpr fun key => ?_
    rw [List.mem_eraseDups, List.mem_dedup]
  rw [(same.map keys.count).sum_nat]
  obtain rfl : ‹BEq α› = instBEqOfDecidableEq := lawful_beq_subsingleton _ _
  exact List.sum_map_count_dedup_eq_length keys

theorem eraseDups_map {f : α → β} {keys : List α} (injective : ∀ a ∈ keys, ∀ b ∈ keys, f a = f b → a = b) :
    (keys.map f).eraseDups = keys.eraseDups.map f := by
  induction keys using List.reverseRecOn with
  | nil => simp
  | append_singleton keys key ih =>
    have before := ih fun a inA b inB => injective a (List.mem_append_left _ inA) b (List.mem_append_left _ inB)
    have same : f key ∈ keys.map f ↔ key ∈ keys := by
      constructor
      · intro member
        obtain ⟨other, inKeys, equal⟩ := List.mem_map.mp member
        rwa [injective key (by simp) other (List.mem_append_left _ inKeys) equal.symm]
      · exact List.mem_map_of_mem
    rw [List.map_append, List.map_singleton, eraseDups_concat, eraseDups_concat, before]
    simp only [same]
    split
    · rfl
    · rw [List.map_append, List.map_singleton]

theorem count_map {f : α → β} {keys : List α} {key : α} (injective : ∀ a ∈ keys, f a = f key → a = key) :
    (keys.map f).count (f key) = keys.count key := by
  rw [List.count, List.countP_map, List.count]
  refine List.countP_congr fun a member => ?_
  simp only [Function.comp_apply, beq_iff_eq]
  exact ⟨injective a member, congrArg f⟩

end Tally
