import Mathlib.Data.Finset.Max
import Mathlib.Data.List.Sort

/-- What the standard promises of `std::sort` by a key: a rearrangement in
ascending order. The order of equal keys is up to the implementation. -/
structure Cpp.StdSort (α κ : Type) [LinearOrder κ] where
  run : (α → κ) → List α → List α
  perm : ∀ key items, (run key items).Perm items
  sorted : ∀ key items, (run key items).Pairwise (fun a b => key a ≤ key b)

namespace Cpp.StdSort

variable {α κ : Type} [LinearOrder κ]

/-- A sort as small ranges get it. -/
def insertion : StdSort α κ where
  run key items := items.insertionSort (fun a b => key a ≤ key b)
  perm _ items := List.perm_insertionSort _ items
  sorted key items := by
    have : Std.Total (fun a b : α => key a ≤ key b) := ⟨fun a b => le_total (key a) (key b)⟩
    have : IsTrans α (fun a b => key a ≤ key b) := ⟨fun _ _ _ => le_trans⟩
    exact List.pairwise_insertionSort _ items

/-- What a cut of the sorted range keeps is no farther than what it drops. -/
theorem take_le_drop (sort : StdSort α κ) (key : α → κ) (items : List α) (count : Nat) {a b : α}
    (kept : a ∈ (sort.run key items).take count) (dropped : b ∈ (sort.run key items).drop count) :
    key a ≤ key b := by
  have sorted := sort.sorted key items
  rw [← List.take_append_drop count (sort.run key items), List.pairwise_append] at sorted
  exact sorted.2.2 a kept b dropped

/-- With distinct keys the order is strict. -/
theorem pairwise_lt (sort : StdSort α κ) {key : α → κ} {items : List α} (distinct : (items.map key).Nodup) :
    (sort.run key items).Pairwise (fun a b => key a < key b) := by
  have different : (sort.run key items).Pairwise (fun a b => key a ≠ key b) :=
    List.pairwise_map.mp (((sort.perm key items).map key).nodup_iff.mpr distinct)
  exact ((sort.sorted key items).and different).imp fun both => lt_of_le_of_ne both.1 both.2

/-- With distinct keys, any two sorts give the same range. -/
theorem run_eq_run (sort sort' : StdSort α κ) {key : α → κ} {items items' : List α}
    (distinct : (items.map key).Nodup) (perm : items.Perm items') : sort.run key items = sort'.run key items' := by
  have first := sort.pairwise_lt distinct
  have second := sort'.pairwise_lt ((perm.map key).nodup_iff.mp distinct)
  have same := (sort.perm key items).trans (perm.trans (sort'.perm key items').symm)
  exact same.eq_of_pairwise (fun a b _ _ less more => absurd less (lt_asymm more)) first second

end Cpp.StdSort

namespace Finset

variable {α β : Type} [LinearOrder β] {d : α → β} {s reached t : Finset α} {k : Nat}

/-- No element of `s` outside of `t` is nearer than one inside. -/
def Nearest (d : α → β) (s t : Finset α) : Prop := t ⊆ s ∧ ∀ a ∈ t, ∀ b ∈ s, b ∉ t → d a ≤ d b

theorem exists_nearest [DecidableEq α] (enough : k ≤ s.card) : ∃ t, Nearest d s t ∧ t.card = k := by
  induction k with
  | zero => exact ⟨∅, ⟨empty_subset s, fun a member => absurd member (notMem_empty a)⟩, card_empty⟩
  | succ k ih =>
    obtain ⟨t, ⟨inside, near⟩, size⟩ := ih (Nat.le_of_succ_le enough)
    have left : (s \ t).Nonempty := by
      rw [← card_pos, card_sdiff_of_subset inside]
      omega
    obtain ⟨x, member, least⟩ := exists_min_image (s \ t) d left
    obtain ⟨inS, outside⟩ := mem_sdiff.mp member
    refine ⟨insert x t, ⟨insert_subset inS inside, ?_⟩, ?_⟩
    · intro a inT b inS' notT
      obtain ⟨different, notOld⟩ := not_or.mp (mem_insert.not.mp notT)
      rcases mem_insert.mp inT with rfl | old
      · exact least b (mem_sdiff.mpr ⟨inS', notOld⟩)
      · exact near a old b inS' notOld
    · rw [card_insert_of_notMem outside, size]

/-- If each element is reached or has `k` reached ones at most as far away,
then the nearest `k` can be chosen among the reached ones. -/
theorem exists_nearest_of_covered [DecidableEq α] (inside : reached ⊆ s)
    (covered : ∀ a ∈ s, a ∈ reached ∨ ∃ w ⊆ reached, w.card = k ∧ ∀ b ∈ w, d b ≤ d a) :
    ∃ t ⊆ reached, Nearest d s t ∧ t.card = min k s.card := by
  by_cases all : s ⊆ reached
  · obtain ⟨t, near, size⟩ := exists_nearest (d := d) (Nat.min_le_right k s.card)
    exact ⟨t, near.1.trans all, near, size⟩
  obtain ⟨missed, inS, unreached⟩ := not_subset.mp all
  have plenty : k ≤ reached.card := by
    obtain ⟨w, reachedW, size, _⟩ := (covered missed inS).resolve_left unreached
    exact size ▸ card_le_card reachedW
  obtain ⟨t, ⟨fromReached, near⟩, size⟩ := exists_nearest (d := d) plenty
  refine ⟨t, fromReached, ⟨fromReached.trans inside, ?_⟩, ?_⟩
  · intro a inT b inS' notT
    rcases covered b inS' with reachedB | ⟨w, reachedW, sizeW, closer⟩
    · exact near a inT b reachedB notT
    by_contra far
    rw [not_le] at far
    have swallowed : insert a w ⊆ t := by
      refine insert_subset inT fun c inW => ?_
      by_contra outside
      exact absurd (near a inT c (reachedW inW) outside) (not_le.mpr ((closer c inW).trans_lt far))
    have new : a ∉ w := fun inW => absurd (closer a inW) (not_le.mpr far)
    have tooMany := card_le_card swallowed
    rw [card_insert_of_notMem new] at tooMany
    omega
  · have := card_le_card inside
    omega

end Finset
