import Mathlib.Algebra.BigOperators.Group.List.Basic
import Mathlib.Algebra.GroupWithZero.Nat

namespace Roster

variable {α β : Type} {members : List α} {i j : Nat} {a b : α} {g : α → α}

/-- Who is in the list after a change of one member: the changed one in its
place, and the others. -/
theorem of_modify (found : (members.modify i g)[j]? = some b) :
    (j = i ∧ ∃ a, members[i]? = some a ∧ b = g a) ∨ (j ≠ i ∧ members[j]? = some b) := by
  rw [List.getElem?_modify] at found
  obtain ⟨a, old, rfl⟩ := Option.map_eq_some_iff.mp found
  by_cases same : i = j
  · rw [if_pos same]
    exact Or.inl ⟨same.symm, a, same ▸ old, rfl⟩
  · rw [if_neg same]
    exact Or.inr ⟨Ne.symm same, old⟩

theorem map_modify {f : α → β} (same : ∀ a, f (g a) = f a) (members : List α) (i : Nat) :
    (members.modify i g).map f = members.map f := by
  induction members generalizing i with
  | nil => cases i <;> rfl
  | cons first rest ih =>
    cases i with
    | zero => rw [List.modify_zero_cons, List.map_cons, List.map_cons, same]
    | succ i => rw [List.modify_succ_cons, List.map_cons, List.map_cons, ih]

theorem sum_modify (f : α → Nat) (found : members[i]? = some a) :
    ((members.modify i g).map f).sum + f a = (members.map f).sum + f (g a) := by
  induction members generalizing i with
  | nil => cases found
  | cons first rest ih =>
    cases i with
    | zero =>
      cases Option.some.inj found
      rw [List.modify_zero_cons, List.map_cons, List.map_cons, List.sum_cons, List.sum_cons]
      omega
    | succ i =>
      have later := ih found
      rw [List.modify_succ_cons, List.map_cons, List.map_cons, List.sum_cons, List.sum_cons]
      omega

theorem countP_eq_sum (p : α → Bool) (members : List α) : members.countP p = (members.map fun a => (p a).toNat).sum := by
  induction members with
  | nil => rfl
  | cons first rest ih =>
    rw [List.countP_cons, List.map_cons, List.sum_cons, ih]
    cases p first with
    | false => simp
    | true => simp [Nat.add_comm]

theorem countP_modify (p : α → Bool) (found : members[i]? = some a) :
    (members.modify i g).countP p + (p a).toNat = members.countP p + (p (g a)).toNat := by
  rw [countP_eq_sum, countP_eq_sum]
  exact sum_modify (fun a => (p a).toNat) found

end Roster
