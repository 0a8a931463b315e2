import Mathlib.Data.Finset.Card
import Mathlib.Data.Finset.Filter
import Mathlib.Logic.Function.Basic

namespace Machine

variable {ι τ : Type} [DecidableEq ι] [DecidableEq τ]

open Classical in
/-- The items that are done and that no worker is busy with. A counter that
each worker raises when it lets an item go counts these. -/
noncomputable def settled (all : Finset ι) (done : ι → Bool) (busy : τ → Option ι) : Finset ι :=
  all.filter (fun i => done i = true ∧ ∀ t, busy t ≠ some i)

variable {all : Finset ι} {done : ι → Bool} {busy : τ → Option ι} {t : τ} {i j : ι}

omit [DecidableEq ι] [DecidableEq τ] in
theorem mem_settled : i ∈ settled all done busy ↔ i ∈ all ∧ done i = true ∧ ∀ t, busy t ≠ some i := by
  simp only [settled, Finset.mem_filter]

omit [DecidableEq ι] [DecidableEq τ] in
theorem settled_subset (all : Finset ι) (done : ι → Bool) (busy : τ → Option ι) : settled all done busy ⊆ all :=
  fun _ member => (mem_settled.mp member).1

omit [DecidableEq ι] [DecidableEq τ] in
theorem settled_of_idle (idle : ∀ t, busy t = none) : settled all done busy = all.filter (fun i => done i = true) := by
  ext i
  rw [mem_settled, Finset.mem_filter]
  simp only [idle, ne_eq, reduceCtorEq, not_false_eq_true, implies_true, and_true]

omit [DecidableEq ι] in
/-- A worker whose item is not `j`, before and after, does not touch `j`. -/
theorem forall_update_ne {held : Option ι} (before : busy t ≠ some j) (after : held ≠ some j) :
    (∀ u, Function.update busy t held u ≠ some j) ↔ ∀ u, busy u ≠ some j := by
  refine forall_congr' fun u => ?_
  by_cases here : u = t
  · subst here
    rw [Function.update_self]
    exact ⟨fun _ => before, fun _ => after⟩
  · rw [Function.update_of_ne here]

/-- Taking an item and marking it done are one step: nothing settles. -/
theorem settled_acquire (free : done i = false) (idle : busy t = none) :
    settled all (Function.update done i true) (Function.update busy t (some i)) = settled all done busy := by
  ext j
  rw [mem_settled, mem_settled]
  by_cases same : j = i
  · subst same
    refine ⟨fun ⟨_, _, alone⟩ => absurd (Function.update_self t _ busy) (alone t), fun ⟨_, finished, _⟩ => ?_⟩
    rw [free] at finished
    cases finished
  · rw [Function.update_of_ne same, forall_update_ne]
    · rw [idle]
      exact Option.some_ne_none j |>.symm
    · exact fun equal => same (Option.some.inj equal).symm

/-- The only worker on a done item lets it go: that item settles. -/
theorem settled_release (held : busy t = some i) (alone : ∀ u, busy u = some i → u = t) (member : i ∈ all)
    (finished : done i = true) :
    i ∉ settled all done busy ∧
      settled all done (Function.update busy t none) = insert i (settled all done busy) := by
  refine ⟨fun inside => (mem_settled.mp inside).2.2 t held, ?_⟩
  ext j
  rw [Finset.mem_insert, mem_settled, mem_settled]
  by_cases same : j = i
  · subst same
    simp only [member, finished, true_and, true_or, iff_true]
    intro u
    by_cases here : u = t
    · subst here
      rw [Function.update_self]
      exact (Option.some_ne_none j).symm
    · rw [Function.update_of_ne here]
      exact fun other => here (alone u other)
  · simp only [same, false_or]
    rw [forall_update_ne]
    · rw [held]
      exact fun equal => same (Option.some.inj equal).symm
    · exact (Option.some_ne_none j).symm

/-- A worker that gives its item up undone settles nothing. -/
theorem settled_abandon (held : busy t = some i) :
    settled all (Function.update done i false) (Function.update busy t none) = settled all done busy := by
  ext j
  rw [mem_settled, mem_settled]
  by_cases same : j = i
  · subst same
    rw [Function.update_self]
    exact ⟨fun inside => absurd inside.2.1 (by decide), fun inside => absurd held (inside.2.2 t)⟩
  · rw [Function.update_of_ne same, forall_update_ne]
    · rw [held]
      exact fun equal => same (Option.some.inj equal).symm
    · exact (Option.some_ne_none j).symm

end Machine
