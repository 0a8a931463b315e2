import Mathlib.Logic.Function.Basic
import Mathlib.Logic.Relation
import Mathlib.Order.Defs.PartialOrder

namespace LockOrder

variable {τ κ : Type}

/-- Who holds which lock, and for each thread the locks it has taken and those
it has still to take, in the order in which it takes them. -/
structure Table (τ κ : Type) where
  owner : κ → Option τ
  held : τ → List κ
  wanted : τ → List κ

namespace Table

def vacant : Table τ κ := ⟨fun _ => none, fun _ => [], fun _ => []⟩

/-- A thread cannot go on because another one holds its next lock. -/
def Waits (table : Table τ κ) (t u : τ) : Prop := ∃ lock rest, table.wanted t = lock :: rest ∧ table.owner lock = some u

section Moves
variable [DecidableEq τ] [DecidableEq κ]

/-- A thread sets out to take these locks. -/
def request (table : Table τ κ) (t : τ) (locks : List κ) : Table τ κ :=
  { table with wanted := Function.update table.wanted t locks }

/-- A thread takes its next lock, if that is free. -/
def acquire (table : Table τ κ) (t : τ) : Option (Table τ κ) :=
  match table.wanted t with
  | [] => none
  | lock :: rest =>
    match table.owner lock with
    | some _ => none
    | none =>
      some ⟨Function.update table.owner lock (some t), Function.update table.held t (table.held t ++ [lock]),
        Function.update table.wanted t rest⟩

/-- A thread gives back the lock that it has had longest. -/
def release (table : Table τ κ) (t : τ) : Option (Table τ κ) :=
  match table.held t with
  | [] => none
  | lock :: rest =>
    some { table with owner := Function.update table.owner lock none, held := Function.update table.held t rest }

end Moves

/-- Every thread takes its locks in ascending order. -/
structure Ordered [LT κ] (table : Table τ κ) : Prop where
  owned : ∀ lock t, table.owner lock = some t ↔ lock ∈ table.held t
  ascending : ∀ t, (table.held t ++ table.wanted t).Pairwise (· < ·)

namespace Ordered

theorem vacant [LT κ] : (vacant : Table τ κ).Ordered where
  owned := fun _ _ => ⟨fun owned => (nomatch owned), fun member => absurd member List.not_mem_nil⟩
  ascending := fun _ => List.Pairwise.nil

variable [Preorder κ] {table after : Table τ κ} {t : τ}

/-- What a thread holds comes before what it waits for. -/
theorem lt_next (ordered : table.Ordered) {lock next : κ} {rest : List κ} (owned : table.owner lock = some t)
    (wants : table.wanted t = next :: rest) : lock < next := by
  have ascending := ordered.ascending t
  rw [wants, List.pairwise_append] at ascending
  exact ascending.2.2 lock ((ordered.owned lock t).mp owned) next List.mem_cons_self

/-- Along a chain of waiting threads the locks they wait for ascend. -/
theorem lt_of_chain (ordered : table.Ordered) {u : τ} (chain : Relation.TransGen table.Waits t u) {lock : κ}
    {rest : List κ} (wants : table.wanted t = lock :: rest) : ∃ held, table.owner held = some u ∧ lock ≤ held := by
  induction chain with
  | single waits =>
    obtain ⟨first, tail, wants', owned⟩ := waits
    rw [wants] at wants'
    cases wants'
    exact ⟨lock, owned, le_refl lock⟩
  | tail _ waits ih =>
    obtain ⟨held, owned, below⟩ := ih
    obtain ⟨next, tail, wants', owned'⟩ := waits
    exact ⟨next, owned', le_trans below (le_of_lt (ordered.lt_next owned wants'))⟩

theorem acyclic (ordered : table.Ordered) (t : τ) : ¬ Relation.TransGen table.Waits t t := by
  intro chain
  have waits : ∃ lock rest, table.wanted t = lock :: rest := by
    obtain ⟨_, ⟨lock, rest, wants, _⟩, _⟩ := Relation.TransGen.head'_iff.mp chain
    exact ⟨lock, rest, wants⟩
  obtain ⟨lock, rest, wants⟩ := waits
  obtain ⟨held, owned, below⟩ := ordered.lt_of_chain chain wants
  exact absurd (ordered.lt_next owned wants) (not_lt_of_ge below)

variable [DecidableEq τ]

theorem request (ordered : table.Ordered) (idle : table.held t = []) {locks : List κ} (ascending : locks.Pairwise (· < ·)) :
    (table.request t locks).Ordered where
  owned := ordered.owned
  ascending := by
    intro u
    by_cases same : u = t
    · subst same
      simp only [Table.request, Function.update_self, idle, List.nil_append]
      exact ascending
    · simp only [Table.request, Function.update_of_ne same]
      exact ordered.ascending u

variable [DecidableEq κ]

theorem acquire (ordered : table.Ordered) (run : table.acquire t = some after) : after.Ordered := by
  rw [Table.acquire] at run
  split at run
  case h_1 => cases run
  case h_2 lock rest wants =>
    split at run
    case h_1 => cases run
    case h_2 free =>
      cases run
      have unheld : ∀ u, lock ∉ table.held u := fun u member => nomatch free.symm.trans ((ordered.owned lock u).mpr member)
      refine ⟨fun other u => ?_, fun u => ?_⟩
      · by_cases sameLock : other = lock
        · subst sameLock
          by_cases same : u = t
          · subst same
            simp
          · simp [Function.update_of_ne same, unheld u, Ne.symm same]
        · simp only [Function.update_of_ne sameLock, ordered.owned]
          by_cases same : u = t
          · subst same
            simp [sameLock]
          · rw [Function.update_of_ne same]
      · by_cases same : u = t
        · subst same
          have ascending := ordered.ascending u
          rw [wants] at ascending
          simpa using ascending
        · simp only [Function.update_of_ne same]
          exact ordered.ascending u

theorem release (ordered : table.Ordered) (run : table.release t = some after) : after.Ordered := by
  rw [Table.release] at run
  split at run
  case h_1 => cases run
  case h_2 lock rest holds =>
    cases run
    have ascending := ordered.ascending t
    rw [holds, List.cons_append, List.pairwise_cons] at ascending
    have once : lock ∉ rest := fun member => lt_irrefl lock (ascending.1 lock (List.mem_append_left _ member))
    have mine : table.owner lock = some t := (ordered.owned lock t).mpr (holds ▸ List.mem_cons_self)
    refine ⟨fun other u => ?_, fun u => ?_⟩
    · by_cases sameLock : other = lock
      · subst sameLock
        by_cases same : u = t
        · subst same
          simp [once]
        · have notTheirs : other ∉ table.held u := by
            intro member
            have theirs := mine.symm.trans ((ordered.owned other u).mpr member)
            exact same (Option.some.inj theirs).symm
          simp [Function.update_of_ne same, notTheirs]
      · simp only [Function.update_of_ne sameLock, ordered.owned]
        by_cases same : u = t
        · subst same
          rw [Function.update_self, holds, List.mem_cons, or_iff_right sameLock]
        · rw [Function.update_of_ne same]
    · by_cases same : u = t
      · subst same
        simp only [Function.update_self]
        exact ascending.2
      · simp only [Function.update_of_ne same]
        exact ordered.ascending u

end Ordered

end Table

end LockOrder
