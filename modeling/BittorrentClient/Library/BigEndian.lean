import Mathlib.Data.List.Lex
import Mathlib.Data.Nat.Digits.Defs

namespace BigEndian

variable {base : Nat} {a b digits : List Nat}

/-- The number that digits spell, the most significant one first. -/
def value (base : Nat) (digits : List Nat) : Nat := Nat.ofDigits base digits.reverse

theorem value_cons (base d : Nat) (rest : List Nat) :
    value base (d :: rest) = d * base ^ rest.length + value base rest := by
  rw [value, List.reverse_cons, Nat.ofDigits_append, Nat.ofDigits_singleton, List.length_reverse, Nat.add_comm,
    Nat.mul_comm]
  rfl

theorem value_lt (bounded : ∀ d ∈ digits, d < base) : value base digits < base ^ digits.length := by
  induction digits with
  | nil => exact Nat.one_pos
  | cons d rest ih =>
    have tail := ih fun d' member => bounded d' (List.mem_cons_of_mem d member)
    have head : (d + 1) * base ^ rest.length ≤ base * base ^ rest.length :=
      Nat.mul_le_mul_right _ (bounded d List.mem_cons_self)
    rw [value_cons, List.length_cons, Nat.pow_succ, Nat.mul_comm (base ^ rest.length)]
    rw [Nat.add_mul, Nat.one_mul] at head
    omega

/-- Among texts of one length, the lexicographic order is that of the numbers. -/
theorem value_lt_value_iff (same : a.length = b.length) (boundedA : ∀ d ∈ a, d < base)
    (boundedB : ∀ d ∈ b, d < base) : value base a < value base b ↔ a < b := by
  induction a generalizing b with
  | nil =>
    obtain rfl := List.length_eq_zero_iff.mp same.symm
    exact ⟨fun less => absurd less (Nat.lt_irrefl _), fun less => absurd less (List.not_lt_nil _)⟩
  | cons x as ih =>
    cases b with
    | nil => cases same
    | cons y bs =>
      have lengths : as.length = bs.length := Nat.succ.inj same
      have restA : ∀ d ∈ as, d < base := fun d member => boundedA d (List.mem_cons_of_mem x member)
      have restB : ∀ d ∈ bs, d < base := fun d member => boundedB d (List.mem_cons_of_mem y member)
      have belowA := value_lt restA
      have belowB := value_lt restB
      rw [value_cons, value_cons, List.cons_lt_cons_iff, ← ih lengths restA restB, lengths]
      rw [lengths] at belowA
      rcases Nat.lt_trichotomy x y with less | rfl | more
      · have gap : (x + 1) * base ^ bs.length ≤ y * base ^ bs.length := Nat.mul_le_mul_right _ less
        rw [Nat.add_mul, Nat.one_mul] at gap
        exact ⟨fun _ => Or.inl less, fun _ => by omega⟩
      · exact ⟨fun less => Or.inr ⟨rfl, by omega⟩, fun less => by
          rcases less with less | ⟨_, less⟩
          · exact absurd less (Nat.lt_irrefl x)
          · omega⟩
      · have gap : (y + 1) * base ^ bs.length ≤ x * base ^ bs.length := Nat.mul_le_mul_right _ more
        rw [Nat.add_mul, Nat.one_mul] at gap
        constructor
        · intro less
          omega
        · rintro (less | ⟨rfl, _⟩)
          · omega
          · exact absurd more (Nat.lt_irrefl _)

end BigEndian
