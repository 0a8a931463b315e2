import Mathlib.Data.List.Forall2

namespace Cpp

variable {ε α β : Type}

/-- A sequence of calls returns exactly when each of them does. -/
theorem bind_eq_ok {first : Except ε α} {next : α → Except ε β} {result : β} :
    (first >>= next) = .ok result ↔ ∃ value, first = .ok value ∧ next value = .ok result := by
  cases first with
  | error error =>
    constructor
    · intro impossible
      cases impossible
    · rintro ⟨_, impossible, _⟩
      cases impossible
  | ok value =>
    constructor
    · exact fun run => ⟨value, rfl, run⟩
    · rintro ⟨_, ⟨⟩, run⟩
      exact run

/-- A sequence of calls throws what the first of them to throw does. -/
theorem bind_eq_error {first : Except ε α} {next : α → Except ε β} {error : ε} :
    (first >>= next) = .error error ↔
      first = .error error ∨ ∃ value, first = .ok value ∧ next value = .error error := by
  cases first with
  | error thrown =>
    constructor
    · intro same
      exact Or.inl (congrArg _ (Except.error.inj same))
    · rintro (same | ⟨_, impossible, _⟩)
      · exact congrArg _ (Except.error.inj same)
      · cases impossible
  | ok value =>
    constructor
    · exact fun run => Or.inr ⟨value, rfl, run⟩
    · rintro (impossible | ⟨_, ⟨⟩, run⟩)
      · cases impossible
      · exact run

/-- A loop that returns has handled every element in its place. -/
theorem mapM_eq_ok {call : α → Except ε β} {items : List α} {results : List β}
    (run : items.mapM call = .ok results) : List.Forall₂ (fun item result => call item = .ok result) items results := by
  induction items generalizing results with
  | nil =>
    rw [List.mapM_nil] at run
    cases run
    exact .nil
  | cons item rest ih =>
    rw [List.mapM_cons] at run
    obtain ⟨first, called, later⟩ := bind_eq_ok.mp run
    obtain ⟨others, looped, built⟩ := bind_eq_ok.mp later
    cases built
    exact .cons called (ih looped)

end Cpp
