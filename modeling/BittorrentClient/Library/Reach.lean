import Mathlib.Data.Option.Basic

namespace Machine

variable {State Label : Type}

/-- The state after a list of labels, if each of them was allowed and enabled
in turn. -/
def exec (step : State → Label → Option State) (guard : State → Label → Prop) [∀ s label, Decidable (guard s label)] :
    State → List Label → Option State
  | s, [] => some s
  | s, label :: rest => if guard s label then (step s label).bind (fun next => exec step guard next rest) else none

/-- The states of the runs that start in `init` and take only steps that the
guard allows in the state before them. -/
inductive Reach (init : State → Prop) (step : State → Label → Option State) (guard : State → Label → Prop) :
    State → Prop
  | start {s} : init s → Reach init step guard s
  | next {s s' label} : Reach init step guard s → guard s label → step s label = some s' →
      Reach init step guard s'

/-- The guard of the runs without restriction. -/
def unguarded (_ : State) (_ : Label) : Prop := True

instance (s : State) (label : Label) : Decidable (unguarded s label) := inferInstanceAs (Decidable True)

theorem exec_unguarded_cons (step : State → Label → Option State) (s : State) (label : Label) (rest : List Label) :
    exec step unguarded s (label :: rest) = (step s label).bind fun next => exec step unguarded next rest := if_pos trivial

section
variable {init : State → Prop} {step : State → Label → Option State} {guard : State → Label → Prop} {s : State}

/-- What holds at the start and is kept by every allowed step holds in every
state reached. -/
theorem Reach.invariant {P : State → Prop} (reach : Reach init step guard s) (base : ∀ s, init s → P s)
    (keep : ∀ s s' label, P s → guard s label → step s label = some s' → P s') : P s := by
  induction reach with
  | start initial => exact base _ initial
  | next _ allowed run ih => exact keep _ _ _ ih allowed run

/-- The runs from one start are among those from all of them. -/
theorem Reach.among {start : State} (initial : init start) (reach : Reach (· = start) step guard s) : Reach init step guard s := by
  induction reach with
  | start same => exact same ▸ .start initial
  | next _ allowed run ih => exact .next ih allowed run

/-- The runs under one guard are among those under another that allows as much. -/
theorem Reach.weaken {guard' : State → Label → Prop} (reach : Reach init step guard s)
    (allows : ∀ s label, guard s label → guard' s label) : Reach init step guard' s := by
  induction reach with
  | start initial => exact .start initial
  | next _ allowed run ih => exact .next ih (allows _ _ allowed) run

theorem Reach.exec [∀ s label, Decidable (guard s label)] (reach : Reach init step guard s) {labels : List Label}
    {s' : State} (run : exec step guard s labels = some s') : Reach init step guard s' := by
  induction labels generalizing s with
  | nil =>
    cases Option.some.inj run
    exact reach
  | cons label rest ih =>
    simp only [Machine.exec] at run
    split at run
    case isTrue allowed =>
      obtain ⟨middle, first, later⟩ := Option.bind_eq_some_iff.mp run
      exact ih (.next reach allowed first) later
    case isFalse => cases run

end

end Machine
