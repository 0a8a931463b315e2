import BittorrentClient.Library.Reach

namespace Machine

section
variable {State Label Event : Type} (step : State → Label → Option State) (event : State → Label → Option Event)

/-- What can be seen of a run: the events of its steps, one after the other. -/
def trace : State → List Label → List Event
  | _, [] => []
  | s, label :: rest =>
    (event s label).toList ++ (step s label).elim [] fun next => trace next rest

theorem trace_cons {s next : State} {label : Label} (run : step s label = some next) (rest : List Label) :
    trace step event s (label :: rest) = (event s label).toList ++ trace step event next rest := by
  rw [trace, run]
  rfl

variable {step event}

theorem exec_cons {s s' : State} {label : Label} {rest : List Label} (run : exec step unguarded s (label :: rest) = some s') :
    ∃ next, step s label = some next ∧ exec step unguarded next rest = some s' :=
  Option.bind_eq_some_iff.mp ((exec_unguarded_cons step s label rest).symm.trans run)

theorem exec_append (event : State → Label → Option Event) {s middle : State} {first : List Label} (second : List Label)
    (run : exec step unguarded s first = some middle) :
    exec step unguarded s (first ++ second) = exec step unguarded middle second ∧
      trace step event s (first ++ second) = trace step event s first ++ trace step event middle second := by
  induction first generalizing s with
  | nil =>
    cases Option.some.inj run
    exact ⟨rfl, rfl⟩
  | cons label rest ih =>
    obtain ⟨next, here, later⟩ := exec_cons run
    obtain ⟨same, seen⟩ := ih later
    rw [List.cons_append, exec_unguarded_cons, here, Option.bind_some, trace_cons step event here, trace_cons step event here,
      seen, List.append_assoc]
    exact ⟨same, rfl⟩

/-- What holds of a state and of all that was seen before it is kept along a run, and
every event comes with what its step says of the events before it. -/
theorem trace_invariant {P : State → List Event → Prop} {Q : List Event → Event → Prop}
    (keep : ∀ s s' label seen, P s seen → step s label = some s' →
      P s' (seen ++ (event s label).toList) ∧ ∀ e, event s label = some e → Q seen e)
    {s s' : State} {labels : List Label} {seen : List Event} (base : P s seen) (run : exec step unguarded s labels = some s') :
    P s' (seen ++ trace step event s labels) ∧
      ∀ before e after, trace step event s labels = before ++ e :: after → Q (seen ++ before) e := by
  induction labels generalizing s seen with
  | nil =>
    cases Option.some.inj run
    refine ⟨(List.append_nil seen).symm ▸ base, fun before e after split => ?_⟩
    exact absurd split (List.append_ne_nil_of_right_ne_nil before (List.cons_ne_nil e after)).symm
  | cons label rest ih =>
    obtain ⟨next, here, later⟩ := exec_cons run
    obtain ⟨kept, said⟩ := keep s next label seen base here
    obtain ⟨last, each⟩ := ih kept later
    rw [trace_cons step event here]
    refine ⟨List.append_assoc .. ▸ last, fun before e after split => ?_⟩
    cases seenHere : event s label with
    | none =>
      rw [seenHere] at split each
      have found := each before e after split
      rwa [Option.toList_none, List.append_nil] at found
    | some first =>
      rw [seenHere] at split each
      cases before with
      | nil =>
        cases List.head_eq_of_cons_eq split
        rw [List.append_nil]
        exact said _ seenHere
      | cons other tail =>
        obtain ⟨rfl, rest'⟩ := List.cons_eq_cons.mp split
        have found := each tail e after rest'
        rwa [Option.toList_some, List.append_assoc] at found

end

section
variable {State Label State' Label' Event : Type} {step : State → Label → Option State} {event : State → Label → Option Event}
  {step' : State' → Label' → Option State'} {event' : State' → Label' → Option Event}

/-- If each step of one machine is answered by steps of the other one that look the
same, then each run is answered by a run that looks the same. -/
theorem simulated {Related : State → State' → Prop}
    (keep : ∀ s a s' label, Related s a → step s label = some s' → ∃ moves a', exec step' unguarded a moves = some a' ∧
      trace step' event' a moves = (event s label).toList ∧ Related s' a')
    {s s' : State} {a : State'} (related : Related s a) {labels : List Label} (run : exec step unguarded s labels = some s') :
    ∃ moves a', exec step' unguarded a moves = some a' ∧
      trace step' event' a moves = trace step event s labels ∧ Related s' a' := by
  induction labels generalizing s a with
  | nil =>
    cases Option.some.inj run
    exact ⟨[], a, rfl, rfl, related⟩
  | cons label rest ih =>
    obtain ⟨next, here, later⟩ := exec_cons run
    obtain ⟨first, middle, answered, looks, kept⟩ := keep s a next label related here
    obtain ⟨second, last, answered', looks', kept'⟩ := ih kept later
    have both := exec_append event' second answered
    exact ⟨first ++ second, last, both.1.trans answered',
      by rw [both.2, looks, looks', trace_cons step event here], kept'⟩

end

end Machine
