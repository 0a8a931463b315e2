import BittorrentClient.Library.Reach
import Mathlib.Logic.Function.Basic

namespace Machine

/-- What a thread does: one step after the other on a state that it shares with
others. Each step gets what the outside has for it at that moment. -/
inductive Script (Shared Outside Result : Type)
  | done (result : Result)
  | call (act : Outside → Shared → Shared) (next : Outside → Shared → Script Shared Outside Result)

namespace Script

variable {Shared Outside Result Other : Type}

def bind : Script Shared Outside Result → (Result → Script Shared Outside Other) → Script Shared Outside Other
  | done result, rest => rest result
  | call act next, rest => call act fun outside s => (next outside s).bind rest

instance : Monad (Script Shared Outside) where
  pure := done
  bind := bind

/-- One step with a result. -/
def atomically (f : Outside → Shared → Result × Shared) : Script Shared Outside Result :=
  call (fun outside s => (f outside s).2) fun outside s => done (f outside s).1

/-- The script of the one named `i`, where each has a state of its own. -/
def on {ι : Type} [DecidableEq ι] (i : ι) : Script Shared Outside Result → Script (ι → Shared) Outside Result
  | done result => done result
  | call act next =>
    call (fun outside s => Function.update s i (act outside (s i))) fun outside s => (next outside (s i)).on i

/-- The runs of a script in which no other thread takes a step. -/
inductive Alone : Script Shared Outside Result → Shared → Result → Shared → Prop
  | done {s result} : Alone (done result) s result s
  | call {act next s result s'} (outside : Outside) : Alone (next outside s) (act outside s) result s' →
      Alone (call act next) s result s'

section Alone
variable {script : Script Shared Outside Result} {rest : Result → Script Shared Outside Other} {s middle s' : Shared}
  {result : Result} {other : Other}

theorem Alone.atomically (f : Outside → Shared → Result × Shared) (outside : Outside) (s : Shared) :
    Alone (atomically f) s (f outside s).1 (f outside s).2 :=
  .call outside .done

theorem Alone.bind (first : Alone script s result middle) (second : Alone (rest result) middle other s') :
    Alone (script >>= rest) s other s' := by
  induction first with
  | done => exact second
  | call outside _ ih => exact .call outside (ih second)

/-- One does what it does, and the others keep their states. -/
theorem Alone.on {ι : Type} [DecidableEq ι] {i : ι} (alone : Alone script s result s') {all : ι → Shared} (here : all i = s) :
    Alone (script.on i) all result (Function.update all i s') := by
  induction alone generalizing all with
  | done =>
    subst here
    rw [Function.update_eq_self]
    exact .done
  | call outside _ ih =>
    subst here
    have rest := @ih (Function.update all i _) (Function.update_self ..)
    rw [Function.update_idem] at rest
    exact .call outside rest

end Alone

end Script

/-- What every thread keeps: a property of the shared state, and a relation that
each of its steps stays in. -/
structure Discipline (Shared : Type) where
  holds : Shared → Prop
  grows : Shared → Shared → Prop
  refl : ∀ s, grows s s
  trans : ∀ {s middle s'}, grows s middle → grows middle s' → grows s s'

namespace Script

section Keeps
variable {Shared Outside Result Other : Type} (d : Discipline Shared)

/-- From here on the script keeps the discipline, whatever the others do who keep
it too, and ends with a result that `post` holds for. -/
def Keeps (post : Result → Shared → Prop) : Script Shared Outside Result → Shared → Prop
  | done result, s => post result s
  | call act next, s => ∀ s', d.grows s s' → d.holds s' → ∀ outside,
      d.holds (act outside s') ∧ d.grows s' (act outside s') ∧ (next outside s').Keeps post (act outside s')

variable {d} {script : Script Shared Outside Result} {rest : Result → Script Shared Outside Other}
  {post post' : Result → Shared → Prop} {last : Other → Shared → Prop} {s s' : Shared}

theorem keeps_pure {result : Result} (there : post result s) :
    (pure result : Script Shared Outside Result).Keeps d post s := there

theorem Keeps.imp (keeps : script.Keeps d post s) (weaker : ∀ result s, post result s → post' result s) :
    script.Keeps d post' s := by
  induction script generalizing s with
  | done result => exact weaker _ _ keeps
  | call act next ih =>
    intro s' grown there outside
    obtain ⟨holds, grows, later⟩ := keeps s' grown there outside
    exact ⟨holds, grows, ih outside s' later⟩

/-- The others go on before the script does. -/
theorem Keeps.later (keeps : script.Keeps d post s) (grown : d.grows s s')
    (stable : ∀ result, post result s → post result s') : script.Keeps d post s' := by
  cases script with
  | done result => exact stable result keeps
  | call act next => exact fun s'' more => keeps s'' (d.trans grown more)

theorem Keeps.bind (first : script.Keeps d (fun result s => (rest result).Keeps d last s) s) :
    (script >>= rest).Keeps d last s := by
  induction script generalizing s with
  | done result => exact first
  | call act next ih =>
    intro s' grown there outside
    obtain ⟨holds, grows, later⟩ := first s' grown there outside
    exact ⟨holds, grows, ih outside s' later⟩

theorem Keeps.grown (keeps : script.Keeps d post s) :
    script.Keeps d (fun result s' => post result s' ∧ d.grows s s') s := by
  induction script generalizing s with
  | done result => exact ⟨keeps, d.refl s⟩
  | call act next ih =>
    intro s' grown there outside
    obtain ⟨holds, grows, later⟩ := keeps s' grown there outside
    refine ⟨holds, grows, (ih outside s' later).imp fun result last ending => ?_⟩
    exact ⟨ending.1, d.trans (d.trans grown grows) ending.2⟩

/-- One script after the other: what was known before is known later. -/
theorem Keeps.seq (first : script.Keeps d post s)
    (second : ∀ result s', d.grows s s' → post result s' → (rest result).Keeps d last s') :
    (script >>= rest).Keeps d last s :=
  .bind (first.grown.imp fun result s' ending => second result s' ending.2 ending.1)

theorem keeps_forM {Item : Type} {items : List Item} {body : Item → Script Shared Outside Unit}
    (keeps : ∀ item ∈ items, ∀ s', d.grows s s' → (body item).Keeps d (fun _ _ => True) s') :
    (items.forM body).Keeps d (fun _ _ => True) s := by
  induction items generalizing s with
  | nil => exact keeps_pure trivial
  | cons item items ih =>
    refine (keeps item List.mem_cons_self s (d.refl s)).seq fun _ s' grown _ => ih fun other member s'' more => ?_
    exact keeps other (List.mem_cons_of_mem _ member) s'' (d.trans grown more)

end Keeps

section Ensures
variable {Shared Outside Result Other : Type} (rely : Shared → Outside → Shared → Prop)

/-- Whatever the others do before each of its steps, as long as it is within the
relation, the script ends with a result that `post` holds for. -/
def Ensures (post : Result → Shared → Prop) : Script Shared Outside Result → Shared → Prop
  | done result, s => post result s
  | call act next, s => ∀ outside s', rely s outside s' → (next outside s').Ensures post (act outside s')

variable {rely} {script : Script Shared Outside Result} {rest : Result → Script Shared Outside Other}
  {post post' : Result → Shared → Prop} {last : Other → Shared → Prop} {s : Shared}

theorem ensures_of_forall (always : ∀ result s, post result s) : script.Ensures rely post s := by
  induction script generalizing s with
  | done result => exact always result s
  | call act next ih => exact fun outside s' _ => ih outside s'

theorem Ensures.imp (ensures : script.Ensures rely post s) (weaker : ∀ result s, post result s → post' result s) :
    script.Ensures rely post' s := by
  induction script generalizing s with
  | done result => exact weaker _ _ ensures
  | call act next ih => exact fun outside s' relied => ih outside s' (ensures outside s' relied)

theorem Ensures.bind (first : script.Ensures rely post s)
    (second : ∀ result s', post result s' → (rest result).Ensures rely last s') : (script >>= rest).Ensures rely last s := by
  induction script generalizing s with
  | done result => exact second result s first
  | call act next ih => exact fun outside s' relied => ih outside s' (first outside s' relied)

/-- A loop makes good what its rounds add up to. -/
theorem ensures_forM {Item : Type} {body : Item → Script Shared Outside Unit} {I : List Item → Shared → Prop}
    (items past : List Item) (start : I past s)
    (round : ∀ past item, item ∈ items → ∀ s, I past s → (body item).Ensures rely (fun _ => I (past ++ [item])) s) :
    (items.forM body).Ensures rely (fun _ => I (past ++ items)) s := by
  induction items generalizing past s with
  | nil =>
    rw [List.append_nil]
    exact start
  | cons item items ih =>
    refine (round past item List.mem_cons_self s start).bind fun _ s' there => ?_
    have others := ih (past ++ [item]) there fun past other member => round past other (List.mem_cons_of_mem _ member)
    rw [List.append_assoc] at others
    exact others

end Ensures

section On
variable {Shared Outside Result Other ι : Type} [DecidableEq ι] (i : ι)

theorem on_bind (script : Script Shared Outside Result) (rest : Result → Script Shared Outside Other) :
    (script >>= rest).on i = script.on i >>= fun result => (rest result).on i := by
  induction script with
  | done result => rfl
  | call act next ih =>
    change call _ _ = call _ _
    congr 1
    funext outside s
    exact ih outside (s i)

theorem on_forM {Item : Type} (items : List Item) (body : Item → Script Shared Outside Unit) :
    (items.forM body).on i = items.forM fun item => (body item).on i := by
  induction items with
  | nil => rfl
  | cons item items ih =>
    change ((body item >>= fun _ => items.forM body).on i) = _
    rw [on_bind, ih]
    rfl

end On

end Script

/-- Threads and the state that they share. -/
structure Pool (Shared Outside : Type) where
  shared : Shared
  threads : List (Script Shared Outside Unit)

/-- A task starts a thread, or a thread takes its next step. -/
inductive Turn (Task Outside : Type)
  | start (task : Task)
  | run (thread : Nat) (outside : Outside)

namespace Pool

variable {Shared Outside Task : Type} (program : Task → Shared → Option (Script Shared Outside Unit))

def step (pool : Pool Shared Outside) : Turn Task Outside → Option (Pool Shared Outside)
  | .start task => (program task pool.shared).map fun script => { pool with threads := pool.threads ++ [script] }
  | .run thread outside =>
    match pool.threads[thread]? with
    | some (.call act next) => some ⟨act outside pool.shared, pool.threads.set thread (next outside pool.shared)⟩
    | _ => none

variable {program} {d : Discipline Shared} {guard : Pool Shared Outside → Turn Task Outside → Prop}

/-- The discipline that every script keeps when it starts holds however the threads
interleave. -/
theorem reach_holds {init : Shared → Prop} {pool : Pool Shared Outside}
    (reach : Reach (fun pool => init pool.shared ∧ pool.threads = []) (step program) guard pool)
    (base : ∀ s, init s → d.holds s)
    (starts : ∀ pool task script, guard pool (.start task) → d.holds pool.shared →
      program task pool.shared = some script → script.Keeps d (fun _ _ => True) pool.shared) :
    d.holds pool.shared ∧ ∀ script ∈ pool.threads, script.Keeps d (fun _ _ => True) pool.shared := by
  refine reach.invariant (P := fun pool => d.holds pool.shared ∧
    ∀ script ∈ pool.threads, script.Keeps d (fun _ _ => True) pool.shared) ?_ ?_
  · rintro pool ⟨initial, none⟩
    refine ⟨base _ initial, fun script member => ?_⟩
    rw [none] at member
    cases member
  · rintro before after turn ⟨holds, keeps⟩ allowed run
    cases turn with
    | start task =>
      obtain ⟨script, found, rfl⟩ := Option.map_eq_some_iff.mp run
      refine ⟨holds, fun other member => ?_⟩
      rcases List.mem_append.mp member with old | new
      · exact keeps other old
      · rw [List.mem_singleton.mp new]
        exact starts before task script allowed holds found
    | run thread outside =>
      simp only [step] at run
      split at run
      case h_2 => cases run
      case h_1 act next found =>
        cases Option.some.inj run
        obtain ⟨kept, grows, later⟩ := keeps _ (List.mem_of_getElem? found) before.shared (d.refl _) holds outside
        refine ⟨kept, fun other member => ?_⟩
        rcases List.mem_or_eq_of_mem_set member with old | new
        · exact (keeps other old).later grows fun _ _ => trivial
        · rw [new]
          exact later

/-- A thread may go on by itself to its end. -/
theorem reach_alone {init : Pool Shared Outside → Prop} {pool : Pool Shared Outside} {thread : Nat}
    {script : Script Shared Outside Unit} {s' : Shared} (alone : script.Alone pool.shared () s')
    (reach : Reach init (step program) guard pool) (here : pool.threads[thread]? = some script)
    (allowed : ∀ pool outside, guard pool (.run thread outside)) :
    ∃ threads, Reach init (step program) guard ⟨s', threads⟩ := by
  generalize there : pool.shared = s at alone
  generalize done : () = result at alone
  induction alone generalizing pool with
  | done =>
    subst there
    exact ⟨pool.threads, reach⟩
  | @call act next s result s' outside _ ih =>
    subst there
    have inside : thread < pool.threads.length := (List.getElem?_eq_some_iff.mp here).1
    have run : step program pool (.run thread outside) =
        some ⟨act outside pool.shared, pool.threads.set thread (next outside pool.shared)⟩ := by
      simp only [step, here]
    exact ih (.next reach (allowed pool outside) run) (List.getElem?_set_self inside) rfl done

end Pool

end Machine
