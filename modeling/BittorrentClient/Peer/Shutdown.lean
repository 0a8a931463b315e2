import BittorrentClient.Peer.WorkerCount

namespace BittorrentClient
open Machine

namespace WorkerPhase

/-- How many steps of the worker are left at most, if `run` ends with the next
one. -/
def left : WorkerPhase → Nat
  | .starting => 10
  | .prepared => 9
  | .constructed => 8
  | .registered => 7
  | .connecting => 6
  | .connected => 5
  | .running => 4
  | .leaving => 3
  | .finishing => 2
  | .replacing => 1
  | .finished => 0

variable {known stopped : Bool} {phase after : WorkerPhase} {event : WorkerEvent}

/-- `run` is entered only by a worker that has read `m_stopped` as false. -/
theorem next_running (moves : phase.next known stopped event = some .running) :
    phase = .running ∨ (phase = .connected ∧ stopped = false) := by
  cases phase <;> cases event <;> cases known <;> cases stopped <;> cases moves
  case connected.go.false.false => exact Or.inr ⟨rfl, rfl⟩
  case connected.go.true.false => exact Or.inr ⟨rfl, rfl⟩
  all_goals exact Or.inl rfl

/-- A worker that is registered after a step was so before, or is just now. -/
theorem next_active (moves : phase.next known stopped event = some after) (active : after.active = true) :
    phase = .constructed ∨ (phase.active = true ∧ phase ≠ .leaving) := by
  cases phase <;> cases event <;> cases known <;> cases stopped <;> cases moves <;>
    first | exact Or.inl rfl | exact Or.inr ⟨rfl, WorkerPhase.noConfusion⟩ | cases active

/-- Every step but that of a worker that stays in `run` brings its end nearer. -/
theorem next_left (moves : phase.next known stopped event = some after) :
    (phase = .running ∧ after = .running ∧ event = .handle) ∨ after.left < phase.left := by
  cases phase <;> cases event <;> cases known <;> cases stopped <;> cases moves <;>
    first | exact Or.inl ⟨rfl, rfl, rfl⟩ | exact Or.inr (by decide)

/-- Whoever is not in `on_peer_worker_finished` and not done can go on, be it by
the end of `run`. -/
theorem next_exists (known stopped : Bool) (waiting : phase ≠ .replacing) (unfinished : phase ≠ .finished) :
    ∃ event after, phase.next known stopped event = some after ∧ event ≠ .handle := by
  cases phase
  case running => exact ⟨.fail, .leaving, rfl, WorkerEvent.noConfusion⟩
  case replacing => exact absurd rfl waiting
  case finished => exact absurd rfl unfinished
  all_goals exact ⟨.go, _, rfl, WorkerEvent.noConfusion⟩

end WorkerPhase

namespace Worker

/-- How many steps of the worker are left at most, if no message arrives. -/
def left (worker : Worker) : Nat :=
  worker.phase.left + if worker.phase = .running then worker.inbox else 0

/-- A worker that knows of `stop` has fewer steps left after each of them. -/
theorem left_advance {worker : Worker} {known : Bool} {phase : WorkerPhase} {event : WorkerEvent}
    (moves : worker.phase.next known true event = some phase) (reads : event = .handle → 0 < worker.inbox) :
    (worker.advance phase event).left < worker.left := by
  rcases WorkerPhase.next_left moves with ⟨ran, runs, handles⟩ | nearer
  · have waits := reads handles
    simp only [Worker.left, Worker.advance, ran, runs, handles, if_true]
    omega
  · have outside : phase ≠ .running := by
      rintro rfl
      rcases WorkerPhase.next_running moves with ran | ⟨_, impossible⟩
      · rw [ran] at nearer
        exact absurd nearer (Nat.lt_irrefl _)
      · cases impossible
    have after : (worker.advance phase event).left = phase.left + 0 := congrArg (phase.left + ·) (if_neg outside)
    have before : worker.phase.left ≤ worker.left := Nat.le_add_right _ _
    omega

end Worker

namespace WorkerPool
variable {pool pool' : WorkerPool} {i : Nat} {event : WorkerEvent} {label : Label}

/-- `stop` will still come to the connection. -/
def Awaits (pool : WorkerPool) (i : Nat) : Prop :=
  match pool.lock with
  | .cancelling remaining => i ∈ remaining
  | _ => pool.stopping ≠ .cancelled

/-- What `stop` relies on. -/
structure Halting (pool : WorkerPool) : Prop where
  flagged : pool.stopping ≠ .notCalled → pool.mStopped = true
  cancelling : ∀ remaining, pool.lock = .cancelling remaining → pool.stopping = .flagged
  quiet : pool.stopping = .cancelled → ∀ caller, pool.lock ≠ .spawning caller
  registered : ∀ i worker, pool.mThreads[i]? = some worker → worker.phase.active = true → i ∈ pool.mActiveConnections
  shut : ∀ i worker, pool.mThreads[i]? = some worker → worker.phase = .running → worker.shut = true ∨ pool.Awaits i

theorem halting_make : make.Halting where
  flagged := fun called => absurd rfl called
  cancelling := fun _ impossible => nomatch impossible
  quiet := fun impossible => nomatch impossible
  registered := fun _ _ found => nomatch found
  shut := fun _ _ found => nomatch found

/-- Where nobody cancels, only the end of `stop` matters. -/
theorem awaits_iff (idle : ∀ remaining, pool.lock ≠ .cancelling remaining) :
    pool.Awaits i ↔ pool.stopping ≠ .cancelled := by
  unfold Awaits
  cases held : pool.lock with
  | cancelling remaining => exact absurd held (idle remaining)
  | _ => exact Iff.rfl

/-- The lock changes hands, but not to `stop`. -/
theorem Halting.hand (halting : pool.Halting) (stopping : pool'.stopping = pool.stopping)
    (stopped : pool'.mStopped = pool.mStopped) (threads : pool'.mThreads = pool.mThreads)
    (active : pool'.mActiveConnections = pool.mActiveConnections)
    (before : ∀ remaining, pool.lock ≠ .cancelling remaining) (after : ∀ remaining, pool'.lock ≠ .cancelling remaining)
    (quiet : pool.stopping = .cancelled → ∀ caller, pool'.lock ≠ .spawning caller) : pool'.Halting := by
  refine ⟨?_, fun remaining held => absurd held (after remaining), ?_, ?_, fun i worker found running => ?_⟩
  · rw [stopping, stopped]
    exact halting.flagged
  · rw [stopping]
    exact quiet
  · rw [threads, active]
    exact halting.registered
  · rw [threads] at found
    rw [awaits_iff after, stopping, ← awaits_iff (i := i) before]
    exact halting.shut i worker found running

/-- Before its exchange `stop` has all its work to do. -/
theorem Halting.awaits_of_not_stopped (halting : pool.Halting) (notStopped : pool.mStopped = false) (i : Nat) :
    pool.Awaits i := by
  have notCalled : pool.stopping = .notCalled := by
    by_contra called
    rw [halting.flagged called] at notStopped
    cases notStopped
  refine (awaits_iff fun remaining held => ?_).mpr ?_
  · cases notCalled.symm.trans (halting.cancelling remaining held)
  · rw [notCalled]
    exact StopPhase.noConfusion

theorem effect_mem_active {phase : WorkerPhase} {j : Nat} (other : phase ≠ .leaving ∨ j ≠ i)
    (member : j ∈ pool.mActiveConnections) : j ∈ (effect i phase pool).mActiveConnections := by
  cases phase with
  | constructed => exact List.mem_append_left _ member
  | leaving =>
    refine List.mem_filter.mpr ⟨member, ?_⟩
    exact decide_eq_true (other.resolve_left (not_not_intro rfl))
  | _ => exact member

/-- A free lock is not held by `stop`. -/
theorem ne_cancelling_of_isFree {lock : SpawnLock} (free : lock.isFree = true) (remaining : List Nat) :
    lock ≠ .cancelling remaining := by
  rintro rfl
  cases free

/-- A step of a worker takes nothing from what `stop` has still to do. -/
theorem awaits_effect (pool : WorkerPool) (i j : Nat) {phase : WorkerPhase}
    (locks : phase.locks = true → pool.lock.isFree = true) : (effect i phase pool).Awaits j ↔ pool.Awaits j := by
  cases phase with
  | finishing =>
    have held : ∀ remaining, (effect i .finishing pool).lock ≠ .cancelling remaining := fun _ impossible => (nomatch impossible)
    rw [awaits_iff held, awaits_iff (ne_cancelling_of_isFree (locks rfl))]
    rfl
  | _ => exact Iff.rfl

/-- Nor does it give the lock to anyone but itself. -/
theorem lock_effect (pool : WorkerPool) (i : Nat) (phase : WorkerPhase) :
    (effect i phase pool).lock = pool.lock ∨ (phase = .finishing ∧ (effect i phase pool).lock = .looping (some i)) := by
  cases phase with
  | finishing => exact Or.inr ⟨rfl, rfl⟩
  | _ => exact Or.inl rfl

theorem Halting.worker (halting : pool.Halting) {worker : Worker} {phase : WorkerPhase}
    (found : pool.mThreads[i]? = some worker)
    (moves : worker.phase.next (worker.peerIndex < pool.mAllPeers.length) pool.mStopped event = some phase)
    (locks : worker.phase.locks = true → pool.lock.isFree = true) :
    (effect i worker.phase { pool with mThreads := pool.mThreads.modify i (·.advance phase event) }).Halting := by
  have awaits := fun j => awaits_effect { pool with mThreads := pool.mThreads.modify i (·.advance phase event) } i j locks
  have lock := lock_effect { pool with mThreads := pool.mThreads.modify i (·.advance phase event) } i worker.phase
  obtain ⟨threads, _, _, stopped, _, stopping⟩ := effect_same i worker.phase
    { pool with mThreads := pool.mThreads.modify i (·.advance phase event) }
  constructor
  · rw [stopping, stopped]
    exact halting.flagged
  · intro remaining held
    rw [stopping]
    rcases lock with same | ⟨_, looping⟩
    · exact halting.cancelling remaining (same.symm.trans held)
    · cases looping.symm.trans held
  · intro cancelled caller held
    rw [stopping] at cancelled
    rcases lock with same | ⟨_, looping⟩
    · exact halting.quiet cancelled caller (same.symm.trans held)
    · cases looping.symm.trans held
  · intro j other there active
    rw [threads] at there
    rcases Roster.of_modify there with ⟨rfl, old, _, rfl⟩ | ⟨different, same⟩
    · rcases WorkerPhase.next_active moves active with constructed | ⟨before, notLeaving⟩
      · rw [constructed]
        exact List.mem_append_right _ (List.mem_singleton_self j)
      · exact effect_mem_active (Or.inl notLeaving) (halting.registered j worker found before)
    · exact effect_mem_active (Or.inr different) (halting.registered j other same active)
  · intro j other there running
    rw [threads] at there
    rw [awaits j]
    rcases Roster.of_modify there with ⟨rfl, old, before, rfl⟩ | ⟨_, same⟩
    · cases found.symm.trans before
      change phase = .running at running
      rw [running] at moves
      rcases WorkerPhase.next_running moves with ran | ⟨_, notStopped⟩
      · exact halting.shut j worker found ran
      · exact Or.inr (halting.awaits_of_not_stopped notStopped j)
    · exact halting.shut j other same running

theorem Halting.release (halting : pool.Halting) {caller : Option Nat} (held : pool.lock = .looping caller) :
    (pool.release caller).Halting := by
  have idle : ∀ remaining, pool.lock ≠ .cancelling remaining := fun remaining other => nomatch held.symm.trans other
  have freed : ({ pool with lock := .free } : WorkerPool).Halting :=
    halting.hand rfl rfl rfl rfl idle (fun _ impossible => nomatch impossible) (fun _ _ impossible => nomatch impossible)
  cases caller with
  | none => exact freed
  | some i =>
    refine ⟨freed.flagged, freed.cancelling, freed.quiet, fun j worker there active => ?_, fun j worker there running => ?_⟩
    · rcases Roster.of_modify there with ⟨_, _, _, rfl⟩ | ⟨_, same⟩
      · cases active
      · exact freed.registered j worker same active
    · rcases Roster.of_modify there with ⟨_, _, _, rfl⟩ | ⟨_, same⟩
      · cases running
      · exact freed.shut j worker same running

theorem Halting.spawn (halting : pool.Halting) {caller : Option Nat} (held : pool.lock = .spawning caller) :
    { pool with
      mNextPeerIndex := pool.mNextPeerIndex + 1
      mWorkersRunning := pool.mWorkersRunning + 1
      mThreads := pool.mThreads ++ [(⟨pool.mNextPeerIndex, .starting, false, 0⟩ : Worker)]
      lock := .looping caller }.Halting := by
  have idle : ∀ remaining, pool.lock ≠ .cancelling remaining := fun remaining other => nomatch held.symm.trans other
  have passed : ({ pool with lock := .looping caller } : WorkerPool).Halting :=
    halting.hand rfl rfl rfl rfl idle (fun _ impossible => nomatch impossible) (fun _ _ impossible => nomatch impossible)
  have old : ∀ (j : Nat) (worker : Worker),
      (pool.mThreads ++ [(⟨pool.mNextPeerIndex, .starting, false, 0⟩ : Worker)])[j]? = some worker →
      worker.phase ≠ .starting → pool.mThreads[j]? = some worker := by
    intro j worker there notNew
    rcases Nat.lt_or_ge j pool.mThreads.length with inside | beyond
    · rwa [List.getElem?_append_left inside] at there
    · rw [List.getElem?_append_right beyond] at there
      rw [List.mem_singleton.mp (List.mem_of_getElem? there)] at notNew
      exact absurd rfl notNew
  refine ⟨passed.flagged, passed.cancelling, passed.quiet, fun j worker there active => ?_, fun j worker there running => ?_⟩
  · refine passed.registered j worker (old j worker there fun new => ?_) active
    rw [new] at active
    cases active
  · refine passed.shut j worker (old j worker there fun new => ?_) running
    rw [new] at running
    cases running

/-- `stop` takes the lock with all that are registered before it. -/
theorem Halting.stopLock (halting : pool.Halting) (called : pool.stopping = .flagged) :
    ({ pool with lock := .cancelling pool.mActiveConnections } : WorkerPool).Halting := by
  refine ⟨halting.flagged, fun _ _ => called, fun _ _ impossible => (nomatch impossible), halting.registered, ?_⟩
  intro i worker found running
  exact Or.inr (halting.registered i worker found (by rw [running]; rfl))

/-- One connection is cancelled: if it runs, its socket is shut down. -/
theorem Halting.cancel (halting : pool.Halting) {rest : List Nat} (held : pool.lock = .cancelling (i :: rest)) :
    { pool with
      lock := .cancelling rest
      mThreads := pool.mThreads.modify i fun worker => { worker with shut := worker.shut || worker.phase.online } }.Halting := by
  have called := halting.cancelling _ held
  refine ⟨halting.flagged, fun _ _ => called, fun _ _ impossible => (nomatch impossible), fun j worker there active => ?_,
    fun j worker there running => ?_⟩
  · rcases Roster.of_modify there with ⟨rfl, old, found, rfl⟩ | ⟨_, same⟩
    · exact halting.registered j old found active
    · exact halting.registered j worker same active
  · rcases Roster.of_modify there with ⟨_, old, _, rfl⟩ | ⟨different, same⟩
    · refine Or.inl ?_
      change old.phase = .running at running
      change (old.shut || old.phase.online) = true
      rw [running]
      exact Bool.or_true _
    · refine (halting.shut j worker same running).imp_right fun awaits => ?_
      rw [Awaits, held] at awaits
      exact (List.mem_cons.mp awaits).resolve_left different

/-- A message that arrives changes nothing of this. -/
theorem Halting.arrive (halting : pool.Halting) (i : Nat) :
    { pool with
      mThreads := pool.mThreads.modify i fun worker => { worker with inbox := worker.inbox + 1 } }.Halting := by
  refine ⟨halting.flagged, halting.cancelling, halting.quiet, fun j worker there active => ?_,
    fun j worker there running => ?_⟩
  · rcases Roster.of_modify there with ⟨rfl, old, found, rfl⟩ | ⟨_, same⟩
    · exact halting.registered j old found active
    · exact halting.registered j worker same active
  · rcases Roster.of_modify there with ⟨rfl, old, found, rfl⟩ | ⟨_, same⟩
    · exact halting.shut j old found running
    · exact halting.shut j worker same running

/-- The exchange of `stop`. -/
theorem Halting.stop (halting : pool.Halting) (notStopped : pool.mStopped = false) :
    ({ pool with mStopped := true, stopping := .flagged } : WorkerPool).Halting := by
  refine ⟨fun _ => rfl, fun _ _ => rfl, fun impossible => (nomatch impossible), halting.registered, fun i _ _ _ => Or.inr ?_⟩
  have awaits := halting.awaits_of_not_stopped notStopped i
  unfold Awaits at awaits ⊢
  cases held : pool.lock with
  | cancelling remaining =>
    rw [held] at awaits
    exact awaits
  | _ => exact StopPhase.noConfusion

/-- `stop` has cancelled them all. -/
theorem Halting.stopUnlock (halting : pool.Halting) (held : pool.lock = .cancelling []) :
    ({ pool with lock := .free, stopping := .cancelled } : WorkerPool).Halting := by
  have called : pool.stopping ≠ .notCalled := by rw [halting.cancelling [] held]; exact StopPhase.noConfusion
  refine ⟨fun _ => halting.flagged called, fun _ impossible => (nomatch impossible),
    fun _ _ impossible => (nomatch impossible), halting.registered, fun i worker found running => Or.inl ?_⟩
  refine (halting.shut i worker found running).resolve_right fun awaits => ?_
  rw [Awaits, held] at awaits
  cases awaits

/-- Any step. -/
theorem Halting.step (halting : pool.Halting) (run : pool.step label = some pool') : pool'.Halting := by
  cases move_of_step run with
  | start | completes => exact ⟨halting.flagged, halting.cancelling, halting.quiet, halting.registered, halting.shut⟩
  | startAlone free | startPeers free | newPeer free =>
    have idle : ∀ remaining, pool.lock ≠ .cancelling remaining := fun remaining other => nomatch free.symm.trans other
    exact halting.hand rfl rfl rfl rfl idle (fun _ impossible => nomatch impossible) (fun _ _ impossible => nomatch impossible)
  | knownPeer => exact halting
  | worker found moves locks _ => exact halting.worker found moves locks
  | @arrive i _ _ _ => exact halting.arrive i
  | loopEnds held _ => exact halting.release held
  | loopGoesOn held notStopped _ _ =>
    have idle : ∀ remaining, pool.lock ≠ .cancelling remaining := fun remaining other => nomatch held.symm.trans other
    refine halting.hand rfl rfl rfl rfl idle (fun _ impossible => nomatch impossible) (fun cancelled => ?_)
    have stopped := halting.flagged (by rw [cancelled]; exact StopPhase.noConfusion)
    rw [stopped] at notStopped
    cases notStopped
  | spawn held => exact halting.spawn held
  | stop notStopped => exact halting.stop notStopped
  | stopLock called _ => exact halting.stopLock called
  | cancel held => exact halting.cancel held
  | stopUnlock held => exact halting.stopUnlock held

/-- `stop` has been through all connections. -/
def Cancelled (pool : WorkerPool) : Prop := pool.stopping = .cancelled ∨ pool.lock = .cancelling []

section
variable (halting : pool.Halting) (cancelled : pool.Cancelled)
include halting cancelled

theorem stopped_of_cancelled : pool.mStopped = true := by
  refine halting.flagged ?_
  rcases cancelled with done | held
  · rw [done]
    exact StopPhase.noConfusion
  · rw [halting.cancelling [] held]
    exact StopPhase.noConfusion

theorem not_spawning_of_cancelled (caller : Option Nat) : pool.lock ≠ .spawning caller := by
  rcases cancelled with done | held
  · exact halting.quiet done caller
  · rw [held]
    exact SpawnLock.noConfusion

theorem not_cancelling_of_cancelled (i : Nat) (rest : List Nat) : pool.lock ≠ .cancelling (i :: rest) := by
  rcases cancelled with done | held
  · intro held
    cases (halting.cancelling _ held).symm.trans done
  · rw [held]
    exact fun impossible => nomatch impossible

/-- Whoever runs has no open socket. -/
theorem shut_of_cancelled {worker : Worker} (found : pool.mThreads[i]? = some worker) (running : worker.phase = .running) :
    worker.shut = true := by
  refine (halting.shut i worker found running).resolve_right fun awaits => ?_
  unfold Awaits at awaits
  cases held : pool.lock with
  | cancelling remaining =>
    rw [held] at awaits
    cases remaining with
    | nil => cases awaits
    | cons first rest => exact not_cancelling_of_cancelled halting cancelled first rest held
  | _ =>
    rw [held] at awaits
    refine awaits (cancelled.resolve_right fun other => ?_)
    cases held.symm.trans other

end

/-- How many steps of workers are left at most. -/
def left (pool : WorkerPool) : Nat := (pool.mThreads.map (·.left)).sum

def Label.isWorker : Label → Bool
  | .worker _ _ => true
  | _ => false

/-- What is left of a pool after a step that spawns nobody and that `stop` has
preceded. -/
structure Winds (pool pool' : WorkerPool) (steps : Nat) : Prop where
  cancelled : pool'.Cancelled
  threads : pool'.mThreads.map (·.peerIndex) = pool.mThreads.map (·.peerIndex)
  nearer : pool'.left + steps ≤ pool.left

section
variable (halting : pool.Halting) (cancelled : pool.Cancelled)
include halting cancelled

theorem winds_worker {worker : Worker} {phase : WorkerPhase} (found : pool.mThreads[i]? = some worker)
    (moves : worker.phase.next (worker.peerIndex < pool.mAllPeers.length) pool.mStopped event = some phase)
    (locks : worker.phase.locks = true → pool.lock.isFree = true) (reads : event = .handle → 0 < worker.inbox) :
    Winds pool (effect i worker.phase { pool with mThreads := pool.mThreads.modify i (·.advance phase event) }) 1 := by
  obtain ⟨threads, _, _, _, _, stopping⟩ := effect_same i worker.phase
    { pool with mThreads := pool.mThreads.modify i (·.advance phase event) }
  have sum := Roster.sum_modify (g := (·.advance phase event)) (·.left) found
  rw [stopped_of_cancelled halting cancelled] at moves
  have nearer := Worker.left_advance moves reads
  constructor
  · refine cancelled.imp stopping.trans fun held => ?_
    rcases lock_effect { pool with mThreads := pool.mThreads.modify i (·.advance phase event) } i worker.phase with
      same | ⟨finishing, _⟩
    · exact same.trans held
    · exact absurd held (ne_cancelling_of_isFree (locks (by rw [finishing]; rfl)) [])
  · rw [threads]
    exact Roster.map_modify (g := fun worker : Worker => worker.advance phase event) (fun _ => rfl) _ _
  · rw [left, threads, left]
    simp only at sum ⊢
    omega

/-- A message can arrive only for a worker that will not come to read it. -/
theorem winds_arrive {worker : Worker} (found : pool.mThreads[i]? = some worker) (opened : worker.shut = false) :
    Winds pool
      { pool with mThreads := pool.mThreads.modify i fun worker => { worker with inbox := worker.inbox + 1 } } 0 := by
  have sum := Roster.sum_modify (g := fun worker : Worker => { worker with inbox := worker.inbox + 1 }) (·.left) found
  have outside : worker.phase ≠ .running := by
    intro running
    rw [shut_of_cancelled halting cancelled found running] at opened
    cases opened
  refine ⟨cancelled, Roster.map_modify (g := fun worker : Worker => { worker with inbox := worker.inbox + 1 })
    (fun _ => rfl) _ _, ?_⟩
  simp only [Worker.left, if_neg outside] at sum
  exact Nat.le_of_eq (Nat.add_right_cancel sum)

end

theorem winds_release (inv : pool.Invariant) (cancelled : pool.Cancelled) {caller : Option Nat}
    (held : pool.lock = .looping caller) : Winds pool (pool.release caller) 0 := by
  have done : pool.stopping = .cancelled := cancelled.resolve_right fun other => nomatch held.symm.trans other
  cases caller with
  | none => exact ⟨Or.inl done, rfl, Nat.le_refl _⟩
  | some i =>
    obtain ⟨worker, found, _⟩ := (inv.caller i).mp (by rw [held]; rfl)
    have sum := Roster.sum_modify (g := fun worker : Worker => { worker with phase := .finished }) (·.left) found
    refine ⟨Or.inl done, Roster.map_modify (g := fun worker : Worker => { worker with phase := .finished })
      (fun _ => rfl) _ _, ?_⟩
    change _ = _ + 0 at sum
    exact Nat.le.intro sum

/-- What a step can do after `stop` has cancelled. -/
theorem cancelled_step (inv : pool.Invariant) (halting : pool.Halting) (cancelled : pool.Cancelled)
    (run : pool.step label = some pool') : Winds pool pool' label.isWorker.toNat := by
  cases move_of_step run with
  | start | completes | knownPeer => exact ⟨cancelled, rfl, Nat.le_refl _⟩
  | startAlone free | startPeers free | newPeer free =>
    exact ⟨Or.inl (cancelled.resolve_right fun other => nomatch free.symm.trans other), rfl, Nat.le_refl _⟩
  | worker found moves locks reads => exact winds_worker halting cancelled found moves locks reads
  | arrive found opened => exact winds_arrive halting cancelled found opened
  | loopEnds held _ => exact winds_release inv cancelled held
  | loopGoesOn _ notStopped _ _ | stop notStopped =>
    rw [stopped_of_cancelled halting cancelled] at notStopped
    cases notStopped
  | spawn held => exact absurd held (not_spawning_of_cancelled halting cancelled _)
  | stopLock called free =>
    rcases cancelled with done | held
    · cases done.symm.trans called
    · cases held.symm.trans free
  | cancel held => exact absurd held (not_cancelling_of_cancelled halting cancelled _ _)
  | stopUnlock _ => exact ⟨Or.inl rfl, rfl, Nat.le_refl _⟩

/-- What a run can do after `stop` has cancelled. -/
theorem cancelled_run (inv : pool.Invariant) (halting : pool.Halting) (cancelled : pool.Cancelled) {labels : List Label}
    (run : exec step unguarded pool labels = some pool') :
    pool'.Invariant ∧ pool'.Halting ∧ Winds pool pool' (labels.countP Label.isWorker) := by
  induction labels generalizing pool with
  | nil =>
    cases Option.some.inj run
    exact ⟨inv, halting, cancelled, rfl, Nat.le_refl _⟩
  | cons label rest ih =>
    have allowed : unguarded pool label := trivial
    rw [exec, if_pos allowed] at run
    obtain ⟨middle, first, later⟩ := Option.bind_eq_some_iff.mp run
    obtain ⟨still, threads, nearer⟩ := cancelled_step inv halting cancelled first
    obtain ⟨inv', halting', still', threads', nearer'⟩ := ih (inv.step first) (halting.step first) still later
    refine ⟨inv', halting', still', threads'.trans threads, ?_⟩
    rw [List.countP_cons]
    cases worker : label.isWorker with
    | false =>
      rw [worker] at nearer
      exact Nat.le_trans nearer' nearer
    | true =>
      rw [worker, Bool.toNat_true] at nearer
      rw [if_pos rfl]
      omega

/-- A worker with the lock free for it takes its next step. -/
theorem workerStep_isSome {worker : Worker} (found : pool.mThreads[i]? = some worker) (free : pool.lock = .free)
    (waiting : worker.phase ≠ .replacing) (unfinished : worker.phase ≠ .finished) :
    ∃ event, (pool.workerStep i event).isSome = true := by
  obtain ⟨event, phase, moves, other⟩ :=
    WorkerPhase.next_exists (worker.peerIndex < pool.mAllPeers.length) pool.mStopped waiting unfinished
  refine ⟨event, ?_⟩
  have unlocked : ¬ (worker.phase.locks && !pool.lock.isFree) = true := by
    rw [free, SpawnLock.isFree, Bool.not_true, Bool.and_false]
    exact Bool.false_ne_true
  simp only [workerStep, found, moves, if_neg unlocked]
  rw [if_neg fun handles => other handles.1]
  rfl

/-- As long as a worker is not done, it or whoever has the lock can go on. -/
theorem goes_on (inv : pool.Invariant) (halting : pool.Halting) (cancelled : pool.Cancelled) {worker : Worker}
    (found : pool.mThreads[i]? = some worker) (unfinished : worker.phase ≠ .finished) :
    (∃ event, (pool.step (.worker i event)).isSome = true) ∨ (pool.step .loop).isSome = true ∨
      (pool.step .stopUnlock).isSome = true := by
  cases held : pool.lock with
  | free =>
    refine Or.inl (workerStep_isSome found held (fun replacing => ?_) unfinished)
    have waits := (inv.caller i).mpr ⟨worker, found, replacing⟩
    rw [held] at waits
    cases waits
  | looping caller =>
    refine Or.inr (Or.inl ?_)
    simp only [step, held]
    split <;> rfl
  | spawning caller => exact absurd held (not_spawning_of_cancelled halting cancelled caller)
  | cancelling remaining =>
    cases remaining with
    | nil =>
      refine Or.inr (Or.inr ?_)
      simp only [step, held]
      rfl
    | cons first rest => exact absurd held (not_cancelling_of_cancelled halting cancelled first rest)

/-- Whatever happens after `stop` has cancelled: no worker is spawned, none runs
on an open socket, and all that are left come to their end, for each of their
steps is one of finitely many and the next one is never blocked for good. -/
theorem workers_exit_after_stop (reach : Reach Initial step unguarded pool) (cancelled : pool.Cancelled)
    {labels : List Label} (run : exec step unguarded pool labels = some pool') :
    pool'.mThreads.map (·.peerIndex) = pool.mThreads.map (·.peerIndex) ∧
      (∀ worker ∈ pool'.mThreads, worker.phase = .running → worker.shut = true) ∧
      pool'.left + labels.countP Label.isWorker ≤ pool.left ∧
      ∀ i worker, pool'.mThreads[i]? = some worker → worker.phase ≠ .finished →
        (∃ event, (pool'.step (.worker i event)).isSome = true) ∨ (pool'.step .loop).isSome = true ∨
          (pool'.step .stopUnlock).isSome = true := by
  have inv : pool.Invariant :=
    reach.invariant (fun _ initial => initial ▸ invariant_make) fun _ _ _ inv _ run => inv.step run
  have halting : pool.Halting :=
    reach.invariant (fun _ initial => initial ▸ halting_make) fun _ _ _ halting _ run => halting.step run
  obtain ⟨inv', halting', cancelled', same, fewer⟩ := cancelled_run inv halting cancelled run
  refine ⟨same, fun worker member running => ?_, fewer, fun i worker found => goes_on inv' halting' cancelled' found⟩
  obtain ⟨i, found⟩ := List.getElem?_of_mem member
  exact shut_of_cancelled halting' cancelled' found running

/-- Two workers, of which one runs with a message in its socket and one is about
to connect when `stop` comes. -/
theorem workers_exit_after_stop_two :
    let peer : PeerAddress := ⟨[49], 1⟩
    let other : PeerAddress := ⟨[50], 2⟩
    let pool : WorkerPool :=
      ⟨[peer, other], 2, 2, [⟨0, .running, true, 1⟩, ⟨1, .registered, false, 0⟩], [0, 1], true, false, true, .flagged, false,
        .cancelling []⟩
    let before := [.start, .startLocked [peer, other], .loop, .spawn, .loop, .spawn, .loop, .worker 0 .go, .worker 0 .go,
      .worker 0 .go, .worker 0 .go, .worker 0 .go, .worker 0 .go, .arrive 0, .worker 1 .go, .worker 1 .go, .worker 1 .go,
      .stop, .stopLock, .cancel, .cancel]
    let pool' : WorkerPool :=
      ⟨[peer, other, ⟨[51], 3⟩], 2, 2, [⟨0, .running, true, 0⟩, ⟨1, .connecting, false, 1⟩], [0, 1], true, false, true,
        .cancelled, false, .free⟩
    let after := [.worker 1 .go, .stopUnlock, .arrive 1, .worker 0 .handle, .addDhtPeer ⟨[51], 3⟩, .loop]
    exec step unguarded make before = some pool ∧ exec step unguarded pool after = some pool' ∧
      pool'.left + 2 ≤ pool.left ∧ ∃ event, (pool'.step (.worker 1 event)).isSome = true := by
  intro peer other pool before pool' after
  have run : exec step unguarded make before = some pool := by decide +kernel
  have later : exec step unguarded pool after = some pool' := by decide +kernel
  have initial : Initial make := rfl
  have exits := workers_exit_after_stop ((Reach.start initial).exec run) (Or.inr rfl) later
  refine ⟨run, later, exits.2.2.1, (exits.2.2.2 1 _ rfl WorkerPhase.noConfusion).resolve_right ?_⟩
  decide +kernel

end WorkerPool

end BittorrentClient
