import BittorrentClient.Library.Roster
import BittorrentClient.Peer.WorkerPool

namespace BittorrentClient
open Machine

/-- The lock is held by `spawn_peers_locked`. -/
def SpawnLock.spawns : SpawnLock → Bool
  | .looping _ | .spawning _ => true
  | _ => false

/-- The worker that called `spawn_peers_locked`. -/
def SpawnLock.caller : SpawnLock → Option Nat
  | .looping worker | .spawning worker => worker
  | _ => none

namespace WorkerPhase
variable {known stopped : Bool} {phase after : WorkerPhase} {event : WorkerEvent}

/-- A worker that takes a step has its place, and keeps it until it finishes. -/
theorem next_busy (moves : phase.next known stopped event = some after) :
    phase.busy = true ∧ (if phase = .finishing then after = .replacing else after.busy = true) := by
  cases phase <;> cases event <;> cases known <;> cases stopped <;> cases moves <;> exact ⟨rfl, rfl⟩

end WorkerPhase

namespace WorkerPool
variable {pool pool' : WorkerPool} {i : Nat} {event : WorkerEvent} {label : Label}

section Effect
variable (i : Nat) (phase : WorkerPhase) (pool : WorkerPool)

theorem effect_same : (effect i phase pool).mThreads = pool.mThreads ∧ (effect i phase pool).mAllPeers = pool.mAllPeers ∧
    (effect i phase pool).mNextPeerIndex = pool.mNextPeerIndex ∧ (effect i phase pool).mStopped = pool.mStopped ∧
    (effect i phase pool).complete = pool.complete ∧ (effect i phase pool).stopping = pool.stopping := by
  cases phase <;> exact ⟨rfl, rfl, rfl, rfl, rfl, rfl⟩

end Effect

section AppendUniquePeers

theorem nodup_appendUniquePeers {allPeers : List PeerAddress} (distinct : allPeers.Nodup) (peers : List PeerAddress) :
    (appendUniquePeers allPeers peers).Nodup := by
  induction peers generalizing allPeers with
  | nil => exact distinct
  | cons peer rest ih =>
    rw [appendUniquePeers, List.foldl_cons]
    split
    case isTrue => exact ih distinct
    case isFalse new =>
      refine ih (List.nodup_append.mpr ⟨distinct, List.nodup_singleton peer, fun old member _ last same => ?_⟩)
      exact new (List.mem_singleton.mp last ▸ same ▸ member)

theorem length_appendUniquePeers (allPeers peers : List PeerAddress) :
    allPeers.length ≤ (appendUniquePeers allPeers peers).length := by
  induction peers generalizing allPeers with
  | nil => exact Nat.le_refl _
  | cons peer rest ih =>
    rw [appendUniquePeers, List.foldl_cons]
    split
    case isTrue => exact ih allPeers
    case isFalse =>
      refine Nat.le_trans ?_ (ih (allPeers ++ [peer]))
      rw [List.length_append]
      exact Nat.le_add_right _ _

end AppendUniquePeers

/-- Nothing is left to do for `spawn_peers_locked`. -/
def Settled (pool : WorkerPool) : Prop :=
  pool.mStopped = true ∨ pool.complete = true ∨ pool.mWorkersRunning = maxConcurrentPeers ∨
    pool.mNextPeerIndex = pool.mAllPeers.length

/-- The books of the pool. -/
structure Invariant (pool : WorkerPool) : Prop where
  distinct : pool.mAllPeers.Nodup
  handed : pool.mThreads.map (·.peerIndex) = List.range pool.mNextPeerIndex
  known : pool.mNextPeerIndex ≤ pool.mAllPeers.length
  count : pool.mWorkersRunning = pool.mThreads.countP (·.phase.busy)
  limit : pool.mWorkersRunning ≤ maxConcurrentPeers
  room : ∀ caller, pool.lock = .spawning caller →
    pool.mWorkersRunning < maxConcurrentPeers ∧ pool.mNextPeerIndex < pool.mAllPeers.length
  caller : ∀ i, pool.lock.caller = some i ↔ ∃ worker, pool.mThreads[i]? = some worker ∧ worker.phase = .replacing
  settled : pool.lock.spawns = false → pool.Settled

theorem invariant_make : make.Invariant where
  distinct := List.nodup_nil
  handed := rfl
  known := Nat.le_refl 0
  count := rfl
  limit := Nat.zero_le _
  room := fun _ impossible => nomatch impossible
  caller := fun _ => ⟨fun impossible => (nomatch impossible), fun ⟨_, found, _⟩ => (nomatch found)⟩
  settled := fun _ => Or.inr (Or.inr (Or.inr rfl))

/-- The other threads are where they were. -/
theorem replacing_modify {worker : Worker} {g : Worker → Worker} (found : pool.mThreads[i]? = some worker)
    (before : worker.phase ≠ .replacing) (j : Nat) :
    (∃ other, (pool.mThreads.modify i g)[j]? = some other ∧ other.phase = .replacing) ↔
      (j = i ∧ (g worker).phase = .replacing) ∨ ∃ other, pool.mThreads[j]? = some other ∧ other.phase = .replacing := by
  constructor
  · rintro ⟨other, changed, replacing⟩
    rcases Roster.of_modify changed with ⟨same, old, there, rfl⟩ | ⟨_, old⟩
    · cases found.symm.trans there
      exact Or.inl ⟨same, replacing⟩
    · exact Or.inr ⟨other, old, replacing⟩
  · rintro (⟨rfl, replacing⟩ | ⟨other, old, replacing⟩)
    · refine ⟨g worker, ?_, replacing⟩
      rw [List.getElem?_modify_eq, found]
      rfl
    · have different : i ≠ j := by
        rintro rfl
        cases found.symm.trans old
        exact before replacing
      exact ⟨other, (List.getElem?_modify_ne _ _ different).trans old, replacing⟩

theorem handed_modify (inv : pool.Invariant) (i : Nat) {g : Worker → Worker}
    (same : ∀ worker, (g worker).peerIndex = worker.peerIndex) :
    (pool.mThreads.modify i g).map (·.peerIndex) = List.range pool.mNextPeerIndex :=
  (Roster.map_modify same _ _).trans inv.handed

/-- A worker takes a step that does not give its place back. -/
theorem Invariant.move (inv : pool.Invariant) (event : WorkerEvent) (active : List Nat) {worker : Worker} {phase : WorkerPhase}
    (found : pool.mThreads[i]? = some worker) (before : worker.phase.busy = true) (after : phase.busy = true) :
    { pool with
      mThreads := pool.mThreads.modify i (·.advance phase event)
      mActiveConnections := active }.Invariant := by
  have count := Roster.countP_modify (g := (·.advance phase event)) (·.phase.busy) found
  change _ + worker.phase.busy.toNat = _ + phase.busy.toNat at count
  rw [before, after] at count
  have kept : worker.phase ≠ .replacing := fun same => by rw [same] at before; cases before
  refine ⟨inv.distinct, handed_modify inv i fun _ => rfl, inv.known, ?_, inv.limit, inv.room, fun j => ?_, inv.settled⟩
  · rw [inv.count]
    exact (Nat.add_right_cancel count).symm
  · rw [inv.caller, replacing_modify found kept]
    refine ⟨Or.inr, fun either => either.resolve_left fun wrong => ?_⟩
    have replacing : phase = .replacing := wrong.2
    rw [replacing] at after
    cases after

/-- A worker gives its place back. -/
theorem Invariant.finish (inv : pool.Invariant) {worker : Worker} (found : pool.mThreads[i]? = some worker)
    (before : worker.phase = .finishing) (free : pool.lock.isFree = true) :
    (effect i .finishing { pool with mThreads := pool.mThreads.modify i (·.advance .replacing event) }).Invariant := by
  have count := Roster.countP_modify (g := (·.advance .replacing event)) (·.phase.busy) found
  rw [before] at count
  have running := inv.count
  have limit := inv.limit
  change _ + 1 = _ + 0 at count
  have nobody : pool.lock.caller = none := by
    cases held : pool.lock with
    | free => rfl
    | looping => rw [held] at free; cases free
    | spawning => rw [held] at free; cases free
    | cancelling => rfl
  have positive : 0 < pool.mWorkersRunning := by omega
  simp only [effect]
  rw [if_pos positive]
  refine ⟨inv.distinct, handed_modify inv i fun _ => rfl, inv.known, ?_, ?_, fun _ impossible => (nomatch impossible),
    fun j => ?_, fun impossible => (nomatch impossible)⟩
  · exact Nat.sub_eq_of_eq_add (running.trans count.symm)
  · exact Nat.le_trans (Nat.sub_le _ _) limit
  · rw [replacing_modify found (by rw [before]; exact WorkerPhase.noConfusion), ← inv.caller, nobody]
    constructor
    · intro same
      exact Or.inl ⟨(Option.some.inj same).symm, rfl⟩
    · rintro (⟨rfl, _⟩ | impossible)
      · rfl
      · cases impossible

theorem Invariant.worker (inv : pool.Invariant) {worker : Worker} {phase : WorkerPhase} (found : pool.mThreads[i]? = some worker)
    (moves : worker.phase.next (worker.peerIndex < pool.mAllPeers.length) pool.mStopped event = some phase)
    (locks : worker.phase.locks = true → pool.lock.isFree = true) :
    (effect i worker.phase { pool with mThreads := pool.mThreads.modify i (·.advance phase event) }).Invariant := by
  obtain ⟨busy, after⟩ := WorkerPhase.next_busy moves
  by_cases finishing : worker.phase = .finishing
  · rw [if_pos finishing] at after
    rw [finishing] at locks ⊢
    rw [after]
    exact inv.finish found finishing (locks rfl)
  · rw [if_neg finishing] at after
    have moved := fun active => inv.move event active found busy after
    cases from_ : worker.phase with
    | finishing => exact absurd from_ finishing
    | constructed => exact moved _
    | leaving => exact moved _
    | _ => exact moved _

/-- `spawn_peers_locked` returns. -/
theorem Invariant.release (inv : pool.Invariant) {caller : Option Nat} (held : pool.lock = .looping caller)
    (settled : pool.Settled) : (pool.release caller).Invariant := by
  have waiting := inv.caller
  rw [held] at waiting
  cases caller with
  | none =>
    exact ⟨inv.distinct, inv.handed, inv.known, inv.count, inv.limit, fun _ impossible => (nomatch impossible), waiting,
      fun _ => settled⟩
  | some i =>
    obtain ⟨worker, found, replacing⟩ := (waiting i).mp rfl
    have count := Roster.countP_modify (g := fun worker : Worker => { worker with phase := .finished })
      (·.phase.busy) found
    rw [replacing] at count
    refine ⟨inv.distinct, handed_modify inv i fun _ => rfl, inv.known, inv.count.trans count.symm, inv.limit,
      fun _ impossible => (nomatch impossible), fun j => ?_, fun _ => settled⟩
    constructor
    · intro impossible
      cases impossible
    · rintro ⟨other, changed, still⟩
      rcases Roster.of_modify changed with ⟨_, _, _, rfl⟩ | ⟨different, old⟩
      · cases still
      · exact absurd (Option.some.inj ((waiting j).mpr ⟨other, old, still⟩)).symm different

/-- `spawn_peers_locked` makes a worker. -/
theorem Invariant.spawn (inv : pool.Invariant) {caller : Option Nat} (held : pool.lock = .spawning caller) :
    { pool with
      mNextPeerIndex := pool.mNextPeerIndex + 1
      mWorkersRunning := pool.mWorkersRunning + 1
      mThreads := pool.mThreads ++ [(⟨pool.mNextPeerIndex, .starting, false, 0⟩ : Worker)]
      lock := .looping caller }.Invariant := by
  obtain ⟨room, more⟩ := inv.room caller held
  have waiting := inv.caller
  rw [held] at waiting
  refine ⟨inv.distinct, ?_, more, ?_, room, fun _ impossible => (nomatch impossible), fun i => ?_,
    fun impossible => (nomatch impossible)⟩
  · rw [List.map_append, inv.handed, List.map_singleton, List.range_succ]
  · rw [List.countP_append, inv.count]
    rfl
  · refine (waiting i).trans ⟨?_, ?_⟩
    · rintro ⟨worker, found, replacing⟩
      exact ⟨worker, List.getElem?_append_left (List.getElem?_eq_some_iff.mp found).1 |>.trans found, replacing⟩
    · rintro ⟨worker, found, replacing⟩
      rcases Nat.lt_or_ge i pool.mThreads.length with old | new
      · rw [List.getElem?_append_left old] at found
        exact ⟨worker, found, replacing⟩
      · rw [List.getElem?_append_right new] at found
        have last := List.mem_singleton.mp (List.mem_of_getElem? found)
        rw [last] at replacing
        cases replacing

/-- New peers come in and the lock goes to `spawn_peers_locked`, if to anyone. -/
theorem Invariant.append (inv : pool.Invariant) (free : pool.lock = .free) (peers : List PeerAddress) :
    { pool with mAllPeers := appendUniquePeers pool.mAllPeers peers, lock := .looping none }.Invariant := by
  have waiting := inv.caller
  rw [free] at waiting
  exact ⟨nodup_appendUniquePeers inv.distinct peers, inv.handed,
    Nat.le_trans inv.known (length_appendUniquePeers pool.mAllPeers peers), inv.count, inv.limit,
    fun _ impossible => (nomatch impossible), waiting, fun impossible => (nomatch impossible)⟩

/-- What the books know of the threads. -/
def posts (pool : WorkerPool) : List (Nat × WorkerPhase) := pool.mThreads.map fun worker => (worker.peerIndex, worker.phase)

theorem replacing_iff (pool : WorkerPool) (i : Nat) :
    (∃ worker, pool.mThreads[i]? = some worker ∧ worker.phase = .replacing) ↔
      ∃ peerIndex, pool.posts[i]? = some (peerIndex, .replacing) := by
  simp only [posts, List.getElem?_map]
  constructor
  · rintro ⟨worker, found, replacing⟩
    exact ⟨worker.peerIndex, by rw [found, Option.map_some, replacing]⟩
  · rintro ⟨peerIndex, found⟩
    obtain ⟨worker, at_, same⟩ := Option.map_eq_some_iff.mp found
    exact ⟨worker, at_, (Prod.mk.inj same).2⟩

/-- `stop` and the flags do not touch the books. -/
theorem Invariant.unchanged (inv : pool.Invariant) (peers : pool'.mAllPeers = pool.mAllPeers)
    (next : pool'.mNextPeerIndex = pool.mNextPeerIndex) (running : pool'.mWorkersRunning = pool.mWorkersRunning)
    (posts : pool'.posts = pool.posts) (spawns : pool'.lock.spawns = pool.lock.spawns)
    (caller : pool'.lock.caller = pool.lock.caller) (room : ∀ who, pool'.lock = .spawning who → pool.lock = .spawning who)
    (stopped : pool.mStopped = true → pool'.mStopped = true) (complete : pool.complete = true → pool'.complete = true) :
    pool'.Invariant := by
  have indices : ∀ pool : WorkerPool, pool.mThreads.map (·.peerIndex) = pool.posts.map Prod.fst := by
    intro pool
    rw [WorkerPool.posts, List.map_map]
    rfl
  have busy : ∀ pool : WorkerPool, pool.mThreads.countP (·.phase.busy) = pool.posts.countP (·.2.busy) := by
    intro pool
    rw [WorkerPool.posts, List.countP_map]
    rfl
  refine ⟨?_, ?_, ?_, ?_, ?_, fun who spawning => ?_, fun i => ?_, fun idle => ?_⟩
  · rw [peers]
    exact inv.distinct
  · rw [indices, posts, ← indices, next]
    exact inv.handed
  · rw [next, peers]
    exact inv.known
  · rw [running, busy, posts, ← busy]
    exact inv.count
  · rw [running]
    exact inv.limit
  · rw [running, next, peers]
    exact inv.room who (room who spawning)
  · rw [caller, replacing_iff, posts, ← replacing_iff]
    exact inv.caller i
  · rw [spawns] at idle
    rw [Settled, running, next, peers]
    exact (inv.settled idle).imp stopped (Or.imp complete id)

/-- Any step. -/
theorem Invariant.step (inv : pool.Invariant) (run : pool.step label = some pool') : pool'.Invariant := by
  cases move_of_step run with
  | start => exact inv.unchanged rfl rfl rfl rfl rfl rfl (fun _ => id) id id
  | @startAlone trackerPeers free nobody =>
    have before : pool.mAllPeers = [] := by
      have length := length_appendUniquePeers pool.mAllPeers trackerPeers
      rw [nobody] at length
      exact List.length_eq_zero_iff.mp (Nat.le_zero.mp length)
    exact inv.unchanged before.symm rfl rfl rfl (by rw [free]) (by rw [free]) (fun _ impossible => nomatch impossible) id id
  | @startPeers trackerPeers free =>
    exact (inv.append free trackerPeers).unchanged rfl rfl rfl rfl rfl rfl (fun _ => id) id id
  | knownPeer => exact inv
  | @newPeer peer free => exact inv.append free [peer]
  | worker found moves locks _ => exact inv.worker found moves locks
  | @arrive i worker found _ =>
    refine inv.unchanged rfl rfl rfl ?_ rfl rfl (fun _ => id) id id
    exact Roster.map_modify (g := fun worker : Worker => { worker with inbox := worker.inbox + 1 }) (fun _ => rfl) _ _
  | loopEnds held exits =>
    refine inv.release held ?_
    rcases exits with stopped | full | all | complete
    · exact Or.inl stopped
    · exact Or.inr (Or.inr (Or.inl (Nat.le_antisymm inv.limit full)))
    · exact Or.inr (Or.inr (Or.inr (Nat.le_antisymm inv.known all)))
    · exact Or.inr (Or.inl complete)
  | loopGoesOn held _ room more =>
    have waiting := inv.caller
    rw [held] at waiting
    exact ⟨inv.distinct, inv.handed, inv.known, inv.count, inv.limit, fun _ _ => ⟨room, more⟩, waiting,
      fun impossible => (nomatch impossible)⟩
  | spawn held => exact inv.spawn held
  | completes => exact inv.unchanged rfl rfl rfl rfl rfl rfl (fun _ => id) id (fun _ => rfl)
  | stop _ => exact inv.unchanged rfl rfl rfl rfl rfl rfl (fun _ => id) (fun _ => rfl) id
  | stopLock _ free =>
    exact inv.unchanged rfl rfl rfl rfl (by rw [free]; rfl) (by rw [free]; rfl) (fun _ impossible => nomatch impossible) id id
  | cancel held =>
    refine inv.unchanged rfl rfl rfl ?_ (by rw [held]; rfl) (by rw [held]; rfl) (fun _ impossible => nomatch impossible) id id
    exact Roster.map_modify (g := fun worker : Worker => { worker with shut := worker.shut || worker.phase.online })
      (fun _ => rfl) _ _
  | stopUnlock held =>
    exact inv.unchanged rfl rfl rfl rfl (by rw [held]; rfl) (by rw [held]; rfl) (fun _ impossible => nomatch impossible) id id

/-- The books of the pool in every state of every run. -/
theorem pool_books (reach : Reach Initial step unguarded pool) :
    pool.mAllPeers.Nodup ∧ (pool.mThreads.map (·.peerIndex)).Nodup ∧
      (∀ worker ∈ pool.mThreads, worker.peerIndex < pool.mAllPeers.length) ∧
      pool.mWorkersRunning = pool.mThreads.countP (·.phase.busy) ∧ pool.mWorkersRunning ≤ 40 ∧
      (pool.lock = .free → pool.mStopped = true ∨ pool.complete = true ∨ pool.mWorkersRunning = 40 ∨
        pool.mThreads.map (·.peerIndex) = List.range pool.mAllPeers.length) := by
  have inv : pool.Invariant :=
    reach.invariant (fun _ initial => initial ▸ invariant_make) fun _ _ _ inv _ run => inv.step run
  refine ⟨inv.distinct, ?_, fun worker member => ?_, inv.count, inv.limit, fun free => ?_⟩
  · rw [inv.handed]
    exact List.nodup_range
  · have index : worker.peerIndex ∈ List.range pool.mNextPeerIndex := inv.handed ▸ List.mem_map_of_mem member
    exact Nat.lt_of_lt_of_le (List.mem_range.mp index) inv.known
  · rcases inv.settled (by rw [free]; rfl) with stopped | complete | full | all
    · exact Or.inl stopped
    · exact Or.inr (Or.inl complete)
    · exact Or.inr (Or.inr (Or.inl full))
    · exact Or.inr (Or.inr (Or.inr (all ▸ inv.handed)))

/-- Two peers of the tracker, one known twice, and one worker that has failed. -/
theorem pool_books_two :
    let peer : PeerAddress := ⟨[49], 1⟩
    let other : PeerAddress := ⟨[50], 2⟩
    let labels := [.start, .startLocked [peer, peer], .loop, .spawn, .loop, .addDhtPeer peer, .worker 0 .go,
      .worker 0 .fail, .worker 0 .go, .loop, .addDhtPeer other, .loop, .spawn, .loop]
    ∃ pool, exec step unguarded make labels = some pool ∧ pool.mAllPeers = [peer, other] ∧
      pool.mWorkersRunning = 1 ∧ pool.mThreads.countP (·.phase.busy) = 1 := by
  intro peer other labels
  have enabled : (exec step unguarded make labels).isSome = true := by decide +kernel
  have run := (Option.some_get enabled).symm
  have initial : Initial make := rfl
  have books := pool_books ((Reach.start initial).exec run)
  exact ⟨_, run, rfl, rfl, books.2.2.2.1.symm⟩

end WorkerPool

end BittorrentClient
