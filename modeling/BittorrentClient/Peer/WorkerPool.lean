import BittorrentClient.Dht.NodeId
import BittorrentClient.Library.Reach
import Mathlib.Algebra.BigOperators.Group.List.Basic
import Mathlib.Data.List.Range

namespace BittorrentClient
open Machine

/-- Where the thread of `run_peer_worker` is: before it looks up its address,
constructs the connection, registers it, connects; in `connect`; before it reads
`m_stopped`; in `run`; before it unregisters; before and in
`on_peer_worker_finished`; done. -/
inductive WorkerPhase
  | starting
  | prepared
  | constructed
  | registered
  | connecting
  | connected
  | running
  | leaving
  | finishing
  | replacing
  | finished
  deriving DecidableEq

/-- How a step of a worker ends: it goes on, it throws (or `run` returns), or
`run` has handled a message and waits for the next one. -/
inductive WorkerEvent
  | go
  | fail
  | handle
  deriving DecidableEq

namespace WorkerPhase

/-- The phase after a step, for a worker whose address is known or not and for
the value that it reads from `m_stopped`. -/
def next (known stopped : Bool) : WorkerPhase → WorkerEvent → Option WorkerPhase
  | .starting, .go => some (if known then .prepared else .finishing)
  | .prepared, .go => some .constructed
  | .prepared, .fail => some .finishing
  | .constructed, .go => some .registered
  | .registered, .go => some .connecting
  | .registered, .fail => some .leaving
  | .connecting, .go => some .connected
  | .connecting, .fail => some .leaving
  | .connected, .go => some (if stopped then .leaving else .running)
  | .running, .handle => some .running
  | .running, .fail => some .leaving
  | .leaving, .go => some .finishing
  | .finishing, .go => some .replacing
  | _, _ => none

/-- The steps that take `m_spawn_mu`. -/
def locks : WorkerPhase → Bool
  | .starting | .constructed | .leaving | .finishing => true
  | _ => false

/-- The worker has not yet given its place back. -/
def busy : WorkerPhase → Bool
  | .replacing | .finished => false
  | _ => true

/-- The connection is in `m_active_connections`. -/
def active : WorkerPhase → Bool
  | .registered | .connecting | .connected | .running | .leaving => true
  | _ => false

/-- The socket is connecting or connected, so that a shutdown takes effect. -/
def online : WorkerPhase → Bool
  | .connecting | .connected | .running => true
  | _ => false

end WorkerPhase

/-- A thread of `m_threads`; `shut` is what `cancel` has done to its socket, in
which `inbox` messages wait. -/
structure Worker where
  peerIndex : Nat
  phase : WorkerPhase
  shut : Bool
  inbox : Nat
  deriving DecidableEq

/-- The worker after a step that has led it to the phase. -/
def Worker.advance (worker : Worker) (phase : WorkerPhase) (event : WorkerEvent) : Worker :=
  { worker with phase := phase, inbox := if event = .handle then worker.inbox - 1 else worker.inbox }

/-- Who holds `m_spawn_mu`: nobody; `spawn_peers_locked` at the head or in the
body of its loop, called by a worker that has finished or by someone else; or
`stop` with the connections that it has still to cancel. -/
inductive SpawnLock
  | free
  | looping (worker : Option Nat)
  | spawning (worker : Option Nat)
  | cancelling (remaining : List Nat)
  deriving DecidableEq

def SpawnLock.isFree : SpawnLock → Bool
  | .free => true
  | _ => false

inductive StopPhase
  | notCalled
  | flagged
  | cancelled
  deriving DecidableEq

/-- The peers and workers of a `TorrentManager`. A connection is known by the
number of its thread. `announcing` is set while `start` has yet to take the
lock; `complete` is what `is_complete` returns, which stays once it is true, as
no piece is counted twice. -/
structure WorkerPool where
  mAllPeers : List PeerAddress
  mNextPeerIndex : Nat
  mWorkersRunning : Nat
  mThreads : List Worker
  mActiveConnections : List Nat
  mStarted : Bool
  announcing : Bool
  mStopped : Bool
  stopping : StopPhase
  complete : Bool
  lock : SpawnLock
  deriving DecidableEq

namespace WorkerPool

def maxConcurrentPeers : Nat := 40

def make : WorkerPool := ⟨[], 0, 0, [], [], false, false, false, .notCalled, false, .free⟩

/-- The steps of the threads: `start` up to its exchange and its locked part
with the peers of the tracker, `add_dht_peer`, a step of a worker, a message that
arrives, the head and the body of the loop of `spawn_peers_locked`, the last
piece, and `stop`: its exchange, the lock, one `cancel` after the other, and the
unlock. -/
inductive Label
  | start
  | startLocked (trackerPeers : List PeerAddress)
  | addDhtPeer (peer : PeerAddress)
  | worker (i : Nat) (event : WorkerEvent)
  | arrive (i : Nat)
  | loop
  | spawn
  | completes
  | stop
  | stopLock
  | cancel
  | stopUnlock

/-- `append_unique_peers`. -/
def appendUniquePeers (allPeers peers : List PeerAddress) : List PeerAddress :=
  peers.foldl (fun all peer => if peer ∈ all then all else all ++ [peer]) allPeers

/-- A worker that `spawn_peers_locked` returns to is done. -/
def release (pool : WorkerPool) (caller : Option Nat) : WorkerPool :=
  match caller with
  | none => { pool with lock := .free }
  | some i =>
    { pool with
      lock := .free
      mThreads := pool.mThreads.modify i fun worker => { worker with phase := .finished } }

/-- What a step does besides, by the phase that it leaves: registration,
unregistration, and the decrement at the end. -/
def effect (i : Nat) (phase : WorkerPhase) (pool : WorkerPool) : WorkerPool :=
  match phase with
  | .constructed => { pool with mActiveConnections := pool.mActiveConnections ++ [i] }
  | .leaving => { pool with mActiveConnections := pool.mActiveConnections.filter (· ≠ i) }
  | .finishing =>
    { pool with
      mWorkersRunning := if 0 < pool.mWorkersRunning then pool.mWorkersRunning - 1 else pool.mWorkersRunning
      lock := .looping (some i) }
  | _ => pool

/-- A step of `run_peer_worker`. What waits in a socket that was shut down may
still be read. -/
def workerStep (pool : WorkerPool) (i : Nat) (event : WorkerEvent) : Option WorkerPool :=
  match pool.mThreads[i]? with
  | none => none
  | some worker =>
    match worker.phase.next (worker.peerIndex < pool.mAllPeers.length) pool.mStopped event with
    | none => none
    | some phase =>
      if worker.phase.locks && !pool.lock.isFree then none
      else if event = .handle ∧ worker.inbox = 0 then none
      else some (effect i worker.phase { pool with mThreads := pool.mThreads.modify i (·.advance phase event) })

/-- A message comes in on a socket that was not shut down. -/
def arrive (pool : WorkerPool) (i : Nat) : Option WorkerPool :=
  match pool.mThreads[i]? with
  | none => none
  | some worker =>
    if worker.phase.online && !worker.shut then
      some { pool with mThreads := pool.mThreads.modify i fun worker => { worker with inbox := worker.inbox + 1 } }
    else none

def step (pool : WorkerPool) : Label → Option WorkerPool
  | .start => if pool.mStarted then none else some { pool with mStarted := true, announcing := true }
  | .startLocked trackerPeers =>
    match pool.announcing, pool.lock with
    | true, .free =>
      let allPeers := appendUniquePeers pool.mAllPeers trackerPeers
      some { pool with
        mAllPeers := allPeers
        announcing := false
        lock := if allPeers.isEmpty then .free else .looping none }
    | _, _ => none
  | .addDhtPeer peer =>
    match pool.lock with
    | .free =>
      let allPeers := appendUniquePeers pool.mAllPeers [peer]
      if allPeers.length = pool.mAllPeers.length then some pool
      else some { pool with mAllPeers := allPeers, lock := .looping none }
    | _ => none
  | .worker i event => pool.workerStep i event
  | .arrive i => pool.arrive i
  | .loop =>
    match pool.lock with
    | .looping caller =>
      if pool.mStopped ∨ maxConcurrentPeers ≤ pool.mWorkersRunning ∨ pool.mAllPeers.length ≤ pool.mNextPeerIndex ∨
          pool.complete then some (pool.release caller)
      else some { pool with lock := .spawning caller }
    | _ => none
  | .spawn =>
    match pool.lock with
    | .spawning caller =>
      some { pool with
        mNextPeerIndex := pool.mNextPeerIndex + 1
        mWorkersRunning := pool.mWorkersRunning + 1
        mThreads := pool.mThreads ++ [⟨pool.mNextPeerIndex, .starting, false, 0⟩]
        lock := .looping caller }
    | _ => none
  | .completes => some { pool with complete := true }
  | .stop => if pool.mStopped then none else some { pool with mStopped := true, stopping := .flagged }
  | .stopLock =>
    match pool.stopping, pool.lock with
    | .flagged, .free => some { pool with lock := .cancelling pool.mActiveConnections }
    | _, _ => none
  | .cancel =>
    match pool.lock with
    | .cancelling (i :: rest) =>
      some { pool with
        lock := .cancelling rest
        mThreads := pool.mThreads.modify i fun worker => { worker with shut := worker.shut || worker.phase.online } }
    | _ => none
  | .stopUnlock =>
    match pool.lock with
    | .cancelling [] => some { pool with lock := .free, stopping := .cancelled }
    | _ => none

def Initial (pool : WorkerPool) : Prop := pool = make

/-- What each step can do, with what it has found before. -/
inductive Move (pool : WorkerPool) : Label → WorkerPool → Prop
  | start : Move pool .start { pool with mStarted := true, announcing := true }
  | startAlone {trackerPeers : List PeerAddress} (free : pool.lock = .free)
      (nobody : appendUniquePeers pool.mAllPeers trackerPeers = []) :
      Move pool (.startLocked trackerPeers) { pool with mAllPeers := [], announcing := false, lock := .free }
  | startPeers {trackerPeers : List PeerAddress} (free : pool.lock = .free) :
      Move pool (.startLocked trackerPeers)
        { pool with
          mAllPeers := appendUniquePeers pool.mAllPeers trackerPeers
          announcing := false
          lock := .looping none }
  | knownPeer {peer : PeerAddress} : Move pool (.addDhtPeer peer) pool
  | newPeer {peer : PeerAddress} (free : pool.lock = .free) :
      Move pool (.addDhtPeer peer)
        { pool with mAllPeers := appendUniquePeers pool.mAllPeers [peer], lock := .looping none }
  | worker {i : Nat} {event : WorkerEvent} {worker : Worker} {phase : WorkerPhase} (found : pool.mThreads[i]? = some worker)
      (moves : worker.phase.next (worker.peerIndex < pool.mAllPeers.length) pool.mStopped event = some phase)
      (locks : worker.phase.locks = true → pool.lock.isFree = true) (reads : event = .handle → 0 < worker.inbox) :
      Move pool (.worker i event)
        (effect i worker.phase { pool with mThreads := pool.mThreads.modify i (·.advance phase event) })
  | arrive {i : Nat} {worker : Worker} (found : pool.mThreads[i]? = some worker) (opened : worker.shut = false) :
      Move pool (.arrive i)
        { pool with mThreads := pool.mThreads.modify i fun worker => { worker with inbox := worker.inbox + 1 } }
  | loopEnds {caller : Option Nat} (held : pool.lock = .looping caller)
      (exits : pool.mStopped = true ∨ maxConcurrentPeers ≤ pool.mWorkersRunning ∨
        pool.mAllPeers.length ≤ pool.mNextPeerIndex ∨ pool.complete = true) : Move pool .loop (pool.release caller)
  | loopGoesOn {caller : Option Nat} (held : pool.lock = .looping caller) (notStopped : pool.mStopped = false)
      (room : pool.mWorkersRunning < maxConcurrentPeers) (more : pool.mNextPeerIndex < pool.mAllPeers.length) :
      Move pool .loop { pool with lock := .spawning caller }
  | spawn {caller : Option Nat} (held : pool.lock = .spawning caller) :
      Move pool .spawn
        { pool with
          mNextPeerIndex := pool.mNextPeerIndex + 1
          mWorkersRunning := pool.mWorkersRunning + 1
          mThreads := pool.mThreads ++ [⟨pool.mNextPeerIndex, .starting, false, 0⟩]
          lock := .looping caller }
  | completes : Move pool .completes { pool with complete := true }
  | stop (notStopped : pool.mStopped = false) : Move pool .stop { pool with mStopped := true, stopping := .flagged }
  | stopLock (called : pool.stopping = .flagged) (free : pool.lock = .free) :
      Move pool .stopLock { pool with lock := .cancelling pool.mActiveConnections }
  | cancel {i : Nat} {rest : List Nat} (held : pool.lock = .cancelling (i :: rest)) :
      Move pool .cancel
        { pool with
          lock := .cancelling rest
          mThreads := pool.mThreads.modify i fun worker => { worker with shut := worker.shut || worker.phase.online } }
  | stopUnlock (held : pool.lock = .cancelling []) :
      Move pool .stopUnlock { pool with lock := .free, stopping := .cancelled }

section
variable {pool pool' : WorkerPool} {i : Nat} {event : WorkerEvent} {label : Label}

theorem move_of_workerStep (run : pool.workerStep i event = some pool') : pool.Move (.worker i event) pool' := by
  unfold workerStep at run
  cases found : pool.mThreads[i]? with
  | none =>
    rw [found] at run
    cases run
  | some worker =>
    rw [found] at run
    simp only at run
    split at run
    case h_1 => cases run
    case h_2 phase moves =>
      split at run
      case isTrue => cases run
      case isFalse held =>
        split at run
        case isTrue => cases run
        case isFalse waits =>
          cases Option.some.inj run
          refine .worker found moves (fun locks => ?_) (fun handles => ?_)
          · rw [locks, Bool.true_and, Bool.not_eq_true', Bool.not_eq_false] at held
            exact held
          · exact Nat.pos_of_ne_zero fun empty => waits ⟨handles, empty⟩

theorem move_of_arrive (run : pool.arrive i = some pool') : pool.Move (.arrive i) pool' := by
  unfold WorkerPool.arrive at run
  cases found : pool.mThreads[i]? with
  | none =>
    rw [found] at run
    cases run
  | some worker =>
    rw [found] at run
    simp only at run
    split at run
    case isTrue open_ =>
      cases Option.some.inj run
      rw [Bool.and_eq_true, Bool.not_eq_true'] at open_
      exact .arrive found open_.2
    case isFalse => cases run

theorem move_of_loop (run : pool.step .loop = some pool') : pool.Move .loop pool' := by
  simp only [step] at run
  split at run
  case h_1 caller held =>
    split at run
    case isTrue exits =>
      cases run
      exact .loopEnds held exits
    case isFalse goes =>
      cases run
      rw [not_or, not_or, not_or, Nat.not_le, Nat.not_le, Bool.not_eq_true] at goes
      exact .loopGoesOn held goes.1 goes.2.1 goes.2.2.1
  case h_2 => cases run

theorem move_of_startLocked {trackerPeers : List PeerAddress} (run : pool.step (.startLocked trackerPeers) = some pool') :
    pool.Move (.startLocked trackerPeers) pool' := by
  simp only [step] at run
  split at run
  case h_1 _ free =>
    cases run
    by_cases empty : (appendUniquePeers pool.mAllPeers trackerPeers).isEmpty = true
    · have nobody := List.isEmpty_iff.mp empty
      rw [if_pos empty, nobody]
      exact .startAlone free nobody
    · rw [if_neg empty]
      exact .startPeers free
  case h_2 => cases run

/-- The steps are no others. -/
theorem move_of_step (run : pool.step label = some pool') : pool.Move label pool' := by
  cases label with
  | startLocked trackerPeers => exact move_of_startLocked run
  | worker i event => exact move_of_workerStep run
  | arrive i => exact move_of_arrive run
  | loop => exact move_of_loop run
  | completes =>
    cases run
    exact .completes
  | start =>
    simp only [step] at run
    split at run
    · cases run
    · cases run
      exact .start
  | addDhtPeer peer =>
    simp only [step] at run
    split at run
    case h_1 free =>
      split at run
      · cases run
        exact .knownPeer
      · cases run
        exact .newPeer free
    case h_2 => cases run
  | spawn =>
    simp only [step] at run
    split at run
    case h_1 caller held =>
      cases run
      exact .spawn held
    case h_2 => cases run
  | stop =>
    simp only [step] at run
    split at run
    case isTrue => cases run
    case isFalse notStopped =>
      cases run
      exact .stop (Bool.eq_false_of_not_eq_true notStopped)
  | stopLock =>
    simp only [step] at run
    split at run
    case h_1 called free =>
      cases run
      exact .stopLock called free
    case h_2 => cases run
  | cancel =>
    simp only [step] at run
    split at run
    case h_1 i rest held =>
      cases run
      exact .cancel held
    case h_2 => cases run
  | stopUnlock =>
    simp only [step] at run
    split at run
    case h_1 held =>
      cases run
      exact .stopUnlock held
    case h_2 => cases run

end

end WorkerPool

end BittorrentClient
