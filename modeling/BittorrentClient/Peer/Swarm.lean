import BittorrentClient.Library.Reach
import BittorrentClient.Peer.Connection

namespace BittorrentClient
open Cpp

/-- The live connections of one torrent and what they share. -/
structure Swarm where
  pieces : Pieces
  disk : Disk
  conns : Nat → Option PeerConnection

namespace Swarm

/-- A connection comes up, handles one message other than a keep-alive, or
dies while it waits for one. -/
inductive Label
  | open_ (id : Nat)
  | message (id : Nat) (msg : PeerMessage) (io : Io)
  | drop (id : Nat)

variable (pm : PieceManager) (w : DiskWriter) (sha1 : Bytes → Sha1Hash)

/-- `~PeerConnection`. -/
def destroy (s : Swarm) (id : Nat) (world : World) : Swarm where
  pieces := PeerConnection.releaseClaim pm world
  disk := world.disk
  conns := Function.update s.conns id none

/-- One step is a whole handler followed by `fill_requests`; an exception leaves `run`
and destroys the connection. Nothing comes after the end of the process. In `Overlap`
other connections step between the flag of a piece and the end of its write. -/
def step (s : Swarm) : Label → Option Swarm
  | .open_ id =>
    match s.conns id with
    | some _ => none
    | none => some { s with conns := Function.update s.conns id (some (PeerConnection.make pm)) }
  | .message id msg io =>
    match s.conns id with
    | none => none
    | some conn =>
      match PeerConnection.handleThenFill pm w sha1 io msg ⟨conn, s.pieces, s.disk⟩ with
      | (world, .ok _) => some ⟨world.pieces, world.disk, Function.update s.conns id (some world.conn)⟩
      | (world, .error error) => if error.fatal then none else some (destroy pm s id world)
  | .drop id =>
    match s.conns id with
    | none => none
    | some conn => some (destroy pm s id ⟨conn, s.pieces, s.disk⟩)

variable {pm w sha1}

/-- The two ways in which the program goes on after a handler. -/
theorem step_message {s s' : Swarm} {id : Nat} {msg : PeerMessage} {io : Io}
    (run : step pm w sha1 s (.message id msg io) = some s') :
    ∃ conn, s.conns id = some conn ∧
      ((∃ world, PeerConnection.handleThenFill pm w sha1 io msg ⟨conn, s.pieces, s.disk⟩ = (world, .ok ()) ∧
          s' = ⟨world.pieces, world.disk, Function.update s.conns id (some world.conn)⟩) ∨
        ∃ world error, PeerConnection.handleThenFill pm w sha1 io msg ⟨conn, s.pieces, s.disk⟩ = (world, .error error) ∧
          error.fatal = false ∧ s' = destroy pm s id world) := by
  rw [step] at run
  split at run
  case h_1 => cases run
  case h_2 conn live =>
    refine ⟨conn, live, ?_⟩
    split at run
    case h_1 world _ outcome =>
      cases run
      exact Or.inl ⟨world, outcome, rfl⟩
    case h_2 world error outcome =>
      split at run
      case isTrue => cases run
      case isFalse goesOn =>
        cases run
        exact Or.inr ⟨world, error, outcome, Bool.eq_false_iff.mpr goesOn, rfl⟩

/-- A fresh manager over any files, before the first connection. -/
def Initial (s : Swarm) : Prop := s.pieces = .fresh ∧ ∀ id, s.conns id = none

end Swarm

end BittorrentClient
