import Mathlib.Data.List.Lex
import BittorrentClient.Hash
import BittorrentClient.Library.Nearest

namespace BittorrentClient
open Cpp

structure PeerAddress where
  ip : Bytes
  port : UInt16
  deriving DecidableEq

namespace Dht

structure NodeId where
  bytes : Bytes
  length_eq : bytes.length = 20

namespace NodeId

theorem bytes_injective : Function.Injective bytes := by
  rintro ⟨_, _⟩ ⟨_, _⟩ ⟨⟩
  rfl

instance : DecidableEq NodeId := bytes_injective.decidableEq

def fromInfoHash (hash : InfoHash) : NodeId := ⟨hash.bytes, hash.length_eq⟩

/-- The XOR distance, byte by byte. -/
instance : XorOp NodeId where
  xor a b := ⟨List.zipWith (· ^^^ ·) a.bytes b.bytes, by
    rw [List.length_zipWith, a.length_eq, b.length_eq, Nat.min_self]⟩

/-- The byte values, which `operator<` compares lexicographically. -/
def values (id : NodeId) : List Nat := id.bytes.map UInt8.toNat

theorem values_injective : Function.Injective values :=
  (List.map_injective_iff.mpr fun _ _ => UInt8.toNat_inj.mp).comp bytes_injective

instance : LinearOrder NodeId := LinearOrder.lift' values values_injective

end NodeId

/-- What identifies a remote node. -/
structure Node where
  id : NodeId
  pa : PeerAddress
  deriving DecidableEq

structure RoutingEntry extends Node where
  lastSeen : Nat
  deriving DecidableEq

namespace RoutingTable

def K : Nat := 8

/-- What `all_unlocked` lists at some moment. `add` turns the own id away. -/
structure Contents (selfId : NodeId) where
  entries : List RoutingEntry
  noSelf : ∀ entry ∈ entries, entry.id ≠ selfId

/-- `RoutingTable::closest`. -/
def Contents.closest {selfId : NodeId} (table : Contents selfId) (sort : StdSort RoutingEntry NodeId)
    (target : NodeId) (k : Nat) : List RoutingEntry :=
  (sort.run (fun entry => target ^^^ entry.id) table.entries).take k

theorem Contents.closest_noSelf {selfId : NodeId} (table : Contents selfId) (sort : StdSort RoutingEntry NodeId)
    (target : NodeId) (k : Nat) : ∀ entry ∈ table.closest sort target k, entry.id ≠ selfId := by
  intro entry member
  exact table.noSelf entry ((sort.perm _ _).mem_iff.mp (List.mem_of_mem_take member))

end RoutingTable

end Dht

end BittorrentClient
