import BittorrentClient.Dht.AddEntry
import BittorrentClient.Library.BigEndian

namespace BittorrentClient.Dht
open Cpp

namespace NodeId

/-- The 160-bit number that the bytes spell, most significant byte first. -/
def number (id : NodeId) : Nat := BigEndian.value 256 id.values

theorem values_lt (id : NodeId) : ∀ value ∈ id.values, value < 256 := by
  intro value member
  obtain ⟨byte, _, rfl⟩ := List.mem_map.mp member
  exact byte.toNat_lt

/-- `operator<` is the order of the numbers. -/
theorem number_lt_number_iff (a b : NodeId) : a.number < b.number ↔ a < b := by
  have same : a.values.length = b.values.length := by
    rw [values, values, List.length_map, List.length_map, a.length_eq, b.length_eq]
  exact BigEndian.value_lt_value_iff same a.values_lt b.values_lt

theorem xor_injective (target : NodeId) : Function.Injective (fun id : NodeId => target ^^^ id) := by
  intro a b same
  apply bytes_injective
  refine List.ext_getElem (a.length_eq.trans b.length_eq.symm) fun i inA inB => ?_
  have inside : i < (target ^^^ a).bytes.length := by rwa [(target ^^^ a).length_eq, ← a.length_eq]
  have byte := List.getElem_of_eq (congrArg NodeId.bytes same) inside
  simp only [bytes_xor, List.getElem_zipWith] at byte
  exact (UInt8.xor_right_inj _).mp byte

end NodeId

namespace RoutingTable

/-- `RoutingTable::closest`. -/
def closest (t : RoutingTable) (sort : StdSort RoutingEntry NodeId) (target : NodeId) (k : Nat) :
    List RoutingEntry :=
  (sort.run (fun entry => target ^^^ entry.id) t.all).take k

/-- The XOR distance as a number. -/
def distance (target : NodeId) (entry : RoutingEntry) : Nat := (target ^^^ entry.id).number

variable {t t' : RoutingTable} (sort sort' : StdSort RoutingEntry NodeId) (target : NodeId)

/-- No two entries of a table are equally far from anywhere. -/
theorem Invariant.distances_nodup (inv : t.Invariant) :
    (t.all.map fun entry => target ^^^ entry.id).Nodup := by
  have distinct := inv.ids_nodup.map (NodeId.xor_injective target)
  rwa [List.map_map] at distinct

theorem Invariant.closest_pairwise (inv : t.Invariant) :
    (sort.run (fun entry => target ^^^ entry.id) t.all).Pairwise
      (fun a b => distance target a < distance target b) := by
  refine (sort.pairwise_lt (inv.distances_nodup target)).imp ?_
  intro a b less
  exact (NodeId.number_lt_number_iff _ _).mpr less

/-- A table's answer is a matter of its entries alone. -/
theorem Invariant.closest_eq (inv : t.Invariant) (inv' : t'.Invariant) (same : ∀ entry, entry ∈ t'.all ↔ entry ∈ t.all)
    (k : Nat) : t'.closest sort' target k = t.closest sort target k := by
  have perm : t'.all.Perm t.all :=
    (List.perm_ext_iff_of_nodup (inv'.ids_nodup.of_map _) (inv.ids_nodup.of_map _)).mpr same
  rw [closest, closest, sort'.run_eq_run sort (inv'.distances_nodup target) perm]

/-- The answer of `closest`, on a table that calls of `add` and `remove` have
built, and on any other one with the same entries. -/
theorem closest_exact (selfId : NodeId) (calls : List Call) (k : Nat) :
    let t := calls.foldl apply (init selfId)
    let answer := t.closest sort target k
    answer.length = min k t.size ∧ answer.Nodup ∧ (∀ entry ∈ answer, entry ∈ t.all) ∧
    answer.Pairwise (fun a b => distance target a < distance target b) ∧
    (∀ entry ∈ t.all, entry ∉ answer → ∀ near ∈ answer, distance target near < distance target entry) ∧
    ∀ (selfId' : NodeId) (calls' : List Call) (sort' : StdSort RoutingEntry NodeId),
      (∀ entry, entry ∈ (calls'.foldl apply (init selfId')).all ↔ entry ∈ t.all) →
      (calls'.foldl apply (init selfId')).closest sort' target k = answer := by
  intro t answer
  have inv : t.Invariant := (invariant_init selfId).calls calls
  have perm := sort.perm (fun entry => target ^^^ entry.id) t.all
  have sorted := inv.closest_pairwise sort target
  have nodup : (sort.run (fun entry => target ^^^ entry.id) t.all).Nodup :=
    perm.nodup_iff.mpr (inv.ids_nodup.of_map _)
  refine ⟨?_, nodup.sublist (List.take_sublist _ _), ?_, sorted.sublist (List.take_sublist _ _), ?_, ?_⟩
  · rw [size_eq_length_all, ← perm.length_eq]
    exact List.length_take
  · intro entry member
    exact perm.mem_iff.mp (List.mem_of_mem_take member)
  · intro entry member missed near returned
    rw [← perm.mem_iff, ← List.take_append_drop k (sort.run _ _), List.mem_append] at member
    rw [← List.take_append_drop k (sort.run _ _), List.pairwise_append] at sorted
    exact sorted.2.2 near returned entry (member.resolve_left missed)
  · intro selfId' calls' sort' same
    exact inv.closest_eq sort sort' target ((invariant_init selfId').calls calls') same k

end RoutingTable

end BittorrentClient.Dht
