import BittorrentClient.Dht.Closest
import BittorrentClient.Library.BitString

namespace BittorrentClient.Dht
open Cpp BitString

namespace NodeId

/-- One byte of an id is written. -/
def modifyByte (id : NodeId) (byteIdx : Nat) (change : UInt8 → UInt8) : NodeId :=
  ⟨id.bytes.modify byteIdx change, by rw [List.length_modify, id.length_eq]⟩

end NodeId

namespace RoutingTable

/-- The loop of `random_id_in_bucket` over the less significant bits. -/
def fillBits (bitDist : Nat → Bool) : List Nat → NodeId → NodeId
  | [], id => id
  | idx :: rest, id =>
    fillBits bitDist rest
      (if bitDist idx then id.modifyByte (idx / 8) (· ||| 1 <<< (7 - idx % 8).toUInt8)
      else id.modifyByte (idx / 8) (· &&& ~~~(1 <<< (7 - idx % 8).toUInt8)))

/-- `random_id_in_bucket`; `bitDist` says what is drawn for each bit. -/
def randomIdInBucket (selfId : NodeId) (bucket : Nat) (bitDist : Nat → Bool) : NodeId :=
  let bucket := if numBuckets ≤ bucket then numBuckets - 1 else bucket
  let msbIndex := numBuckets - 1 - bucket
  let id := selfId.modifyByte (msbIndex / 8) (· ^^^ 1 <<< (7 - msbIndex % 8).toUInt8)
  fillBits bitDist (List.range' (msbIndex + 1) (numBuckets - (msbIndex + 1))) id

section BucketIndex
variable {bytes : Bytes} {k : Nat} {selfId id : NodeId}

/-- The scan of one byte stops at its highest bit. -/
theorem find_bit {byte : UInt8} (inside : k < 8) (lower : 2 ^ (7 - k) ≤ byte.toNat) (upper : byte.toNat < 2 ^ (8 - k)) :
    [7, 6, 5, 4, 3, 2, 1, 0].find? (fun bit => byte.toNat &&& 1 <<< bit ≠ 0) = some (7 - k) := by
  have checked : ∀ k, k < 8 → ∀ n, n < 256 → 2 ^ (7 - k) ≤ n → n < 2 ^ (8 - k) →
      [7, 6, 5, 4, 3, 2, 1, 0].find? (fun bit => n &&& 1 <<< bit ≠ 0) = some (7 - k) := by
    decide +kernel
  exact checked k inside byte.toNat byte.toNat_lt lower upper

/-- The loops of `bucket_index` find the first set bit. -/
theorem bucketOfBytes_of_first (first : First bytes k) (byteIdx : Nat) :
    bucketOfBytes bytes byteIdx = numBuckets - 1 - (byteIdx * 8 + k) := by
  induction bytes generalizing k byteIdx with
  | nil => exact absurd first.inside (Nat.not_lt_zero k)
  | cons byte rest ih =>
    unfold bucketOfBytes
    rcases first.cases with ⟨inFirst, lower, upper⟩ | ⟨rfl, k, rfl, later⟩
    · have nonzero : byte ≠ 0 := by
        rintro rfl
        exact absurd lower (Nat.not_le.mpr (Nat.two_pow_pos _))
      rw [if_neg nonzero, find_bit inFirst lower upper]
      simp only
      omega
    · rw [if_pos rfl, ih later]
      omega

theorem first_of_ne (different : id ≠ selfId) : ∃ k, First (selfId ^^^ id).bytes k := by
  refine exists_first ?_
  by_contra none
  push Not at none
  have zero : (selfId ^^^ id).isZero = true := List.all_eq_true.mpr fun byte member => beq_iff_eq.mpr (none byte member)
  exact different (NodeId.eq_of_xor_isZero zero).symm

theorem bucketIndex_of_first (first : First (selfId ^^^ id).bytes k) : bucketIndex selfId id = numBuckets - 1 - k := by
  have nonzero : ¬ (selfId ^^^ id).isZero = true := by
    intro zero
    obtain ⟨byte, member, other⟩ := first.exists_ne_zero
    exact other (beq_iff_eq.mp (List.all_eq_true.mp zero byte member))
  simp only [bucketIndex, if_neg nonzero]
  rw [bucketOfBytes_of_first first 0, Nat.zero_mul, Nat.zero_add]

/-- The bucket is the size of the distance. -/
theorem bucketIndex_bounds (different : id ≠ selfId) :
    2 ^ bucketIndex selfId id ≤ (selfId ^^^ id).number ∧ (selfId ^^^ id).number < 2 ^ (bucketIndex selfId id + 1) := by
  obtain ⟨k, first⟩ := first_of_ne different
  have value := first.value
  have inside := first.inside
  rw [NodeId.length_eq] at inside value
  rw [bucketIndex_of_first first, show numBuckets - 1 - k + 1 = 8 * 20 - k by simp only [numBuckets]; omega]
  exact value

theorem bucketIndex_eq_iff (different : id ≠ selfId) (b : Nat) :
    bucketIndex selfId id = b ↔ 2 ^ b ≤ (selfId ^^^ id).number ∧ (selfId ^^^ id).number < 2 ^ (b + 1) := by
  obtain ⟨lower, upper⟩ := bucketIndex_bounds different
  constructor
  · rintro rfl
    exact ⟨lower, upper⟩
  · intro ⟨below, above⟩
    have notLess := (Nat.pow_lt_pow_iff_right (by decide)).mp (Nat.lt_of_le_of_lt lower above)
    have notMore := (Nat.pow_lt_pow_iff_right (by decide)).mp (Nat.lt_of_le_of_lt below upper)
    omega

end BucketIndex

section RandomId
variable {selfId id : NodeId} {k j : Nat} (bitDist : Nat → Bool)

theorem bit_xor (a b : NodeId) (i : Nat) : bit (a ^^^ b).bytes i = (bit a.bytes i ^^ bit b.bytes i) :=
  bit_zipWith_xor a.bytes b.bytes (a.length_eq.trans b.length_eq.symm) i

/-- The loop leaves alone the bits that are not in its list. -/
theorem bit_fillBits {indices : List Nat} (inside : ∀ idx ∈ indices, idx < numBuckets) (elsewhere : j ∉ indices)
    (id : NodeId) : bit (fillBits bitDist indices id).bytes j = bit id.bytes j := by
  induction indices generalizing id with
  | nil => rfl
  | cons idx rest ih =>
    rw [List.mem_cons, not_or] at elsewhere
    obtain ⟨other, later⟩ := elsewhere
    have place : idx / 8 < id.bytes.length := by
      have small := inside idx List.mem_cons_self
      rw [id.length_eq]
      simp only [numBuckets] at small
      omega
    rw [fillBits, ih (fun idx member => inside idx (List.mem_cons_of_mem _ member)) later]
    split
    · refine (bit_or_mask place).trans ?_
      rw [decide_eq_false other, Bool.or_false]
    · refine (bit_clear_mask place).trans ?_
      rw [decide_eq_false other, Bool.not_false, Bool.and_true]

/-- The first bit in which a random id of a bucket differs from the own id. -/
theorem first_randomId {b : Nat} (inside : b < numBuckets) :
    First (selfId ^^^ randomIdInBucket selfId b bitDist).bytes (numBuckets - 1 - b) := by
  have place : (numBuckets - 1 - b) / 8 < selfId.bytes.length := by
    rw [selfId.length_eq]
    simp only [numBuckets]
    omega
  have same : ∀ j, j ≤ numBuckets - 1 - b →
      bit (randomIdInBucket selfId b bitDist).bytes j = (bit selfId.bytes j ^^ decide (j = numBuckets - 1 - b)) := by
    intro j before
    simp only [randomIdInBucket, if_neg (Nat.not_le.mpr inside)]
    rw [bit_fillBits bitDist (fun idx member => ?_) (fun member => ?_)]
    · exact bit_xor_mask place
    · have range := List.mem_range'_1.mp member
      omega
    · have range := List.mem_range'_1.mp member
      omega
  refine ⟨?_, ?_, fun j before => ?_⟩
  · rw [NodeId.length_eq]
    simp only [numBuckets]
    omega
  · rw [bit_xor, same _ (Nat.le_refl _), decide_eq_true rfl, ← Bool.xor_assoc, Bool.xor_self, Bool.false_xor]
  · rw [bit_xor, same j (Nat.le_of_lt before), decide_eq_false (Nat.ne_of_lt before), Bool.xor_false, Bool.xor_self]

theorem bucketIndex_self (selfId : NodeId) : bucketIndex selfId selfId = numBuckets := by
  have zero : (selfId ^^^ selfId).isZero = true := by
    refine List.all_eq_true.mpr fun byte member => ?_
    rw [NodeId.bytes_xor, List.zipWith_self] at member
    obtain ⟨_, _, rfl⟩ := List.mem_map.mp member
    exact beq_iff_eq.mpr (UInt8.xor_self)
  rw [bucketIndex]
  exact if_pos zero

/-- The buckets cut the distances at the powers of two, and a random id of a
bucket lies in it, whatever is drawn. -/
theorem bucket_geometry (selfId : NodeId) :
    (∀ id, id ≠ selfId → bucketIndex selfId id < 160 ∧
      ∀ b, bucketIndex selfId id = b ↔ 2 ^ b ≤ (selfId ^^^ id).number ∧ (selfId ^^^ id).number < 2 ^ (b + 1)) ∧
    (∀ near far, near ≠ selfId → far ≠ selfId → bucketIndex selfId near < bucketIndex selfId far →
      (selfId ^^^ near).number < (selfId ^^^ far).number) ∧
    ∀ b < 160, ∀ bitDist, randomIdInBucket selfId b bitDist ≠ selfId ∧
      bucketIndex selfId (randomIdInBucket selfId b bitDist) = b := by
  refine ⟨fun id different => ⟨bucketIndex_lt different, bucketIndex_eq_iff different⟩, ?_, ?_⟩
  · intro near far nearOther farOther lower
    have nearBound := (bucketIndex_bounds nearOther).2
    have farBound := (bucketIndex_bounds farOther).1
    exact Nat.lt_of_lt_of_le nearBound (Nat.le_trans (Nat.pow_le_pow_right (by decide) lower) farBound)
  · intro b inside bitDist
    have same : bucketIndex selfId (randomIdInBucket selfId b bitDist) = b := by
      rw [bucketIndex_of_first (first_randomId bitDist inside)]
      simp only [numBuckets]
      omega
    refine ⟨fun equal => ?_, same⟩
    rw [equal, bucketIndex_self] at same
    exact absurd same.symm (Nat.ne_of_lt inside)

end RandomId

end RoutingTable

end BittorrentClient.Dht
