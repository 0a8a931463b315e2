import BittorrentClient.Library.BigEndian
import BittorrentClient.Library.Decimal
import Mathlib.Data.Nat.Bitwise

namespace BitString
open Cpp

/-- Bit `i` of a byte string, the most significant bit of each byte first. -/
def bit (bytes : Bytes) (i : Nat) : Bool := (bytes.getD (i / 8) 0).toNat.testBit (7 - i % 8)

/-- The byte in which only bit `i` is set. -/
def mask (i : Nat) : UInt8 := 1 <<< (7 - i % 8).toUInt8

theorem toNat_mask (i : Nat) : (mask i).toNat = 2 ^ (7 - i % 8) := by
  have checked : ∀ k, k < 8 → (1 <<< (7 - k).toUInt8 : UInt8).toNat = 2 ^ (7 - k) := by decide
  exact checked (i % 8) (Nat.mod_lt i (by decide))

theorem bit_replicate_zero (n i : Nat) : bit (List.replicate n 0) i = false := by
  have zero : (List.replicate n (0 : UInt8)).getD (i / 8) 0 = 0 := by
    rw [List.getD_eq_getElem?_getD, List.getElem?_replicate]
    split
    · rfl
    · rfl
  rw [bit, zero, UInt8.toNat_zero, Nat.zero_testBit]

section Modify
variable {bytes : Bytes} {i j : Nat}

theorem bit_modify_of_ne (f : UInt8 → UInt8) (other : j / 8 ≠ i / 8) : bit (bytes.modify (i / 8) f) j = bit bytes j := by
  rw [bit, bit, List.getD_eq_getElem?_getD, List.getElem?_modify_ne _ _ (Ne.symm other), List.getD_eq_getElem?_getD]

theorem bit_modify (f : UInt8 → UInt8) (same : j / 8 = i / 8) (inside : i / 8 < bytes.length) :
    bit (bytes.modify (i / 8) f) j = (f (bytes.getD (i / 8) 0)).toNat.testBit (7 - j % 8) := by
  rw [bit, same, List.getD_eq_getElem?_getD, List.getElem?_modify_eq, List.getD_eq_getElem?_getD,
    List.getElem?_eq_getElem inside]
  rfl

/-- A bit is set, and no other one changes. -/
theorem bit_or_mask (inside : i / 8 < bytes.length) :
    bit (bytes.modify (i / 8) (· ||| mask i)) j = (bit bytes j || decide (j = i)) := by
  by_cases same : j / 8 = i / 8
  · rw [bit_modify _ same inside, UInt8.toNat_or, Nat.testBit_or, toNat_mask, Nat.testBit_two_pow, bit, same]
    congr 1
    rw [decide_eq_decide]
    omega
  · rw [bit_modify_of_ne _ same, decide_eq_false fun equal => same (by rw [equal]), Bool.or_false]

theorem bit_xor_mask (inside : i / 8 < bytes.length) :
    bit (bytes.modify (i / 8) (· ^^^ mask i)) j = (bit bytes j ^^ decide (j = i)) := by
  by_cases same : j / 8 = i / 8
  · rw [bit_modify _ same inside, UInt8.toNat_xor, Nat.testBit_xor, toNat_mask, Nat.testBit_two_pow, bit, same]
    congr 1
    rw [decide_eq_decide]
    omega
  · rw [bit_modify_of_ne _ same, decide_eq_false fun equal => same (by rw [equal]), Bool.xor_false]

theorem bit_clear_mask (inside : i / 8 < bytes.length) :
    bit (bytes.modify (i / 8) (· &&& ~~~mask i)) j = (bit bytes j && !decide (j = i)) := by
  by_cases same : j / 8 = i / 8
  · have small : 2 ^ (7 - i % 8) < 2 ^ 8 := Nat.pow_lt_pow_right (by decide) (by omega)
    have position : 7 - j % 8 < 8 := by omega
    rw [bit_modify _ same inside, UInt8.toNat_and, UInt8.toNat_not, toNat_mask, Nat.testBit_and, bit, same,
      show UInt8.size - 1 - 2 ^ (7 - i % 8) = 2 ^ 8 - (2 ^ (7 - i % 8) + 1) by simp only [UInt8.size]; omega,
      Nat.testBit_two_pow_sub_succ small, decide_eq_true position, Bool.true_and, Nat.testBit_two_pow]
    congr 2
    rw [decide_eq_decide]
    omega
  · rw [bit_modify_of_ne _ same, decide_eq_false fun equal => same (by rw [equal]), Bool.not_false, Bool.and_true]

end Modify

section First
variable {bytes : Bytes} {i : Nat}

theorem bit_nil (i : Nat) : bit [] i = false := Nat.zero_testBit _

theorem bit_cons_of_lt (byte : UInt8) (rest : Bytes) (first : i < 8) : bit (byte :: rest) i = byte.toNat.testBit (7 - i) := by
  rw [bit, Nat.div_eq_of_lt first, Nat.mod_eq_of_lt first]
  rfl

theorem bit_cons_add (byte : UInt8) (rest : Bytes) (i : Nat) : bit (byte :: rest) (i + 8) = bit rest i := by
  rw [bit, bit, Nat.add_div_right i (by decide), Nat.add_mod_right]
  rfl

theorem bit_zipWith_xor (a b : Bytes) (same : a.length = b.length) (i : Nat) :
    bit (List.zipWith (· ^^^ ·) a b) i = (bit a i ^^ bit b i) := by
  induction a generalizing b i with
  | nil =>
    obtain rfl := List.length_eq_zero_iff.mp same.symm
    rw [List.zipWith_nil_left, bit_nil, Bool.xor_false]
  | cons x xs ih =>
    cases b with
    | nil => cases same
    | cons y ys =>
      rw [List.zipWith_cons_cons]
      rcases Nat.lt_or_ge i 8 with first | later
      · rw [bit_cons_of_lt _ _ first, bit_cons_of_lt _ _ first, bit_cons_of_lt _ _ first, UInt8.toNat_xor, Nat.testBit_xor]
      · obtain ⟨k, rfl⟩ := Nat.exists_eq_add_of_le' later
        rw [bit_cons_add, bit_cons_add, bit_cons_add]
        exact ih ys (Nat.succ.inj same) k

/-- Bit `k` is set and none before it. -/
structure First (bytes : Bytes) (k : Nat) : Prop where
  inside : k < 8 * bytes.length
  set : bit bytes k = true
  clear : ∀ j < k, bit bytes j = false

variable {k : Nat}

theorem First.high {byte : UInt8} {rest : Bytes} (first : First (byte :: rest) k) {i : Nat} (above : 7 < i + k) :
    byte.toNat.testBit i = false := by
  rcases Nat.lt_or_ge i 8 with inByte | beyond
  · have clear := first.clear (7 - i) (by omega)
    rwa [bit_cons_of_lt _ _ (by omega), show 7 - (7 - i) = i by omega] at clear
  · exact Nat.testBit_lt_two_pow (Nat.lt_of_lt_of_le byte.toNat_lt (Nat.pow_le_pow_right (by decide) beyond))

/-- The first set bit is in the first byte, or the first byte is zero. -/
theorem First.cases {byte : UInt8} {rest : Bytes} (first : First (byte :: rest) k) :
    (k < 8 ∧ 2 ^ (7 - k) ≤ byte.toNat ∧ byte.toNat < 2 ^ (8 - k)) ∨ (byte = 0 ∧ ∃ k', k = k' + 8 ∧ First rest k') := by
  rcases Nat.lt_or_ge k 8 with inFirst | later
  · have set := first.set
    rw [bit_cons_of_lt _ _ inFirst] at set
    exact Or.inl ⟨inFirst, Nat.ge_two_pow_of_testBit set, Nat.lt_pow_two_of_testBit _ fun i high => first.high (by omega)⟩
  · obtain ⟨k', rfl⟩ := Nat.exists_eq_add_of_le' later
    have zero : byte = 0 := UInt8.toNat_inj.mp (Nat.zero_of_testBit_eq_false fun i => first.high (by omega))
    refine Or.inr ⟨zero, k', rfl, ?_, ?_, fun j before => ?_⟩
    · have inside := first.inside
      rw [List.length_cons] at inside
      omega
    · rw [← bit_cons_add byte rest]
      exact first.set
    · rw [← bit_cons_add byte rest]
      exact first.clear (j + 8) (Nat.add_lt_add_right before 8)

theorem exists_bit (nonzero : ∃ byte ∈ bytes, byte ≠ 0) : ∃ k, k < 8 * bytes.length ∧ bit bytes k = true := by
  obtain ⟨byte, member, other⟩ := nonzero
  obtain ⟨n, inside, rfl⟩ := List.getElem_of_mem member
  by_contra none
  refine other (UInt8.toNat_inj.mp (Nat.zero_of_testBit_eq_false fun i => ?_))
  rcases Nat.lt_or_ge i 8 with inByte | beyond
  · by_contra set
    refine none ⟨8 * n + (7 - i), by omega, ?_⟩
    rw [bit, show (8 * n + (7 - i)) / 8 = n by omega, show 7 - (8 * n + (7 - i)) % 8 = i by omega,
      List.getD_eq_getElem?_getD, List.getElem?_eq_getElem inside]
    exact Bool.eq_true_of_not_eq_false set
  · exact Nat.testBit_lt_two_pow (Nat.lt_of_lt_of_le (UInt8.toNat_lt _) (Nat.pow_le_pow_right (by decide) beyond))

theorem exists_first (nonzero : ∃ byte ∈ bytes, byte ≠ 0) : ∃ k, First bytes k := by
  have some := exists_bit nonzero
  have least := Nat.find_spec some
  refine ⟨Nat.find some, least.1, least.2, fun j before => ?_⟩
  exact Bool.eq_false_of_not_eq_true fun set => Nat.find_min some before ⟨Nat.lt_trans before least.1, set⟩

theorem First.exists_ne_zero (first : First bytes k) : ∃ byte ∈ bytes, byte ≠ 0 := by
  have inside : k / 8 < bytes.length := Nat.div_lt_of_lt_mul first.inside
  have set := first.set
  rw [bit, List.getD_eq_getElem?_getD, List.getElem?_eq_getElem inside, Option.getD_some] at set
  refine ⟨bytes[k / 8], List.getElem_mem inside, fun zero => ?_⟩
  rw [zero, UInt8.toNat_zero, Nat.zero_testBit] at set
  cases set

/-- The place of the first set bit is the size of the number. -/
theorem First.value (first : First bytes k) :
    2 ^ (8 * bytes.length - 1 - k) ≤ BigEndian.value 256 (bytes.map UInt8.toNat) ∧
      BigEndian.value 256 (bytes.map UInt8.toNat) < 2 ^ (8 * bytes.length - k) := by
  induction bytes generalizing k with
  | nil => exact absurd first.inside (Nat.not_lt_zero k)
  | cons byte rest ih =>
    have tail : BigEndian.value 256 (rest.map UInt8.toNat) < 256 ^ rest.length := by
      have bounded := @BigEndian.value_lt 256 (rest.map UInt8.toNat) fun d member => by
        obtain ⟨byte, _, rfl⟩ := List.mem_map.mp member
        exact byte.toNat_lt
      rwa [List.length_map] at bounded
    rw [List.map_cons, BigEndian.value_cons, List.length_map, List.length_cons]
    rcases first.cases with ⟨inFirst, lower, upper⟩ | ⟨rfl, k, rfl, later⟩
    · have power : (256 : Nat) ^ rest.length = 2 ^ (8 * rest.length) := (Nat.pow_mul 2 8 rest.length).symm
      rw [power] at tail ⊢
      rw [show 8 * (rest.length + 1) - 1 - k = (7 - k) + 8 * rest.length by omega, Nat.pow_add,
        show 8 * (rest.length + 1) - k = (8 - k) + 8 * rest.length by omega, Nat.pow_add]
      constructor
      · exact Nat.le_trans (Nat.mul_le_mul_right _ lower) (Nat.le_add_right _ _)
      · have whole := Nat.mul_le_mul_right (2 ^ (8 * rest.length)) (Nat.succ_le_of_lt upper)
        rw [Nat.succ_mul] at whole
        omega
    · rw [UInt8.toNat_zero, Nat.zero_mul, Nat.zero_add,
        show 8 * (rest.length + 1) - 1 - (k + 8) = 8 * rest.length - 1 - k by omega,
        show 8 * (rest.length + 1) - (k + 8) = 8 * rest.length - k by omega]
      exact ih later

end First

end BitString
