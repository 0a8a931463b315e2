import BittorrentClient.Library.Decimal

namespace Cpp

/-- A `uint16_t` in network byte order, as `htons` and `memcpy` leave it. -/
def writeBe16 (value : UInt16) : Bytes := [(value >>> 8).toUInt8, value.toUInt8]

/-- `ntohs` of two bytes at an offset of the buffer. -/
def readBe16 (buf : Bytes) (offset : Nat) : UInt16 :=
  (buf.getD offset 0).toUInt16 <<< 8 ||| (buf.getD (offset + 1) 0).toUInt16

/-- `byte_order::write_be32`. -/
def writeBe32 (value : Nat) : Bytes :=
  [(value >>> 24).toUInt8, (value >>> 16).toUInt8, (value >>> 8).toUInt8, value.toUInt8]

/-- `byte_order::read_be32` at an offset of the buffer. -/
def readBe32 (buf : Bytes) (offset : Nat) : Nat :=
  (buf.getD offset 0).toNat <<< 24 ||| (buf.getD (offset + 1) 0).toNat <<< 16 |||
    (buf.getD (offset + 2) 0).toNat <<< 8 ||| (buf.getD (offset + 3) 0).toNat

/-- `byte_order::write_be64`. -/
def writeBe64 (value : Nat) : Bytes := writeBe32 (value >>> 32) ++ writeBe32 value

/-- `byte_order::read_be64` at an offset of the buffer. -/
def readBe64 (buf : Bytes) (offset : Nat) : Nat := readBe32 buf offset <<< 32 ||| readBe32 buf (offset + 4)

/-- Reads that stay in the buffer; `none` stands for one that does not. -/
def be16At (buf : Bytes) (offset : Nat) : Option UInt16 :=
  if offset + 2 ≤ buf.length then some (readBe16 buf offset) else none

def be32At (buf : Bytes) (offset : Nat) : Option Nat :=
  if offset + 4 ≤ buf.length then some (readBe32 buf offset) else none

def be64At (buf : Bytes) (offset : Nat) : Option Nat :=
  if offset + 8 ≤ buf.length then some (readBe64 buf offset) else none

theorem readBe32_lt (buf : Bytes) (offset : Nat) : readBe32 buf offset < 2 ^ 32 := by
  have shifted : ∀ (byte : UInt8) (k : Nat), k ≤ 24 → byte.toNat <<< k < 2 ^ 32 := by
    intro byte k small
    rw [Nat.shiftLeft_eq]
    calc byte.toNat * 2 ^ k < 2 ^ 8 * 2 ^ k := Nat.mul_lt_mul_of_pos_right byte.toNat_lt (Nat.two_pow_pos k)
      _ = 2 ^ (8 + k) := (Nat.pow_add 2 8 k).symm
      _ ≤ 2 ^ 32 := Nat.pow_le_pow_right (by decide) (by omega)
  have last : ∀ byte : UInt8, byte.toNat < 2 ^ 32 := fun byte => Nat.lt_trans byte.toNat_lt (by decide)
  refine Nat.or_lt_two_pow (Nat.or_lt_two_pow (Nat.or_lt_two_pow ?_ ?_) ?_) (last _)
  · exact shifted _ 24 (by decide)
  · exact shifted _ 16 (by decide)
  · exact shifted _ 8 (by decide)

theorem readBe32_writeBe32 (front rest : Bytes) {value : Nat} (fits : value < 2 ^ 32) :
    readBe32 (front ++ writeBe32 value ++ rest) front.length = value := by
  have byte : ∀ shift, (value >>> shift).toUInt8.toNat = value / 2 ^ shift % 256 := by
    intro shift
    rw [← Nat.shiftRight_eq_div_pow]
    rfl
  have byte0 : value.toUInt8.toNat = value % 256 := rfl
  simp only [readBe32, writeBe32, List.getD, List.append_assoc, List.cons_append, List.nil_append,
    List.getElem?_append_right (Nat.le_refl front.length), List.getElem?_append_right (Nat.le_add_right front.length _),
    Nat.sub_self, Nat.add_sub_cancel_left, List.getElem?_cons_zero, List.getElem?_cons_succ, Option.getD_some, byte, byte0,
    Nat.or_assoc]
  have join : ∀ high low k, low < 2 ^ k → high <<< k ||| low = high * 2 ^ k + low := fun high low k small => by
    rw [← Nat.shiftLeft_add_eq_or_of_lt small, Nat.shiftLeft_eq]
  rw [join _ _ 8 (by omega), join _ _ 16 (by omega), join _ _ 24 (by omega)]
  omega

end Cpp
