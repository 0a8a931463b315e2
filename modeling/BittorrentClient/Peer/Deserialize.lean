import BittorrentClient.Peer.Message

namespace BittorrentClient
open Cpp

/-- The exceptions of `PeerMessage::deserialize`. -/
inductive DeserializeError
  | tooShort
  | keepAlive
  | truncated
  deriving DecidableEq

namespace PeerMessage

/-- `PeerMessage::deserialize`. The sum of the check is one of `uint32_t`, that
of the pointers is not. `none` is a read beyond the buffer. -/
def deserialize (data : Bytes) : Option (Except DeserializeError PeerMessage) :=
  if data.length < 4 then some (.error .tooShort)
  else
    let length := readBe32 data 0
    if length = 0 then some (.error .keepAlive)
    else if data.length < (4 + length) % 2 ^ 32 then some (.error .truncated)
    else
      match data[4]? with
      | none => none
      | some id =>
        if 1 < length then
          if 4 + length ≤ data.length then some (.ok ⟨.ofByte id, (data.take (4 + length)).drop 5⟩) else none
        else some (.ok ⟨.ofByte id, []⟩)

/-- No byte beyond the buffer is read, and a message that is returned has the
bytes behind its id up to the length that the prefix tells. -/
def StaysInside (data : Bytes) : Prop :=
  ∃ outcome, deserialize data = some outcome ∧
    ∀ msg, outcome = .ok msg → 4 + readBe32 data 0 ≤ data.length ∧ msg.payload = (data.take (4 + readBe32 data 0)).drop 5

section
variable {data : Bytes} (whole : 4 ≤ data.length)
include whole

/-- A length near the end of its range passes the check of any buffer. -/
theorem deserialize_wrapped (near : 2 ^ 32 - 4 ≤ readBe32 data 0) :
    deserialize data = if 4 + readBe32 data 0 ≤ data.length then
      (data[4]?).map fun id => .ok ⟨.ofByte id, (data.take (4 + readBe32 data 0)).drop 5⟩ else none := by
  have top := readBe32_lt data 0
  have wraps : ¬ data.length < (4 + readBe32 data 0) % 2 ^ 32 := by omega
  have long : 1 < readBe32 data 0 := by omega
  simp only [deserialize, if_neg (Nat.not_lt.mpr whole), if_neg (Nat.ne_of_gt (Nat.lt_trans Nat.one_pos long)),
    if_neg wraps, if_pos long]
  cases data[4]? with
  | none => exact (ite_self none).symm
  | some id => rfl

/-- Any other length is compared as it is. -/
theorem deserialize_exact (apart : readBe32 data 0 < 2 ^ 32 - 4) :
    ∃ outcome, deserialize data = some outcome ∧
      ∀ msg, outcome = .ok msg → 4 + readBe32 data 0 ≤ data.length ∧ msg.payload = (data.take (4 + readBe32 data 0)).drop 5 := by
  have sum : (4 + readBe32 data 0) % 2 ^ 32 = 4 + readBe32 data 0 := Nat.mod_eq_of_lt (by omega)
  simp only [deserialize, if_neg (Nat.not_lt.mpr whole), sum]
  split
  case isTrue => exact ⟨_, rfl, fun _ impossible => nomatch impossible⟩
  case isFalse positive =>
    split
    case isTrue => exact ⟨_, rfl, fun _ impossible => nomatch impossible⟩
    case isFalse enough =>
      have fits : 4 + readBe32 data 0 ≤ data.length := Nat.not_lt.mp enough
      rw [List.getElem?_eq_getElem (by omega : 4 < data.length)]
      simp only [if_pos fits]
      split
      case isTrue =>
        refine ⟨_, rfl, fun msg same => ⟨fits, ?_⟩⟩
        rw [← Except.ok.inj same]
      case isFalse one =>
        refine ⟨_, rfl, fun msg same => ⟨fits, ?_⟩⟩
        rw [← Except.ok.inj same]
        refine (List.drop_eq_nil_of_le ?_).symm
        rw [List.length_take]
        omega

end

/-- `deserialize` keeps to its buffer unless the sum of its check wraps, which
does no harm to a buffer of that size. -/
theorem deserialize_inside_iff (data : Bytes) :
    StaysInside data ↔ data.length < 4 ∨ readBe32 data 0 < 2 ^ 32 - 4 ∨ 4 + readBe32 data 0 ≤ data.length := by
  rcases Nat.lt_or_ge data.length 4 with short | whole
  · have thrown : deserialize data = some (.error .tooShort) := by rw [deserialize, if_pos short]
    exact ⟨fun _ => Or.inl short, fun _ => ⟨_, thrown, fun _ impossible => nomatch impossible⟩⟩
  rcases Nat.lt_or_ge (readBe32 data 0) (2 ^ 32 - 4) with apart | near
  · exact ⟨fun _ => Or.inr (Or.inl apart), fun _ => deserialize_exact whole apart⟩
  · rw [StaysInside, deserialize_wrapped whole near]
    constructor
    · intro ⟨outcome, returned, _⟩
      refine Or.inr (Or.inr ?_)
      by_contra beyond
      rw [if_neg beyond] at returned
      cases returned
    · intro condition
      have fits : 4 + readBe32 data 0 ≤ data.length := by omega
      rw [if_pos fits, List.getElem?_eq_getElem (by omega : 4 < data.length)]
      refine ⟨_, rfl, fun msg same => ⟨fits, ?_⟩⟩
      rw [← Except.ok.inj same]

/-- Four bytes of ones pass for a message. -/
theorem wrapped_length_accepted : ¬ ∀ data : Bytes, StaysInside data := by
  intro claim
  obtain ⟨_, returned, _⟩ := claim [255, 255, 255, 255]
  have outside : deserialize [255, 255, 255, 255] = none := by decide +kernel
  rw [outside] at returned
  cases returned

end PeerMessage

end BittorrentClient
