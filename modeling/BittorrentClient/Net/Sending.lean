import BittorrentClient.Library.Decimal

namespace BittorrentClient
open Cpp

/-- What the kernel does with the bytes of one `::send`: it takes so many of them, or it
fails. -/
inductive Taking
  | took (count : Nat)
  | failed (errno : Nat)

/-- `send() failed`, with what `errno` says. -/
structure SendError where
  errno : Nat

namespace TCPDataSocket

/-- `TCPDataSocket::send`, with the bytes that it has got rid of. What the kernel takes is
at most what it is given, and after the last taking it takes all. -/
def send (buffer : Bytes) : List Taking → Except SendError Unit × Bytes × List Taking
  | [] => (.ok (), buffer, [])
  | taking :: rest =>
    if buffer.isEmpty then (.ok (), [], taking :: rest)
    else
      match taking with
      | .failed errno => (.error ⟨errno⟩, [], rest)
      | .took 0 => (.error ⟨0⟩, [], rest)
      | .took (count + 1) =>
        let (result, wire, left) := send (buffer.drop (count + 1)) rest
        (result, buffer.take (count + 1) ++ wire, left)

/-- A number of calls of `send`, up to the first that throws. -/
def sendAll : List Bytes → List Taking → Except SendError Unit × Bytes × List Taking
  | [], takings => (.ok (), [], takings)
  | buffer :: rest, takings =>
    match send buffer takings with
    | (.error error, wire, left) => (.error error, wire, left)
    | (.ok _, wire, left) =>
      let (result, more, last) := sendAll rest left
      (result, wire ++ more, last)

/-- However the kernel cuts it up, what `send` has got rid of is the buffer from its
beginning, and all of it if it returns. -/
theorem send_begins (buffer : Bytes) (takings : List Taking) :
    (send buffer takings).2.1 <+: buffer ∧ ((send buffer takings).1 = .ok () → (send buffer takings).2.1 = buffer) := by
  induction takings generalizing buffer with
  | nil => exact ⟨List.prefix_refl buffer, fun _ => rfl⟩
  | cons taking rest ih =>
    unfold send
    split
    case isTrue empty =>
      rw [List.isEmpty_iff.mp empty]
      exact ⟨List.prefix_refl [], fun _ => rfl⟩
    case isFalse =>
      split
      case h_1 => exact ⟨List.nil_prefix, fun impossible => by cases impossible⟩
      case h_2 => exact ⟨List.nil_prefix, fun impossible => by cases impossible⟩
      case h_3 count =>
        obtain ⟨⟨later, split⟩, whole⟩ := ih (buffer.drop (count + 1))
        refine ⟨⟨later, ?_⟩, fun done => ?_⟩
        · rw [List.append_assoc, split, List.take_append_drop]
        · simp only at done ⊢
          rw [whole done, List.take_append_drop]

theorem sendAll_begins (buffers : List Bytes) (takings : List Taking) :
    (sendAll buffers takings).2.1 <+: buffers.flatten ∧
      ((sendAll buffers takings).1 = .ok () → (sendAll buffers takings).2.1 = buffers.flatten) := by
  induction buffers generalizing takings with
  | nil => exact ⟨List.prefix_refl [], fun _ => rfl⟩
  | cons buffer rest ih =>
    obtain ⟨begins, whole⟩ := send_begins buffer takings
    rw [sendAll, List.flatten_cons]
    split
    case h_1 error wire left sent =>
      rw [sent] at begins
      exact ⟨begins.trans (List.prefix_append buffer _), fun impossible => by cases impossible⟩
    case h_2 value wire left sent =>
      rw [sent] at whole
      have same : wire = buffer := whole rfl
      subst same
      obtain ⟨begins', whole'⟩ := ih left
      exact ⟨(List.prefix_append_right_inj _).mpr begins', fun done => congrArg _ (whole' done)⟩

end TCPDataSocket

end BittorrentClient
