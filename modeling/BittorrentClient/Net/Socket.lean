import BittorrentClient.Library.Decimal

namespace BittorrentClient
open Cpp

/-- What the next round of a read meets: a segment that has come in, which is
empty once the peer has closed; nothing in the time that is left, which may be
over; or a system call that fails. -/
inductive Arrival
  | data (segment : Bytes)
  | late (remainingMs : Int)
  | pollFailed (errno : Nat)
  | recvFailed (errno : Nat)

/-- The exceptions of `recv_exact_timeout`, with the values their texts carry. -/
inductive RecvError
  | timedOut (timeoutMs total n : Nat)
  | eof (total n : Nat)
  | pollTimedOut (remainingMs : Int)
  | pollFailed (errno : Nat)
  | recvFailed (errno : Nat)

namespace TCPDataSocket

/-- `recv_with_timeout`. What a segment has beyond `size` is left for the next
read, and after the last arrival the peer has closed. -/
def recvWithTimeout (size : Nat) : List Arrival → Except RecvError Bytes × List Arrival
  | [] => (.ok [], [])
  | .data segment :: rest =>
    (.ok (segment.take size), if segment.length ≤ size then rest else .data (segment.drop size) :: rest)
  | .late remainingMs :: rest => (.error (.pollTimedOut remainingMs), rest)
  | .pollFailed errno :: rest => (.error (.pollFailed errno), rest)
  | .recvFailed errno :: rest => (.error (.recvFailed errno), rest)

/-- Whether the deadline has passed when a round begins. -/
def expired : List Arrival → Bool
  | .late remainingMs :: _ => remainingMs ≤ 0
  | _ => false

/-- The loop of `recv_exact_timeout`; `buf` is what it has so far. -/
def recvExactTimeout (n timeoutMs : Nat) (buf : Bytes) (socket : List Arrival) : Except RecvError Bytes × List Arrival :=
  if n ≤ buf.length then (.ok buf, socket)
  else if expired socket then (.error (.timedOut timeoutMs buf.length n), socket)
  else
    match recvWithTimeout (n - buf.length) socket with
    | (.error error, socket) => (.error error, socket)
    | (.ok [], socket) => (.error (.eof buf.length n), socket)
    | (.ok (first :: got), socket) => recvExactTimeout n timeoutMs (buf ++ first :: got) socket
termination_by n - buf.length
decreasing_by
  rw [List.length_append, List.length_cons]
  omega

section Segments
variable {n timeoutMs : Nat} {buf : Bytes}

theorem recvExactTimeout_done (enough : n ≤ buf.length) (socket : List Arrival) :
    recvExactTimeout n timeoutMs buf socket = (.ok buf, socket) := by
  rw [recvExactTimeout, if_pos enough]

theorem recvExactTimeout_data (short : buf.length < n) {segment : Bytes} (some : segment ≠ []) (rest : List Arrival) :
    recvExactTimeout n timeoutMs buf (.data segment :: rest) =
      recvExactTimeout n timeoutMs (buf ++ segment.take (n - buf.length))
        (if segment.length ≤ n - buf.length then rest else .data (segment.drop (n - buf.length)) :: rest) := by
  have notOver : ¬ n ≤ buf.length := by omega
  rw [recvExactTimeout, if_neg notOver, if_neg (by exact Bool.false_ne_true), recvWithTimeout]
  cases got : segment.take (n - buf.length) with
  | nil =>
    rcases List.take_eq_nil_iff.mp got with none | empty
    · omega
    · exact absurd empty some
  | cons first others => rfl

/-- However the stream is split into segments, a read takes the bytes that it
wants and leaves the others. -/
theorem recvExactTimeout_segments (n timeoutMs : Nat) (buf : Bytes) (later : List Arrival) {segments : List Bytes} {want rest : Bytes}
    (some : ∀ segment ∈ segments, segment ≠ []) (stream : segments.flatten = want ++ rest)
    (size : buf.length + want.length = n) :
    ∃ left : List Bytes, (∀ segment ∈ left, segment ≠ []) ∧ left.flatten = rest ∧
      recvExactTimeout n timeoutMs buf (segments.map .data ++ later) = (.ok (buf ++ want), left.map .data ++ later) := by
  induction segments generalizing buf want with
  | nil =>
    obtain ⟨rfl, rfl⟩ := List.append_eq_nil_iff.mp stream.symm
    refine ⟨[], some, rfl, ?_⟩
    rw [recvExactTimeout_done (by simp at size; omega), List.append_nil]
  | cons segment segments ih =>
    cases want with
    | nil =>
      refine ⟨segment :: segments, some, stream, ?_⟩
      rw [recvExactTimeout_done (by simp at size; omega), List.append_nil]
    | cons byte want =>
      have short : buf.length < n := by
        rw [List.length_cons] at size
        omega
      have others : ∀ segment ∈ segments, segment ≠ [] := fun other member => some other (List.mem_cons_of_mem _ member)
      rw [List.map_cons, List.cons_append, recvExactTimeout_data short (some segment List.mem_cons_self)]
      have wanted : n - buf.length = (byte :: want).length := by omega
      rw [wanted]
      rcases List.append_eq_append_iff.mp stream with ⟨more, whole, tail⟩ | ⟨extra, whole, tail⟩
      · have inside : segment.length ≤ (byte :: want).length := by
          rw [whole, List.length_append]
          omega
        have size' : (buf ++ segment).length + more.length = n := by
          rw [whole, List.length_append] at size
          rw [List.length_append]
          omega
        obtain ⟨left, nonempty, flat, read⟩ := ih (buf ++ segment) others tail size'
        rw [if_pos inside, List.take_of_length_le inside, read, whole, List.append_assoc]
        exact ⟨left, nonempty, flat, rfl⟩
      · have full : n ≤ (buf ++ byte :: want).length := by
          rw [List.length_append]
          omega
        rw [whole, List.take_left, List.drop_left, recvExactTimeout_done full]
        cases extra with
        | nil =>
          rw [List.append_nil, if_pos (Nat.le_refl _)]
          exact ⟨segments, others, tail.symm, rfl⟩
        | cons next extra =>
          have longer : ¬ (byte :: want ++ next :: extra).length ≤ (byte :: want).length := by
            simp only [List.length_append, List.length_cons]
            omega
          rw [if_neg longer]
          refine ⟨(next :: extra) :: segments, fun other member => ?_, tail.symm, rfl⟩
          rcases List.mem_cons.mp member with rfl | old
          · exact List.cons_ne_nil next extra
          · exact others other old

end Segments

end TCPDataSocket

end BittorrentClient
