import BittorrentClient.Peer.Handshake

namespace BittorrentClient
open Cpp TCPDataSocket

section Short
variable {n timeoutMs : Nat}

/-- When the peer has closed before all bytes came, a read says how many it got. -/
theorem recvExactTimeout_short {segments : List Bytes} {buf : Bytes} (some : ∀ segment ∈ segments, segment ≠ [])
    (short : buf.length + segments.flatten.length < n) :
    recvExactTimeout n timeoutMs buf (segments.map .data) = (.error (.eof (buf.length + segments.flatten.length) n), []) := by
  induction segments generalizing buf with
  | nil =>
    rw [List.flatten_nil, List.length_nil, Nat.add_zero] at short ⊢
    rw [List.map_nil, recvExactTimeout, if_neg (by omega), if_neg (by exact Bool.false_ne_true)]
    rfl
  | cons segment segments ih =>
    rw [List.flatten_cons, List.length_append] at short ⊢
    rw [List.map_cons, recvExactTimeout_data (by omega) (some segment List.mem_cons_self), if_pos (by omega),
      List.take_of_length_le (by omega), ih (fun other member => some other (List.mem_cons_of_mem _ member))
        (by rw [List.length_append]; omega), List.length_append, Nat.add_assoc]

end Short

namespace PeerConnection
variable {timeoutMs : Nat} {segments : List Bytes}

theorem recvExact_short {n : Nat} (context : RecvContext) (some : ∀ segment ∈ segments, segment ≠ [])
    (short : segments.flatten.length < n) :
    recvExact n timeoutMs context (segments.map .data) = (.error (.recv context (.eof segments.flatten.length n)), []) := by
  rw [recvExact, recvExactTimeout_short some (by rw [List.length_nil]; omega), List.length_nil, Nat.zero_add]

/-- A list that begins like two others in a row stops within the first or begins with it. -/
theorem prefix_append_cases {xs first second : Bytes} (begins : xs <+: first ++ second) :
    (xs <+: first ∧ xs.length < first.length) ∨ ∃ rest, xs = first ++ rest ∧ rest <+: second := by
  rcases List.prefix_or_prefix_of_prefix begins (List.prefix_append first second) with inside | ⟨rest, rfl⟩
  · rcases Nat.lt_or_ge xs.length first.length with shorter | longer
    · exact Or.inl ⟨inside, shorter⟩
    · have same := inside.eq_of_length_le longer
      exact Or.inr ⟨[], by rw [List.append_nil, same], List.nil_prefix⟩
  · exact Or.inr ⟨rest, rfl, (List.prefix_append_right_inj first).mp begins⟩

/-- A message of which the end is missing is not received. -/
theorem recvMessageTimeout_short (timeoutMs : Nat) {message : WireMessage}
    (small : ∀ msg, message.toPeerMessage = some msg → msg.payload.length < 2 ^ 24)
    (some : ∀ segment ∈ segments, segment ≠ []) (begins : segments.flatten <+: message.wire)
    (shorter : segments.flatten.length < message.wire.length) :
    ∃ context total n, recvMessageTimeout timeoutMs (segments.map .data) = (.error (.recv context (.eof total n)), []) := by
  by_cases four : segments.flatten.length < 4
  · refine ⟨.messageLength, segments.flatten.length, 4, ?_⟩
    rw [recvMessageTimeout, recvExact_short .messageLength some four]
  · rw [WireMessage.wire] at begins shorter
    cases sent : message.toPeerMessage with
    | none =>
      rw [sent, Option.elim_none] at shorter
      exact absurd shorter four
    | some msg =>
      have limit := small msg sent
      rw [sent, Option.elim_some, PeerMessage.serialize, Nat.mod_eq_of_lt (by omega)] at begins shorter
      rw [List.length_append, List.length_cons] at shorter
      have size : (writeBe32 (1 + msg.payload.length)).length = 4 := rfl
      rcases prefix_append_cases begins with ⟨_, less⟩ | ⟨rest, stream, _⟩
      · exact absurd less (size ▸ four)
      · obtain ⟨left, nonempty, flat, read⟩ := recvExact_segments timeoutMs .messageLength [] some stream
        rw [size, List.append_nil, List.append_nil] at read
        have length := readBe32_writeBe32 [] [] (show 1 + msg.payload.length < 2 ^ 32 by omega)
        rw [List.nil_append, List.append_nil, List.length_nil] at length
        have some' : 1 + msg.payload.length ≠ 0 := by omega
        have allowed : ¬ 1 <<< 24 < 1 + msg.payload.length := by
          have power : 1 <<< 24 = 2 ^ 24 := rfl
          omega
        have missing : left.flatten.length < 1 + msg.payload.length := by
          rw [stream, List.length_append] at shorter
          rw [flat]
          omega
        refine ⟨.messageBody, left.flatten.length, 1 + msg.payload.length, ?_⟩
        simp only [recvMessageTimeout, read, length, if_neg some', if_neg allowed,
          recvExact_short .messageBody nonempty missing]

/-- The bytes are the first `k` messages and a beginning of the next one that is not all
of it, or nothing. -/
def GotOut (bytes : Bytes) (messages : List WireMessage) (k : Nat) : Prop :=
  ∃ part, bytes = ((messages.take k).map WireMessage.wire).flatten ++ part ∧
    (messages[k]?).elim (part = []) fun next => part <+: next.wire ∧ part.length < next.wire.length

/-- Of a stream of messages that breaks off somewhere, the messages that are whole are
received, and the next call finds that the peer has closed. -/
theorem recvMessages_begun (timeoutMs : Nat) {messages : List WireMessage}
    (small : ∀ message ∈ messages, ∀ msg, message.toPeerMessage = some msg → msg.payload.length < 2 ^ 24)
    (some : ∀ segment ∈ segments, segment ≠ []) (begins : segments.flatten <+: (messages.map WireMessage.wire).flatten) :
    ∃ k rest, k ≤ messages.length ∧
      recvMessages timeoutMs k (segments.map .data) = (.ok ((messages.take k).map WireMessage.toPeerMessage), rest) ∧
      (∃ context total n, recvMessageTimeout timeoutMs rest = (.error (.recv context (.eof total n)), [])) ∧
      GotOut segments.flatten messages k ∧
      (segments.flatten = (messages.map WireMessage.wire).flatten → k = messages.length) := by
  induction messages generalizing segments with
  | nil =>
    have empty := List.prefix_nil.mp begins
    have none : segments = [] := by
      cases segments with
      | nil => rfl
      | cons segment rest => exact absurd (List.append_eq_nil_iff.mp empty).1 (some segment List.mem_cons_self)
    refine ⟨0, [], Nat.le_refl 0, ?_, ⟨.messageLength, 0, 4, ?_⟩, ⟨[], empty, rfl⟩, fun _ => rfl⟩
    · rw [none]
      rfl
    · have short : ([] : List Bytes).flatten.length < 4 := by decide
      have read := @recvExact_short timeoutMs [] 4 .messageLength (fun _ member => absurd member List.not_mem_nil) short
      rw [List.map_nil] at read
      rw [recvMessageTimeout, read]
      rfl
  | cons message messages ih =>
    rw [List.map_cons, List.flatten_cons] at begins
    rcases prefix_append_cases begins with ⟨inside, shorter⟩ | ⟨rest, stream, begins'⟩
    · have threw := recvMessageTimeout_short timeoutMs (small message List.mem_cons_self) some inside shorter
      refine ⟨0, segments.map .data, Nat.zero_le _, rfl, threw, ⟨segments.flatten, rfl, inside, shorter⟩, fun whole => ?_⟩
      rw [whole, List.map_cons, List.flatten_cons, List.length_append] at shorter
      omega
    · obtain ⟨left, nonempty, flat, read⟩ :=
        recvMessageTimeout_wire timeoutMs [] (small message List.mem_cons_self) some stream
      rw [List.append_nil, List.append_nil] at read
      obtain ⟨k, last, bound, got, threw, ⟨part, out, next⟩, all⟩ :=
        ih (fun other member => small other (List.mem_cons_of_mem _ member)) nonempty (flat ▸ begins')
      refine ⟨k + 1, last, Nat.succ_le_succ bound, ?_, threw, ⟨part, ?_, next⟩, fun whole => ?_⟩
      · simp only [recvMessages, read, got, List.take_succ_cons, List.map_cons]
      · rw [stream, ← flat, out, List.take_succ_cons, List.map_cons, List.flatten_cons, List.append_assoc]
      · rw [stream, List.map_cons, List.flatten_cons] at whole
        rw [all (flat.trans (List.append_cancel_left whole)), List.length_cons]

section Greeting
variable {infoHash : InfoHash} {myPeerId : PeerId} {line : Line} {later : List Arrival}

/-- A handshake that got out leaves the reading of the reply. -/
theorem doHandshake_greeted (greeted : (line.send (hello infoHash myPeerId).serialize).1 = .ok ()) :
    (doHandshake infoHash myPeerId line).2.sent = line.sent ++ (hello infoHash myPeerId).serialize ∧
      ((doHandshake infoHash myPeerId line).1, (doHandshake infoHash myPeerId line).2.incoming) =
        match recvExactTimeout handshakeLength 10000 [] line.incoming with
        | (.error error, incoming) => (.error (.recv error), incoming)
        | (.ok reply, incoming) => (checkReply infoHash reply, incoming) := by
  have wrote := (send_begins (hello infoHash myPeerId).serialize line.takings).2 greeted
  have sent : (line.send (hello infoHash myPeerId).serialize).2.sent = line.sent ++ (hello infoHash myPeerId).serialize :=
    congrArg (line.sent ++ ·) wrote
  have kept : (line.send (hello infoHash myPeerId).serialize).2.incoming = line.incoming := rfl
  unfold doHandshake
  generalize line.send (hello infoHash myPeerId).serialize = outcome at greeted sent kept ⊢
  obtain ⟨result, middle⟩ := outcome
  cases greeted
  simp only at sent kept ⊢
  rw [kept]
  rcases recvExactTimeout handshakeLength 10000 [] line.incoming with ⟨error | reply, incoming⟩
  · exact ⟨sent, rfl⟩
  · exact ⟨sent, rfl⟩

/-- Whatever the peer is, and however its bytes are cut up: the handshake succeeds if and
only if they begin with a handshake for the same torrent, and it takes no byte more. -/
theorem doHandshake_ok_iff (greeted : (line.send (hello infoHash myPeerId).serialize).1 = .ok ()) {segments : List Bytes}
    (some : ∀ segment ∈ segments, segment ≠ []) (long : handshakeLength ≤ segments.flatten.length)
    (incoming : line.incoming = segments.map .data ++ later) :
    ((doHandshake infoHash myPeerId line).1 = .ok () ↔
        ∃ hs : Handshake, hs.infoHash = infoHash ∧ hs.serialize <+: segments.flatten) ∧
      ∃ left : List Bytes, (∀ segment ∈ left, segment ≠ []) ∧ left.flatten = segments.flatten.drop handshakeLength ∧
        (doHandshake infoHash myPeerId line).2.incoming = left.map .data ++ later := by
  obtain ⟨_, outcome⟩ := doHandshake_greeted greeted
  have sized : (segments.flatten.take handshakeLength).length = handshakeLength := List.length_take_of_le long
  obtain ⟨left, nonempty, flat, read⟩ := recvExactTimeout_segments handshakeLength 10000 [] later some
    (List.take_append_drop handshakeLength segments.flatten).symm (by rw [sized, List.length_nil, Nat.zero_add])
  rw [incoming, read, List.nil_append] at outcome
  obtain ⟨result, rest⟩ := Prod.mk.inj outcome
  rw [result]
  refine ⟨(checkReply_eq_ok_iff infoHash sized).trans ⟨?_, ?_⟩, left, nonempty, flat, rest⟩
  · rintro ⟨hs, same, whole⟩
    exact ⟨hs, same, whole ▸ List.take_prefix ..⟩
  · rintro ⟨hs, same, begins⟩
    exact ⟨hs, same, (List.prefix_iff_eq_take.mp begins).trans (by rw [hs.length_serialize]) |>.symm⟩

/-- A line that takes everything, and a reply in two segments with a byte after it. -/
def quietLine : Line :=
  ⟨[], [], [.data ((hello HttpTracker.zeroHash HttpTracker.zeroPeerId).serialize.take 30),
    .data ((hello HttpTracker.zeroHash HttpTracker.zeroPeerId).serialize.drop 30 ++ [0])]⟩

theorem doHandshake_ok_quiet : (doHandshake HttpTracker.zeroHash HttpTracker.zeroPeerId quietLine).1 = .ok () := by
  have some : ∀ segment ∈ [(hello HttpTracker.zeroHash HttpTracker.zeroPeerId).serialize.take 30,
      (hello HttpTracker.zeroHash HttpTracker.zeroPeerId).serialize.drop 30 ++ [0]], segment ≠ [] := by
    intro segment member
    rcases List.mem_cons.mp member with rfl | last
    · decide
    · rw [List.mem_singleton.mp last]
      decide
  refine (@doHandshake_ok_iff HttpTracker.zeroHash HttpTracker.zeroPeerId quietLine [] rfl _ some (by decide) rfl).1.mpr ?_
  exact ⟨hello HttpTracker.zeroHash HttpTracker.zeroPeerId, rfl, [0], rfl⟩

end Greeting

/-- What one client sends to another, whatever its kernel makes of it and wherever it
breaks off, and however it is cut up on the way: the other one finds out that it ends
within the handshake, or that it is about another torrent, or it receives exactly the
messages that got out whole, one after the other, and all of them if no send failed. -/
theorem conversation_survives (theirs ours : InfoHash) (theirId ourId : PeerId) {messages : List WireMessage}
    (small : ∀ message ∈ messages, ∀ msg, message.toPeerMessage = some msg → msg.payload.length < 2 ^ 24)
    (takings : List Taking) {segments : List Bytes} (nonempty : ∀ segment ∈ segments, segment ≠ [])
    (heard : segments.flatten = (sendAll ((hello theirs theirId).serialize :: messages.map WireMessage.wire) takings).2.1)
    {line : Line} (incoming : line.incoming = segments.map .data)
    (greeted : (line.send (hello ours ourId).serialize).1 = .ok ()) :
    (segments.flatten.length < handshakeLength ∧
        (doHandshake ours ourId line).1 = .error (.recv (.eof segments.flatten.length handshakeLength))) ∨
      (handshakeLength ≤ segments.flatten.length ∧ theirs ≠ ours ∧ (doHandshake ours ourId line).1 = .error .infoHashMismatch) ∨
      (handshakeLength ≤ segments.flatten.length ∧ theirs = ours ∧ (doHandshake ours ourId line).1 = .ok () ∧
        ∀ timeoutMs, ∃ k rest, k ≤ messages.length ∧
          recvMessages timeoutMs k (doHandshake ours ourId line).2.incoming =
            (.ok ((messages.take k).map WireMessage.toPeerMessage), rest) ∧
          (∃ context total n, recvMessageTimeout timeoutMs rest = (.error (.recv context (.eof total n)), [])) ∧
          GotOut (segments.flatten.drop handshakeLength) messages k ∧
          ((sendAll ((hello theirs theirId).serialize :: messages.map WireMessage.wire) takings).1 = .ok () →
            k = messages.length)) := by
  obtain ⟨begins, whole⟩ := sendAll_begins ((hello theirs theirId).serialize :: messages.map WireMessage.wire) takings
  rw [← heard, List.flatten_cons] at begins whole
  obtain ⟨_, outcome⟩ := doHandshake_greeted greeted
  have size := (hello theirs theirId).length_serialize
  rcases prefix_append_cases begins with ⟨_, shorter⟩ | ⟨rest, stream, begins'⟩
  · rw [size] at shorter
    have read := @recvExactTimeout_short handshakeLength 10000 segments [] nonempty (by rw [List.length_nil, Nat.zero_add]; exact shorter)
    rw [incoming, read] at outcome
    have result := (Prod.mk.inj outcome).1
    rw [List.length_nil, Nat.zero_add] at result
    exact Or.inl ⟨shorter, result⟩
  · have long : handshakeLength ≤ segments.flatten.length := by
      rw [stream, List.length_append, size]
      exact Nat.le_add_right _ _
    obtain ⟨left, nonempty', flat, read⟩ := recvExactTimeout_segments handshakeLength 10000 [] [] nonempty stream
      (by rw [size, List.length_nil, Nat.zero_add])
    rw [List.append_nil, List.append_nil, List.nil_append] at read
    rw [incoming, read] at outcome
    obtain ⟨result, remains⟩ := Prod.mk.inj outcome
    by_cases same : theirs = ours
    · have accepted : checkReply ours (hello theirs theirId).serialize = .ok () :=
        (checkReply_eq_ok_iff ours size).mpr ⟨_, same, rfl⟩
      refine Or.inr (Or.inr ⟨long, same, result.trans accepted, fun timeoutMs => ?_⟩)
      obtain ⟨k, last, bound, got, threw, out, all⟩ := recvMessages_begun timeoutMs small nonempty' (flat ▸ begins')
      have behind : segments.flatten.drop handshakeLength = left.flatten := by
        rw [stream, flat, ← size, List.drop_left]
      rw [remains, behind]
      refine ⟨k, last, bound, got, threw, out, fun done => all ?_⟩
      rw [flat]
      exact List.append_cancel_left (stream.symm.trans (whole done))
    · exact Or.inr (Or.inl ⟨long, same, result.trans (checkReply_mismatch same)⟩)

/-- The peer's kernel takes its handshake in two parts and one message, and fails at the next one. -/
def brokenTakings : List Taking := [.took 30, .took 38, .took 9, .failed 104]

def brokenSegments : List Bytes :=
  [(hello HttpTracker.zeroHash HttpTracker.zeroPeerId).serialize ++ [0, 0], [0, 5, 4, 0, 0, 0, 7]]

def brokenLine : Line := ⟨[], [], brokenSegments.map .data⟩

/-- The message that got out whole is received, and no other. -/
theorem conversation_survives_broken :
    ∃ rest, recvMessages 120000 1 (doHandshake HttpTracker.zeroHash HttpTracker.zeroPeerId brokenLine).2.incoming =
      (.ok [(WireMessage.have 7).toPeerMessage], rest) := by
  have small : ∀ message ∈ [WireMessage.have 7, .keepAlive], ∀ msg, message.toPeerMessage = some msg →
      msg.payload.length < 2 ^ 24 := by
    intro message member msg sent
    rcases List.mem_cons.mp member with rfl | last
    · cases sent
      decide
    · cases List.mem_singleton.mp last
      cases sent
  have some : ∀ segment ∈ brokenSegments, segment ≠ [] := by
    intro segment member
    rcases List.mem_cons.mp member with rfl | last
    · decide
    · rw [List.mem_singleton.mp last]
      decide
  rcases conversation_survives HttpTracker.zeroHash HttpTracker.zeroHash HttpTracker.zeroPeerId HttpTracker.zeroPeerId small
    brokenTakings some (by decide) (show brokenLine.incoming = _ from rfl) rfl with ⟨short, _⟩ | ⟨_, different, _⟩ | ⟨_, _, _, received⟩
  · exact absurd short (by decide)
  · exact absurd rfl different
  · obtain ⟨k, rest, bound, got, _, ⟨part, out, next⟩, _⟩ := received 120000
    have nine := congrArg List.length out
    rw [show (brokenSegments.flatten.drop handshakeLength).length = 9 from rfl, List.length_append] at nine
    match k, bound with
    | 0, _ => exact absurd next.2 (Nat.not_lt.mpr (nine.trans (Nat.zero_add _)).le)
    | 1, _ => exact ⟨rest, got⟩
    | 2, _ => exact absurd (nine.trans (Nat.add_comm _ _)) (by rw [show part = [] from next]; decide)

end PeerConnection

end BittorrentClient
