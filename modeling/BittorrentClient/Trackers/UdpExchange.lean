import BittorrentClient.Trackers.UdpTracker

namespace BittorrentClient.UdpTracker
open Cpp

/-- A datagram that is too short for its kind: for an error, or else for a response of the
given length. -/
def tooShort (least : Nat) (data : Bytes) : Bool :=
  data.length < 4 || if readBe32 data 0 = 3 then data.length < 8 else data.length < least

/-- A datagram that is too short or belongs to another transaction. -/
def unasked (least : Nat) (transactionId : UInt32) : Event → Bool
  | .timeout => false
  | .datagram data => tooShort least data || readBe32 data 4 ≠ transactionId.toNat

/-- The same body of a loop, but for datagrams that nobody asked for. -/
def heedless {α : Type} (ignored : Event → Bool) (judge : Event → Verdict α) (event : Event) : Verdict α :=
  if ignored event then .retry else judge event

/-- The exchange as it is if what was not asked for counts as a timeout. -/
def ignoringExchange (ntop : Bytes → Bytes) (isIpv6 : Bool) (a : Announce) (drawn : Drawn) (events : Nat → Event) :
    List Bytes × Result :=
  exchangeWith a drawn (heedless (unasked 16 drawn.connect) (judgeConnect drawn.connect))
    (heedless (unasked 20 drawn.announce) (judgeAnnounce ntop isIpv6 drawn.announce)) events

/-- An error that is too short or belongs to another transaction. -/
def strayError (transactionId : UInt32) : Event → Bool
  | .timeout => false
  | .datagram data =>
    decide (4 ≤ data.length) && decide (readBe32 data 0 = 3) &&
      (decide (data.length < 8) || decide (readBe32 data 4 ≠ transactionId.toNat))

/-- A timeout, or a datagram other than an error that nobody asked for. -/
def quiet (least : Nat) (transactionId : UInt32) : Event → Bool
  | .timeout => true
  | .datagram data =>
    decide (data.length < 4) || decide (readBe32 data 0 ≠ 3) &&
      (decide (data.length < least) || decide (readBe32 data 4 ≠ transactionId.toNat))

/-- The response to a request. -/
def answers (least action : Nat) (transactionId : UInt32) : Event → Bool
  | .timeout => false
  | .datagram data =>
    decide (least ≤ data.length) && decide (readBe32 data 0 = action) && decide (readBe32 data 4 = transactionId.toNat)

/-- What both bodies do, when no read goes wrong: `least` and `action` are those of the
response, and `value` is what it carries. -/
def judged {α : Type} (least action : Nat) (value : Bytes → α) (transactionId : UInt32) : Event → Verdict α
  | .timeout => .retry
  | .datagram data =>
    if data.length < 4 then .retry
    else if readBe32 data 0 = 3 then errorVerdict data
    else if data.length < least then .retry
    else if readBe32 data 4 ≠ transactionId.toNat then .retry
    else if readBe32 data 0 ≠ action then .throws (.unexpectedAction (readBe32 data 0))
    else .accepts (value data)

/-- The same without what nobody asked for. -/
def deaf {α : Type} (least action : Nat) (value : Bytes → α) (transactionId : UInt32) : Event → Verdict α :=
  heedless (unasked least transactionId) (judged least action value transactionId)

/-- The peers that an announce response lists. -/
def listed (ntop : Bytes → Bytes) (isIpv6 : Bool) (data : Bytes) : List PeerAddress := (readPeers ntop isIpv6 data).getD []

theorem readPeers_listed (ntop : Bytes → Bytes) (isIpv6 : Bool) (data : Bytes) :
    readPeers ntop isIpv6 data = some (listed ntop isIpv6 data) := by
  obtain ⟨peers, read⟩ := readPeers_inside ntop isIpv6 data
  rw [listed, read, Option.getD_some]

theorem judgeConnect_eq (transactionId : UInt32) : judgeConnect transactionId = judged 16 0 (readBe64 · 8) transactionId := by
  funext event
  cases event with
  | timeout => rfl
  | datagram data =>
    rw [judgeConnect, judged]
    by_cases short : data.length < 16
    · rw [if_pos short, if_pos short]
    · rw [ConnectionResp.deserialize_long (Nat.not_lt.mp short)]

theorem judgeAnnounce_eq (ntop : Bytes → Bytes) (isIpv6 : Bool) (transactionId : UInt32) :
    judgeAnnounce ntop isIpv6 transactionId = judged 20 1 (listed ntop isIpv6) transactionId := by
  funext event
  cases event with
  | timeout => rfl
  | datagram data =>
    rw [judgeAnnounce, judged]
    by_cases short : data.length < 20
    · rw [if_pos short, if_pos short]
    · rw [AnnounceResp.deserialize_long (Nat.not_lt.mp short) (readPeers_listed ntop isIpv6 data)]

section Judged
variable {α : Type} {least action : Nat} {value : Bytes → α} {transactionId : UInt32} {event : Event}

/-- What is quiet leads to another attempt. -/
theorem judged_quiet (silent : quiet least transactionId event = true) : judged least action value transactionId event = .retry := by
  cases event with
  | timeout => rfl
  | datagram data =>
    simp only [quiet, Bool.or_eq_true, Bool.and_eq_true, decide_eq_true_eq] at silent
    rw [judged]
    rcases silent with short | ⟨response, short | foreign⟩
    · rw [if_pos short]
    · rw [if_neg response, if_pos short, ite_self]
    · rw [if_neg response, if_pos foreign, ite_self, ite_self]

/-- A stray error ends the exchange. -/
theorem judged_stray (stray : strayError transactionId event = true) :
    judged least action value transactionId event = .outside ∨
      ∃ message, judged least action value transactionId event = .throws (.trackerError message) := by
  cases event with
  | timeout => cases stray
  | datagram data =>
    simp only [strayError, Bool.and_eq_true, decide_eq_true_eq] at stray
    obtain ⟨⟨long, error⟩, _⟩ := stray
    rw [judged, if_neg (Nat.not_lt.mpr long), if_pos error, errorVerdict]
    split
    case isTrue => exact Or.inl rfl
    case isFalse => exact Or.inr ⟨_, rfl⟩

/-- Everything else is an answer to the request, and is read within its bounds. -/
theorem judged_heeded (loud : quiet least transactionId event = false) (own : strayError transactionId event = false) :
    unasked least transactionId event = false ∧ judged least action value transactionId event ≠ .retry ∧
      judged least action value transactionId event ≠ .outside := by
  cases event with
  | timeout => cases loud
  | datagram data =>
    simp only [quiet, Bool.or_eq_false_iff, Bool.and_eq_false_iff, decide_eq_false_iff_not] at loud
    obtain ⟨long, kind⟩ := loud
    simp only [strayError, Bool.and_eq_false_iff, Bool.or_eq_false_iff, decide_eq_false_iff_not] at own
    by_cases error : readBe32 data 0 = 3
    · obtain ⟨whole, same⟩ : ¬ data.length < 8 ∧ ¬ readBe32 data 4 ≠ transactionId.toNat := by
        rcases own with (short | other) | both
        · exact absurd (Nat.not_lt.mp long) short
        · exact absurd error other
        · exact both
      refine ⟨?_, ?_, ?_⟩
      · simp only [unasked, tooShort, error, if_true, long, whole, same, decide_false, Bool.or_self]
      · rw [judged, if_neg long, if_pos error, errorVerdict, if_neg whole]
        exact fun same => (nomatch same)
      · rw [judged, if_neg long, if_pos error, errorVerdict, if_neg whole]
        exact fun same => (nomatch same)
    · obtain ⟨whole, same⟩ := kind.resolve_left (not_not_intro error)
      refine ⟨?_, ?_⟩
      · simp only [unasked, tooShort, error, if_false, long, whole, same, decide_false, Bool.or_self]
      · rw [judged, if_neg long, if_neg error, if_neg whole, if_neg same]
        split
        case isTrue => exact ⟨fun same => (nomatch same), fun same => (nomatch same)⟩
        case isFalse => exact ⟨fun same => (nomatch same), fun same => (nomatch same)⟩

theorem deaf_quiet (silent : quiet least transactionId event = true) :
    deaf least action value transactionId event = .retry := by
  rw [deaf, heedless, judged_quiet silent, ite_self]

theorem deaf_stray (stray : strayError transactionId event = true) :
    deaf least action value transactionId event = .retry := by
  refine if_pos ?_
  cases event with
  | timeout => cases stray
  | datagram data =>
    simp only [strayError, Bool.and_eq_true, Bool.or_eq_true, decide_eq_true_eq] at stray
    obtain ⟨⟨_, error⟩, short | foreign⟩ := stray
    · simp only [unasked, tooShort, error, if_true, short, decide_true, Bool.or_true, Bool.true_or]
    · simp only [unasked, foreign, ne_eq, not_false_eq_true, decide_true, Bool.or_true]

/-- What is accepted is the response to the request. -/
theorem judged_accepts {result : α} (accepted : judged least action value transactionId event = .accepts result) :
    ∃ data, event = .datagram data ∧ answers least action transactionId event = true ∧ result = value data := by
  cases event with
  | timeout => cases accepted
  | datagram data =>
    rw [judged] at accepted
    split at accepted
    case isTrue => cases accepted
    case isFalse =>
      split at accepted
      case isTrue =>
        rw [errorVerdict] at accepted
        split at accepted
        case isTrue => cases accepted
        case isFalse => cases accepted
      case isFalse =>
        split at accepted
        case isTrue => cases accepted
        case isFalse long =>
          split at accepted
          case isTrue => cases accepted
          case isFalse same =>
            split at accepted
            case isTrue => cases accepted
            case isFalse kind =>
              cases accepted
              refine ⟨data, rfl, ?_, rfl⟩
              rw [answers, decide_eq_true (Nat.not_lt.mp long), decide_eq_true (Decidable.of_not_not kind),
                decide_eq_true (Decidable.of_not_not same)]
              rfl

/-- The response to a request is accepted. -/
theorem judged_answers {data : Bytes} (known : action ≠ 3) (wide : 4 ≤ least)
    (answered : answers least action transactionId (.datagram data) = true) :
    judged least action value transactionId (.datagram data) = .accepts (value data) ∧
      quiet least transactionId (.datagram data) = false ∧ strayError transactionId (.datagram data) = false := by
  simp only [answers, Bool.and_eq_true, decide_eq_true_eq] at answered
  obtain ⟨⟨long, kind⟩, same⟩ := answered
  have enough : ¬ data.length < 4 := by omega
  have whole : ¬ data.length < least := Nat.not_lt.mpr long
  have response : readBe32 data 0 ≠ 3 := by rw [kind]; exact known
  refine ⟨?_, ?_, ?_⟩
  · rw [judged, if_neg enough, if_neg response, if_neg whole, if_neg (not_not_intro same), if_neg (not_not_intro kind)]
  · simp only [quiet, enough, whole, same, ne_eq, not_true_eq_false, decide_false, Bool.or_self, Bool.and_false]
  · simp only [strayError, response, decide_false, Bool.and_false, Bool.false_and]

end Judged

section Attempts
variable {α : Type} {judge : Event → Verdict α} {events : Nat → Event} {left used : Nat}

/-- Attempts that receive nothing of interest only use up events. -/
theorem attempts_skip {count : Nat} (enough : count ≤ left) (skipped : ∀ j, j < count → judge (events (used + j)) = .retry) :
    attempts judge events left used = attempts judge events (left - count) (used + count) := by
  induction count generalizing left used with
  | zero => rfl
  | succ count ih =>
    cases left with
    | zero => omega
    | succ left =>
      have first : judge (events used) = .retry := skipped 0 (Nat.succ_pos count)
      have later : ∀ j, j < count → judge (events (used + 1 + j)) = .retry := by
        intro j below
        have next := skipped (j + 1) (Nat.succ_lt_succ below)
        rwa [show used + (j + 1) = used + 1 + j by omega] at next
      have rest := ih (Nat.le_of_succ_le_succ enough) later
      rw [attempts, first]
      change attempts judge events left (used + 1) = _
      rw [rest, Nat.succ_sub_succ, show used + 1 + count = used + (count + 1) by omega]

/-- The first event that does not lead to another attempt ends the loop. -/
theorem attempts_ends {k : Nat} (below : k < left) (skipped : ∀ j, j < k → judge (events (used + j)) = .retry)
    (ends : judge (events (used + k)) ≠ .retry) :
    attempts judge events left used = (used + k + 1, judge (events (used + k))) := by
  obtain ⟨more, remaining⟩ : ∃ more, left - k = more + 1 := ⟨left - k - 1, by omega⟩
  rw [attempts_skip (Nat.le_of_lt below) skipped, remaining, attempts]
  split
  case h_1 again => exact absurd again ends
  case h_2 => rfl

theorem attempts_exhausted (skipped : ∀ j, j < left → judge (events (used + j)) = .retry) :
    attempts judge events left used = (used + left, .retry) := by
  rw [attempts_skip (Nat.le_refl left) skipped, Nat.sub_self]
  rfl

/-- A loop that uses no event has no attempt left. -/
theorem attempts_used (left used : Nat) : used ≤ (attempts judge events left used).1 ∧
    ((attempts judge events left used).1 = used → (attempts judge events left used).2 = .retry) := by
  induction left generalizing used with
  | zero => exact ⟨Nat.le_refl used, fun _ => rfl⟩
  | succ left ih =>
    rw [attempts]
    split
    case h_1 =>
      have := ih (used + 1)
      exact ⟨by omega, fun same => by omega⟩
    case h_2 => exact ⟨Nat.le_succ used, fun same => absurd same (Nat.succ_ne_self used)⟩

/-- The first event that a property does not hold of, among those of a loop. -/
theorem first_among (property : Event → Bool) (events : Nat → Event) (left used : Nat) :
    (∀ j, j < left → property (events (used + j)) = true) ∨
      ∃ k, k < left ∧ (∀ j, j < k → property (events (used + j)) = true) ∧ property (events (used + k)) = false := by
  induction left with
  | zero => exact Or.inl fun j below => absurd below (Nat.not_lt_zero j)
  | succ left ih =>
    rcases ih with all | ⟨k, below, before, here⟩
    · cases last : property (events (used + left)) with
      | false => exact Or.inr ⟨left, Nat.lt_succ_self left, all, last⟩
      | true =>
        refine Or.inl fun j below => ?_
        rcases Nat.lt_or_eq_of_le (Nat.le_of_lt_succ below) with earlier | same
        · exact all j earlier
        · rw [same, last]
    · exact Or.inr ⟨k, Nat.lt_succ_of_lt below, before, here⟩

end Attempts

/-- A stray error comes while a loop still waits. -/
def StrayAfter (least : Nat) (transactionId : UInt32) (events : Nat → Event) (left used : Nat) : Prop :=
  ∃ k, k < left ∧ (∀ j, j < k → quiet least transactionId (events (used + j)) = true) ∧
    strayError transactionId (events (used + k)) = true

section Phases
variable {α : Type} {least action : Nat} {value : Bytes → α} {transactionId : UInt32} {events : Nat → Event} {left used : Nat}

theorem attempts_answered {k : Nat} {data : Bytes} (known : action ≠ 3) (wide : 4 ≤ least) (below : k < left)
    (before : ∀ j, j < k → quiet least transactionId (events (used + j)) = true)
    (here : events (used + k) = .datagram data) (answered : answers least action transactionId (.datagram data) = true) :
    attempts (judged least action value transactionId) events left used = (used + k + 1, .accepts (value data)) ∧
      attempts (deaf least action value transactionId) events left used = (used + k + 1, .accepts (value data)) := by
  obtain ⟨accepted, loud, own⟩ := @judged_answers α least action value transactionId data known wide answered
  obtain ⟨asked, _, _⟩ := @judged_heeded α least action value transactionId _ loud own
  have same : deaf least action value transactionId (.datagram data) = .accepts (value data) := by
    rw [deaf, heedless, asked, accepted]
    rfl
  constructor
  · rw [attempts_ends below (fun j earlier => judged_quiet (before j earlier)), here, accepted]
    rw [here, accepted]
    exact fun same => (nomatch same)
  · rw [attempts_ends below (fun j earlier => deaf_quiet (before j earlier)), here, same]
    rw [here, same]
    exact fun same => (nomatch same)

/-- Without a stray error a loop does what it does when nothing unasked arrives, within the
bounds of every datagram, and it accepts nothing but a response. -/
theorem attempts_tame (tame : ¬ StrayAfter least transactionId events left used) :
    attempts (deaf least action value transactionId) events left used =
        attempts (judged least action value transactionId) events left used ∧
      (attempts (judged least action value transactionId) events left used).2 ≠ .outside ∧
      ∀ total result, attempts (judged least action value transactionId) events left used = (total, .accepts result) →
        ∃ k data, k < left ∧ (∀ j, j < k → quiet least transactionId (events (used + j)) = true) ∧ total = used + k + 1 ∧
          events (used + k) = .datagram data ∧ answers least action transactionId (.datagram data) = true ∧
          result = value data := by
  rcases first_among (quiet least transactionId) events left used with all | ⟨k, below, before, loud⟩
  · have plain := @attempts_exhausted α (judged least action value transactionId) events left used
      fun j inside => judged_quiet (all j inside)
    have ignoring := @attempts_exhausted α (deaf least action value transactionId) events left used
      fun j inside => deaf_quiet (all j inside)
    rw [plain, ignoring]
    refine ⟨rfl, fun same => (nomatch same), fun total result accepted => ?_⟩
    cases accepted
  · have own : strayError transactionId (events (used + k)) = false := by
      cases stray : strayError transactionId (events (used + k)) with
      | false => rfl
      | true => exact absurd ⟨k, below, before, stray⟩ tame
    obtain ⟨asked, ends, inside⟩ := @judged_heeded α least action value transactionId _ loud own
    have same : deaf least action value transactionId (events (used + k)) =
        judged least action value transactionId (events (used + k)) := by
      rw [deaf, heedless, asked]
      rfl
    have plain := attempts_ends below (fun j earlier => judged_quiet (before j earlier)) ends
    have ignoring := @attempts_ends α (deaf least action value transactionId) events left used k below
      (fun j earlier => deaf_quiet (before j earlier)) (by rw [same]; exact ends)
    rw [plain, ignoring, same]
    refine ⟨rfl, inside, fun total result accepted => ?_⟩
    obtain ⟨length, verdict⟩ := Prod.mk.inj accepted
    obtain ⟨data, here, answered, read⟩ := judged_accepts verdict
    exact ⟨k, data, below, before, length.symm, here, here ▸ answered, read⟩

/-- A stray error ends a loop that would have gone on. -/
theorem attempts_stray (stray : StrayAfter least transactionId events left used) :
    ∃ total verdict, attempts (judged least action value transactionId) events left used = (total, verdict) ∧
      (verdict = .outside ∨ ∃ message, verdict = .throws (.trackerError message)) ∧
      total ≤ (attempts (deaf least action value transactionId) events left used).1 ∧
      ((attempts (deaf least action value transactionId) events left used).1 = total →
        (attempts (deaf least action value transactionId) events left used).2 = .retry) := by
  obtain ⟨k, below, before, here⟩ := stray
  have ending := @judged_stray α least action value transactionId _ here
  have ends : judged least action value transactionId (events (used + k)) ≠ .retry := by
    rcases ending with outside | ⟨message, throws⟩
    · rw [outside]
      exact fun same => (nomatch same)
    · rw [throws]
      exact fun same => (nomatch same)
  have ignored : ∀ j, j < k + 1 → deaf least action value transactionId (events (used + j)) = .retry := by
    intro j inside
    rcases Nat.lt_or_eq_of_le (Nat.le_of_lt_succ inside) with earlier | same
    · exact deaf_quiet (before j earlier)
    · rw [same]
      exact deaf_stray here
  refine ⟨_, _, attempts_ends below (fun j earlier => judged_quiet (before j earlier)) ends, ending, ?_⟩
  rw [attempts_skip below ignored]
  exact attempts_used _ _

end Phases

/-- What an exchange ends with, after the last attempt to announce. -/
def conclusion : Verdict (List PeerAddress) → Result
  | .retry => .throws .announceTimedOut
  | .throws error => .throws error
  | .outside => .outside
  | .accepts peers => .peers peers

theorem conclusion_outside {verdict : Verdict (List PeerAddress)} (ended : conclusion verdict = .outside) : verdict = .outside := by
  cases verdict with
  | outside => rfl
  | retry => cases ended
  | throws error => cases ended
  | accepts peers => cases ended

theorem conclusion_peers {verdict : Verdict (List PeerAddress)} {peers : List PeerAddress}
    (ended : conclusion verdict = .peers peers) : verdict = .accepts peers := by
  cases verdict with
  | outside => cases ended
  | retry => cases ended
  | throws error => cases ended
  | accepts found => cases ended; rfl

section Exchange
variable {a : Announce} {drawn : Drawn} {connect : Event → Verdict Nat} {announce : Event → Verdict (List PeerAddress)}
  {events : Nat → Event}

theorem exchangeWith_accepts {used connectionId : Nat}
    (accepted : attempts connect events (maxRetransmissions + 1) 0 = (used, .accepts connectionId)) :
    exchangeWith a drawn connect announce events =
      (List.replicate used (connectionReq drawn.connect) ++
          List.replicate ((attempts announce events (maxRetransmissions + 1) used).1 - used)
            (announceReq a connectionId drawn.announce drawn.key),
        conclusion (attempts announce events (maxRetransmissions + 1) used).2) := by
  rw [exchangeWith, accepted]
  simp only
  generalize attempts announce events (maxRetransmissions + 1) used = second
  obtain ⟨total, verdict⟩ := second
  cases verdict with
  | retry => rfl
  | throws error => rfl
  | outside => rfl
  | accepts peers => rfl

/-- Every attempt to connect sends a message. -/
theorem exchangeWith_sent : (attempts connect events (maxRetransmissions + 1) 0).1 ≤
    (exchangeWith a drawn connect announce events).1.length := by
  cases first : attempts connect events (maxRetransmissions + 1) 0 with
  | mk used verdict =>
    cases verdict with
    | retry => rw [exchangeWith, first, List.length_replicate]
    | throws error => rw [exchangeWith, first, List.length_replicate]
    | outside => rw [exchangeWith, first, List.length_replicate]
    | accepts connectionId =>
      rw [exchangeWith_accepts first, List.length_append, List.length_replicate]
      exact Nat.le_add_right _ _

end Exchange

/-- A stray error comes while the exchange still waits for a response. -/
def Strays (drawn : Drawn) (events : Nat → Event) : Prop :=
  StrayAfter 16 drawn.connect events (maxRetransmissions + 1) 0 ∨
    ∃ k, k < maxRetransmissions + 1 ∧ (∀ j, j < k → quiet 16 drawn.connect (events j) = true) ∧
      answers 16 0 drawn.connect (events k) = true ∧ StrayAfter 20 drawn.announce events (maxRetransmissions + 1) (k + 1)

/-- Datagrams that nobody asked for change neither what is sent nor how the exchange ends, no
read leaves its datagram, and peers come only from the response to an announcement with the
connection that the response to the connection request gave. -/
structure IgnoresUnasked (ntop : Bytes → Bytes) (isIpv6 : Bool) (a : Announce) (drawn : Drawn) (events : Nat → Event) : Prop where
  ignored : tryAnnounceTo ntop isIpv6 a drawn events = ignoringExchange ntop isIpv6 a drawn events
  inside : (tryAnnounceTo ntop isIpv6 a drawn events).2 ≠ .outside
  answered : ∀ sent peers, tryAnnounceTo ntop isIpv6 a drawn events = (sent, .peers peers) →
    ∃ k m connected announced, k < m ∧ events k = .datagram connected ∧
      answers 16 0 drawn.connect (.datagram connected) = true ∧ events m = .datagram announced ∧
      answers 20 1 drawn.announce (.datagram announced) = true ∧ readPeers ntop isIpv6 announced = some peers ∧
      sent = List.replicate (k + 1) (connectionReq drawn.connect) ++
        List.replicate (m - k) (announceReq a (readBe64 connected 8) drawn.announce drawn.key)

section Unasked
variable {ntop : Bytes → Bytes} {isIpv6 : Bool} {a : Announce} {drawn : Drawn} {events : Nat → Event}

theorem tryAnnounceTo_eq : tryAnnounceTo ntop isIpv6 a drawn events =
    exchangeWith a drawn (judged 16 0 (readBe64 · 8) drawn.connect) (judged 20 1 (listed ntop isIpv6) drawn.announce) events := by
  rw [tryAnnounceTo, judgeConnect_eq, judgeAnnounce_eq]

theorem ignoringExchange_eq : ignoringExchange ntop isIpv6 a drawn events =
    exchangeWith a drawn (deaf 16 0 (readBe64 · 8) drawn.connect) (deaf 20 1 (listed ntop isIpv6) drawn.announce) events := by
  rw [ignoringExchange, judgeConnect_eq, judgeAnnounce_eq]
  rfl

/-- A stray error instead of the response to the connection request. -/
theorem stray_connect (stray : StrayAfter 16 drawn.connect events (maxRetransmissions + 1) 0) :
    tryAnnounceTo ntop isIpv6 a drawn events ≠ ignoringExchange ntop isIpv6 a drawn events := by
  intro same
  rw [tryAnnounceTo_eq, ignoringExchange_eq] at same
  obtain ⟨total, verdict, plain, ending, least, last⟩ := @attempts_stray _ 16 0 (readBe64 · 8) drawn.connect events _ _ stray
  have sent := @exchangeWith_sent a drawn (deaf 16 0 (readBe64 · 8) drawn.connect)
    (deaf 20 1 (listed ntop isIpv6) drawn.announce) events
  have length : (exchangeWith a drawn (judged 16 0 (readBe64 · 8) drawn.connect)
      (judged 20 1 (listed ntop isIpv6) drawn.announce) events).1.length = total := by
    rw [exchangeWith, plain]
    rcases ending with rfl | ⟨message, rfl⟩
    · exact List.length_replicate
    · exact List.length_replicate
  rw [← same, length] at sent
  have timedOut := last (Nat.le_antisymm sent least)
  have result := congrArg Prod.snd same
  rw [exchangeWith, exchangeWith, plain] at result
  generalize attempts (deaf 16 0 (readBe64 · 8) drawn.connect) events
    (maxRetransmissions + 1) 0 = first at result timedOut
  obtain ⟨used, ended⟩ := first
  cases timedOut
  rcases ending with rfl | ⟨message, rfl⟩
  · cases result
  · cases result

/-- A stray error instead of the response to the announcement. -/
theorem stray_announce {k : Nat} (below : k < maxRetransmissions + 1)
    (before : ∀ j, j < k → quiet 16 drawn.connect (events j) = true) (answered : answers 16 0 drawn.connect (events k) = true)
    (stray : StrayAfter 20 drawn.announce events (maxRetransmissions + 1) (k + 1)) :
    tryAnnounceTo ntop isIpv6 a drawn events ≠ ignoringExchange ntop isIpv6 a drawn events := by
  intro same
  rw [tryAnnounceTo_eq, ignoringExchange_eq] at same
  cases here : events k with
  | timeout =>
    rw [here] at answered
    cases answered
  | datagram data =>
    rw [here] at answered
    have quietly : ∀ j, j < k → quiet 16 drawn.connect (events (0 + j)) = true := by
      intro j earlier
      rw [Nat.zero_add]
      exact before j earlier
    obtain ⟨plain, ignoring⟩ := @attempts_answered _ 16 0 (readBe64 · 8) drawn.connect events _ 0 k data (by decide) (by decide)
      below quietly (by rw [Nat.zero_add, here]) answered
    rw [exchangeWith_accepts plain, exchangeWith_accepts ignoring, Nat.zero_add] at same
    obtain ⟨total, verdict, ended, ending, least, last⟩ :=
      @attempts_stray _ 20 1 (listed ntop isIpv6) drawn.announce events _ _ stray
    have more := (@attempts_used _ (judged 20 1 (listed ntop isIpv6) drawn.announce) events
      (maxRetransmissions + 1) (k + 1)).1
    rw [ended] at same more
    generalize attempts (deaf 20 1 (listed ntop isIpv6) drawn.announce) events (maxRetransmissions + 1) (k + 1) =
        second at same least last
    obtain ⟨sent, result⟩ := Prod.mk.inj same
    have length := congrArg List.length sent
    simp only [List.length_append, List.length_replicate] at length
    have timedOut := last (by omega)
    rw [timedOut] at result
    rcases ending with rfl | ⟨message, rfl⟩
    · cases result
    · cases result

theorem ignoresUnasked_of_throws {sent : List Bytes} {error : UdpError}
    (plain : tryAnnounceTo ntop isIpv6 a drawn events = (sent, .throws error))
    (ignoring : ignoringExchange ntop isIpv6 a drawn events = (sent, .throws error)) : IgnoresUnasked ntop isIpv6 a drawn events := by
  refine ⟨plain.trans ignoring.symm, ?_, ?_⟩
  · rw [plain]
    exact fun same => (nomatch same)
  · intro messages peers same
    rw [plain] at same
    cases same

/-- After a connection without disturbance, the announcement is all that matters. -/
theorem ignoresUnasked_of_connected {k : Nat} {connected : Bytes}
    (first : attempts (judged 16 0 (readBe64 · 8) drawn.connect) events (maxRetransmissions + 1) 0 =
      (k + 1, .accepts (readBe64 connected 8)))
    (ignoring : attempts (deaf 16 0 (readBe64 · 8) drawn.connect) events (maxRetransmissions + 1) 0 =
      (k + 1, .accepts (readBe64 connected 8)))
    (here : events k = .datagram connected) (answered : answers 16 0 drawn.connect (.datagram connected) = true)
    (calm : ¬ StrayAfter 20 drawn.announce events (maxRetransmissions + 1) (k + 1)) :
    IgnoresUnasked ntop isIpv6 a drawn events := by
  obtain ⟨same, inside, comes⟩ := @attempts_tame _ 20 1 (listed ntop isIpv6) drawn.announce events _ _ calm
  have plain := @exchangeWith_accepts a drawn _ (judged 20 1 (listed ntop isIpv6) drawn.announce) events _ _ first
  cases second : attempts (judged 20 1 (listed ntop isIpv6) drawn.announce) events (maxRetransmissions + 1) (k + 1) with
  | mk total ended =>
    rw [second] at same inside comes plain
    refine ⟨?_, ?_, ?_⟩
    · rw [tryAnnounceTo_eq, ignoringExchange_eq, plain, exchangeWith_accepts ignoring, same]
    · rw [tryAnnounceTo_eq, plain]
      exact fun outside => inside (conclusion_outside outside)
    · intro sent peers ends
      rw [tryAnnounceTo_eq, plain] at ends
      obtain ⟨messages, result⟩ := Prod.mk.inj ends
      have accepted : ended = .accepts peers := conclusion_peers result
      obtain ⟨m, announced, _, _, reached, there, response, read⟩ := comes total peers (by rw [accepted])
      refine ⟨k, k + 1 + m, connected, announced, by omega, here, answered, there, response, ?_, ?_⟩
      · rw [readPeers_listed, read]
      · rw [← messages, show total - (k + 1) = k + 1 + m - k by omega]

/-- Without a stray error nothing else disturbs the exchange. -/
theorem ignoresUnasked_of_tame (tame : ¬ Strays drawn events) : IgnoresUnasked ntop isIpv6 a drawn events := by
  obtain ⟨sameConnect, insideConnect, accepts⟩ :=
    @attempts_tame _ 16 0 (readBe64 · 8) drawn.connect events (maxRetransmissions + 1) 0 fun stray => tame (Or.inl stray)
  cases first : attempts (judged 16 0 (readBe64 · 8) drawn.connect) events (maxRetransmissions + 1) 0 with
  | mk used verdict =>
    rw [first] at sameConnect insideConnect accepts
    cases verdict with
    | outside => exact absurd rfl insideConnect
    | retry =>
      refine @ignoresUnasked_of_throws _ _ _ _ _ (List.replicate used (connectionReq drawn.connect)) .connectTimedOut ?_ ?_
      · rw [tryAnnounceTo_eq, exchangeWith, first]
      · rw [ignoringExchange_eq, exchangeWith, sameConnect]
    | throws error =>
      refine @ignoresUnasked_of_throws _ _ _ _ _ (List.replicate used (connectionReq drawn.connect)) error ?_ ?_
      · rw [tryAnnounceTo_eq, exchangeWith, first]
      · rw [ignoringExchange_eq, exchangeWith, sameConnect]
    | accepts connectionId =>
      obtain ⟨k, connected, below, before, count, here, answered, identifier⟩ := accepts used connectionId rfl
      rw [Nat.zero_add] at count here
      rw [count, identifier] at first sameConnect
      refine ignoresUnasked_of_connected first sameConnect here answered fun stray => ?_
      refine tame (Or.inr ⟨k, below, fun j earlier => ?_, by rw [here]; exact answered, stray⟩)
      have silent := before j earlier
      rwa [Nat.zero_add] at silent

end Unasked

/-- An exchange ignores what it did not ask for unless this is an error. -/
theorem ignores_unasked_iff (ntop : Bytes → Bytes) (isIpv6 : Bool) (a : Announce) (drawn : Drawn) (events : Nat → Event) :
    IgnoresUnasked ntop isIpv6 a drawn events ↔ ¬ Strays drawn events := by
  constructor
  · intro meets strays
    rcases strays with stray | ⟨k, below, before, answered, stray⟩
    · exact stray_connect stray meets.ignored
    · exact stray_announce below before answered stray meets.ignored
  · exact ignoresUnasked_of_tame

/-- An announcement with nothing in it. -/
def emptyAnnounce : Announce := ⟨HttpTracker.zeroHash, HttpTracker.zeroPeerId, 0, 0, 0, 0, 6881⟩

/-- A datagram for the first attempt, and then silence. -/
def onlyFirst (data : Bytes) (k : Nat) : Event := if k = 0 then .datagram data else .timeout

/-- While transaction 7 is outstanding, an error of transaction 9 ends the exchange, and an
error of four bytes is read behind its end. -/
theorem foreign_error_ends_exchange :
    ¬ IgnoresUnasked (fun address => address) false emptyAnnounce ⟨7, 8, 9⟩ (onlyFirst [0, 0, 0, 3, 0, 0, 0, 9, 110, 111]) ∧
      (tryAnnounceTo (fun address => address) false emptyAnnounce ⟨7, 8, 9⟩
        (onlyFirst [0, 0, 0, 3, 0, 0, 0, 9, 110, 111])).2 = .throws (.trackerError [110, 111]) ∧
      (tryAnnounceTo (fun address => address) false emptyAnnounce ⟨7, 8, 9⟩ (onlyFirst [0, 0, 0, 3])).2 = .outside := by
  refine ⟨fun meets => ?_, rfl, rfl⟩
  refine stray_connect ⟨0, Nat.succ_pos _, fun j below => absurd below (Nat.not_lt_zero j), ?_⟩ meets.ignored
  decide

end BittorrentClient.UdpTracker
