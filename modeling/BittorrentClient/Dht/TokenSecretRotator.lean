import BittorrentClient.Dht.Krpc
import BittorrentClient.Library.Reach

namespace BittorrentClient.Dht
open Cpp Machine

/-- `struct in6_addr`. -/
structure In6Addr where
  bytes : Bytes
  length_eq : bytes.length = 16

/-- What tokens are made with: SHA-1 and `inet_pton` for both address families. -/
structure TokenLibrary where
  sha1 : Bytes → Sha1Hash
  pton4 : Bytes → Option InAddr
  pton6 : Bytes → Option In6Addr

/-- `ip_address_bytes`, empty for a text that is no address. -/
def TokenLibrary.ipAddressBytes (lib : TokenLibrary) (ip : Bytes) : Bytes :=
  match lib.pton4 ip with
  | some v4 => v4.bytes
  | none =>
    match lib.pton6 ip with
    | some v6 => v6.bytes
    | none => []

/-- What `random_secret` draws. -/
structure Secret where
  bytes : Bytes
  length_eq : bytes.length = 20

theorem Secret.bytes_injective : Function.Injective Secret.bytes := by
  rintro ⟨_, _⟩ ⟨_, _⟩ ⟨⟩
  rfl

instance : DecidableEq Secret := Secret.bytes_injective.decidableEq

/-- Times are in nanoseconds of the steady clock. -/
structure TokenSecretRotator where
  rotationInterval : Nat
  currentSecret : Bytes
  prevSecret : Bytes
  lastRotation : Nat
  prevSecretExpires : Nat

namespace TokenSecretRotator

/-- `DEFAULT_ROTATION_INTERVAL`, 5 minutes. -/
def defaultRotationInterval : Nat := 5 * 60 * 10 ^ 9

/-- `PREV_SECRET_TTL`, 10 minutes. -/
def prevSecretTtl : Nat := 10 * 60 * 10 ^ 9

def make (rotationInterval : Nat) (drawn : Secret) (now : Nat) : TokenSecretRotator :=
  ⟨rotationInterval, drawn.bytes, [], now, 0⟩

def computeToken (lib : TokenLibrary) (secret ip : Bytes) : Bytes :=
  (lib.sha1 (secret ++ lib.ipAddressBytes ip)).bytes

/-- The interval has passed since the last rotation. -/
def Due (t : TokenSecretRotator) (now : Nat) : Prop := t.lastRotation + t.rotationInterval ≤ now

instance (t : TokenSecretRotator) (now : Nat) : Decidable (t.Due now) := inferInstanceAs (Decidable (_ ≤ _))

/-- `rotate_if_needed`, at the time `now`. -/
def rotateIfNeeded (t : TokenSecretRotator) (now : Nat) (drawn : Secret) : TokenSecretRotator :=
  if ¬t.Due now then t
  else
    { t with
      prevSecret := t.currentSecret
      prevSecretExpires := now + prevSecretTtl
      currentSecret := drawn.bytes
      lastRotation := now }

def issueToken (lib : TokenLibrary) (t : TokenSecretRotator) (ip : Bytes) : Bytes :=
  computeToken lib t.currentSecret ip

/-- `verify_token`, at the time `now`. -/
def verifyToken (lib : TokenLibrary) (t : TokenSecretRotator) (now : Nat) (token ip : Bytes) : Bool :=
  if token = computeToken lib t.currentSecret ip then true
  else if !t.prevSecret.isEmpty && now < t.prevSecretExpires && token = computeToken lib t.prevSecret ip then true
  else false

end TokenSecretRotator

open TokenSecretRotator

/-- A token handed out after so many rotations. -/
structure Issue where
  ip : Bytes
  token : Bytes
  generation : Nat

/-- A rotator and its past: the secrets drawn and the times of the rotations,
latest first, the tokens issued, and the time of the last call. -/
structure Tokens where
  rotator : TokenSecretRotator
  secrets : List Secret
  rotations : List Nat
  issues : List Issue
  now : Nat

namespace Tokens

/-- A new rotator with the default interval. -/
def start (drawn : Secret) (now : Nat) : Tokens := ⟨.make defaultRotationInterval drawn now, [drawn], [], [], now⟩

def Initial (s : Tokens) : Prop := ∃ drawn now, s = start drawn now

def rotate (now : Nat) (drawn : Secret) (s : Tokens) : Tokens :=
  { s with
    rotator := s.rotator.rotateIfNeeded now drawn
    secrets := if s.rotator.Due now then drawn :: s.secrets else s.secrets
    rotations := if s.rotator.Due now then now :: s.rotations else s.rotations
    now := now }

def issue (lib : TokenLibrary) (now : Nat) (ip : Bytes) (s : Tokens) : Tokens :=
  { s with
    issues := ⟨ip, s.rotator.issueToken lib ip, s.rotations.length⟩ :: s.issues
    now := now }

/-- The rotations since a token was issued, latest first. -/
def since (s : Tokens) (issue : Issue) : List Nat := s.rotations.take (s.rotations.length - issue.generation)

/-- When the secret of a token was rotated out. -/
def rotatedOut (s : Tokens) (issue : Issue) : Option Nat := (s.since issue).getLast?

inductive Call
  | rotateIfNeeded (now : Nat) (drawn : Secret)
  | issueToken (now : Nat) (ip : Bytes)
  | verifyToken (now : Nat) (token ip : Bytes)

def Call.time : Call → Nat
  | .rotateIfNeeded now _ | .issueToken now _ | .verifyToken now _ _ => now

/-- The calls come at times that do not decrease. -/
def step (lib : TokenLibrary) (s : Tokens) (call : Call) : Option Tokens :=
  if call.time < s.now then none
  else
    match call with
    | .rotateIfNeeded now drawn => some (s.rotate now drawn)
    | .issueToken now ip => some (s.issue lib now ip)
    | .verifyToken now _ _ => some { s with now := now }

section Past
variable {lib : TokenLibrary} {s s' : Tokens}

/-- The two secrets of the rotator are the last ones drawn, and every token was
made with the secret of its time. -/
structure Kept (lib : TokenLibrary) (s : Tokens) : Prop where
  counted : s.secrets.length = s.rotations.length + 1
  current : ∃ secret, s.secrets[0]? = some secret ∧ s.rotator.currentSecret = secret.bytes
  none : s.rotations = [] → s.rotator.prevSecret = []
  previous : ∀ r, s.rotations.head? = some r → s.rotator.prevSecretExpires = r + prevSecretTtl ∧
    ∃ secret, s.secrets[1]? = some secret ∧ s.rotator.prevSecret = secret.bytes
  issued : ∀ issue ∈ s.issues, issue.generation ≤ s.rotations.length ∧
    ∃ secret, s.secrets[s.rotations.length - issue.generation]? = some secret ∧
      issue.token = computeToken lib secret.bytes issue.ip

theorem kept_start (lib : TokenLibrary) (drawn : Secret) (now : Nat) : (start drawn now).Kept lib where
  counted := rfl
  current := ⟨drawn, rfl, rfl⟩
  none _ := rfl
  previous _ head := nomatch head
  issued _ member := nomatch member

theorem rotate_of_not_due {now : Nat} (drawn : Secret) (early : ¬s.rotator.Due now) :
    s.rotate now drawn = { s with now := now } := by
  simp only [rotate, rotateIfNeeded, if_pos early, if_neg early]

theorem Kept.rotate (kept : s.Kept lib) (now : Nat) (drawn : Secret) : (s.rotate now drawn).Kept lib := by
  by_cases due : s.rotator.Due now
  case neg =>
    rw [rotate_of_not_due drawn due]
    exact ⟨kept.counted, kept.current, kept.none, kept.previous, kept.issued⟩
  obtain ⟨secret, first, current⟩ := kept.current
  have rotator : s.rotator.rotateIfNeeded now drawn =
      ⟨s.rotator.rotationInterval, drawn.bytes, s.rotator.currentSecret, now, now + prevSecretTtl⟩ :=
    if_neg (not_not.mpr due)
  simp only [Tokens.rotate, if_pos due, rotator]
  refine ⟨?_, ⟨drawn, rfl, rfl⟩, nofun, ?_, ?_⟩
  · exact congrArg Nat.succ kept.counted
  · intro r head
    cases head
    exact ⟨rfl, secret, first, current⟩
  · intro issue member
    obtain ⟨earlier, secret, drawnThen, token⟩ := kept.issued issue member
    refine ⟨Nat.le_succ_of_le earlier, secret, ?_, token⟩
    rw [List.length_cons, Nat.succ_sub earlier, List.getElem?_cons_succ]
    exact drawnThen

theorem Kept.issue (kept : s.Kept lib) (now : Nat) (ip : Bytes) : (s.issue lib now ip).Kept lib := by
  refine ⟨kept.counted, kept.current, kept.none, kept.previous, ?_⟩
  intro issue member
  rcases List.mem_cons.mp member with rfl | old
  · obtain ⟨secret, first, current⟩ := kept.current
    refine ⟨Nat.le_refl _, secret, ?_, ?_⟩
    · simp only [Tokens.issue, Nat.sub_self]
      exact first
    · simp only [issueToken, current]
  · exact kept.issued issue old

theorem Kept.wait (kept : s.Kept lib) (now : Nat) : Kept lib { s with now := now } :=
  ⟨kept.counted, kept.current, kept.none, kept.previous, kept.issued⟩

theorem step_cases {call : Call} (run : s.step lib call = some s') :
    s.now ≤ call.time ∧
      ((∃ drawn, call = .rotateIfNeeded call.time drawn ∧ s' = s.rotate call.time drawn) ∨
        (∃ ip, s' = s.issue lib call.time ip) ∨ s' = { s with now := call.time }) := by
  unfold step at run
  split at run
  case isTrue => cases run
  case isFalse ordered =>
    refine ⟨Nat.not_lt.mp ordered, ?_⟩
    cases call with
    | rotateIfNeeded now drawn =>
      cases run
      exact Or.inl ⟨drawn, rfl, rfl⟩
    | issueToken now ip =>
      cases run
      exact Or.inr (Or.inl ⟨ip, rfl⟩)
    | verifyToken now token ip =>
      cases run
      exact Or.inr (Or.inr rfl)

theorem step_kept {call : Call} (kept : s.Kept lib) (run : s.step lib call = some s') : s'.Kept lib := by
  obtain ⟨_, ⟨drawn, _, rfl⟩ | ⟨ip, rfl⟩ | rfl⟩ := step_cases run
  · exact kept.rotate _ drawn
  · exact kept.issue _ ip
  · exact kept.wait _

/-- A token is accepted if it was made for the address with one of the two
last secrets, the older of them within its ten minutes. -/
theorem Kept.verifyToken_iff (kept : s.Kept lib) {now : Nat} {token ip : Bytes} :
    s.rotator.verifyToken lib now token ip = true ↔
      (∃ secret, s.secrets[0]? = some secret ∧ token = computeToken lib secret.bytes ip) ∨
      ∃ secret r, s.secrets[1]? = some secret ∧ s.rotations.head? = some r ∧ now < r + prevSecretTtl ∧
        token = computeToken lib secret.bytes ip := by
  obtain ⟨secret, first, current⟩ := kept.current
  have byCurrent : token = computeToken lib s.rotator.currentSecret ip ↔
      ∃ secret, s.secrets[0]? = some secret ∧ token = computeToken lib secret.bytes ip := by
    rw [current, first]
    simp only [Option.some.injEq, exists_eq_left']
  have byPrevious : (!s.rotator.prevSecret.isEmpty && now < s.rotator.prevSecretExpires &&
      token = computeToken lib s.rotator.prevSecret ip) = true ↔
      ∃ secret r, s.secrets[1]? = some secret ∧ s.rotations.head? = some r ∧ now < r + prevSecretTtl ∧
        token = computeToken lib secret.bytes ip := by
    cases head : s.rotations.head? with
    | none => simp [kept.none (List.head?_eq_none_iff.mp head)]
    | some r =>
      obtain ⟨expires, old, second, previous⟩ := kept.previous r head
      have sized : old.bytes.isEmpty = false := by
        rw [List.isEmpty_eq_false_iff, ← List.length_pos_iff, old.length_eq]
        decide
      rw [previous, second, expires]
      simp [sized]
  rw [← byCurrent, ← byPrevious, verifyToken]
  by_cases same : token = computeToken lib s.rotator.currentSecret ip
  · simp only [same, if_true, true_or]
  · simp only [same, if_false, false_or, Bool.if_false_right, Bool.and_true, Bool.decide_eq_true]

theorem length_since (issue : Issue) : (s.since issue).length = s.rotations.length - issue.generation := by
  rw [since, List.length_take]
  omega

theorem since_rotate {issue : Issue} (earlier : issue.generation ≤ s.rotations.length) {now : Nat} {drawn : Secret}
    (due : s.rotator.Due now) : (s.rotate now drawn).since issue = now :: s.since issue := by
  simp only [since, rotate, if_pos due, List.length_cons, Nat.succ_sub earlier, List.take_succ_cons]

/-- The secret of a token is current until the first rotation, and previous
until the second. -/
theorem Kept.secret_of_since (kept : s.Kept lib) {issue : Issue} (member : issue ∈ s.issues) :
    ∃ secret, s.secrets[(s.since issue).length]? = some secret ∧
      issue.token = computeToken lib secret.bytes issue.ip := by
  rw [length_since]
  exact (kept.issued issue member).2

theorem head_of_since {issue : Issue} {r : Nat} {rest : List Nat} (since_eq : s.since issue = r :: rest) :
    s.rotations.head? = some r := by
  have head : (s.since issue).head? = some r := by rw [since_eq, List.head?_cons]
  rw [since, List.head?_take] at head
  split at head
  case isTrue => cases head
  case isFalse => exact head

/-- A rotation that drops the previous secret waits until its ten minutes have
passed, unless no token was made with it. -/
def Spaced (s : Tokens) : Call → Prop
  | .rotateIfNeeded now _ => s.rotator.Due now → s.rotator.prevSecret = [] ∨ s.rotator.prevSecretExpires ≤ now ∨
      ∀ issue ∈ s.issues, issue.generation + 1 ≠ s.rotations.length
  | _ => True

/-- A token whose secret is no longer kept has had its ten minutes. -/
def Served (s : Tokens) : Prop :=
  ∀ issue ∈ s.issues, ∀ first second rest, s.since issue = second :: (rest ++ [first]) →
    first + prevSecretTtl ≤ s.now

theorem Served.rotate (served : s.Served) (kept : s.Kept lib) {now : Nat} {drawn : Secret} (later : s.now ≤ now)
    (spaced : s.Spaced (.rotateIfNeeded now drawn)) : (s.rotate now drawn).Served := by
  by_cases due : s.rotator.Due now
  case neg =>
    rw [rotate_of_not_due drawn due]
    exact fun issue member first second rest dropped => (served issue member first second rest dropped).trans later
  intro issue member first second rest dropped
  rw [since_rotate (kept.issued issue member).1 due] at dropped
  obtain ⟨rfl, before⟩ := List.cons.inj dropped
  change first + prevSecretTtl ≤ now
  cases rest with
  | nil =>
    have only : s.since issue = [first] := before
    obtain ⟨expires, secret, _, previous⟩ := kept.previous first (head_of_since only)
    rcases spaced due with empty | over_ | unused
    · have length := secret.length_eq
      rw [← previous, empty] at length
      cases length
    · exact expires ▸ over_
    · have length := length_since (s := s) issue
      rw [only, List.length_singleton] at length
      have earlier := (kept.issued issue member).1
      exact absurd (by omega) (unused issue member)
  | cons second rest => exact (served issue member first second rest before).trans later

theorem step_served {call : Call} (served : s.Served) (kept : s.Kept lib) (spaced : s.Spaced call)
    (run : s.step lib call = some s') : s'.Served := by
  obtain ⟨later, ⟨drawn, rotating, rfl⟩ | ⟨ip, rfl⟩ | rfl⟩ := step_cases run
  · exact served.rotate kept later (rotating ▸ spaced)
  · intro issue member first second rest dropped
    rcases List.mem_cons.mp member with rfl | old
    · have length := length_since (s := s) ⟨ip, s.rotator.issueToken lib ip, s.rotations.length⟩
      rw [Nat.sub_self, List.length_eq_zero_iff] at length
      cases length.symm.trans dropped
    · exact (served issue old first second rest dropped).trans later
  · exact fun issue member first second rest dropped => (served issue member first second rest dropped).trans later

theorem served_of_reach (reach : Reach Initial (step lib) Spaced s) : s.Kept lib ∧ s.Served := by
  refine reach.invariant (P := fun s => s.Kept lib ∧ s.Served) ?_ ?_
  · rintro _ ⟨drawn, now, rfl⟩
    exact ⟨kept_start lib drawn now, nofun⟩
  · rintro before after call ⟨kept, served⟩ spaced run
    exact ⟨step_kept kept run, step_served served kept spaced run⟩

/-- A token is accepted for ten minutes after its secret was rotated out, in
every run in which a secret is dropped only after its ten minutes. -/
theorem token_grace_period (reach : Reach Initial (step lib) Spaced s) :
    ∀ issue ∈ s.issues, ∀ r, s.rotatedOut issue = some r → ∀ now, s.now ≤ now → now < r + prevSecretTtl →
      s.rotator.verifyToken lib now issue.token issue.ip = true := by
  obtain ⟨kept, served⟩ := served_of_reach reach
  intro issue member r out now later early
  obtain ⟨secret, drawnThen, token⟩ := kept.secret_of_since member
  obtain ⟨rest, split⟩ := List.getLast?_eq_some_iff.mp out
  cases rest with
  | nil =>
    have only : s.since issue = [r] := split
    rw [only] at drawnThen
    exact kept.verifyToken_iff.mpr (Or.inr ⟨secret, r, drawnThen, head_of_since only, early, token⟩)
  | cons second rest =>
    have over_ := served issue member r second rest split
    omega

end Past

/-- SHA-1 of three secrets, each of equal bytes, followed by 127.0.0.1. -/
def loopbackLibrary : TokenLibrary where
  sha1 data :=
    if data = List.replicate 20 1 ++ [127, 0, 0, 1] then
      ⟨[104, 50, 199, 196, 58, 138, 23, 1, 61, 6, 213, 156, 63, 98, 13, 121, 42, 43, 123, 189], rfl⟩
    else if data = List.replicate 20 2 ++ [127, 0, 0, 1] then
      ⟨[137, 243, 89, 130, 122, 64, 0, 227, 158, 107, 164, 201, 109, 58, 94, 81, 114, 248, 209, 186], rfl⟩
    else ⟨[100, 211, 155, 124, 165, 254, 28, 111, 170, 67, 79, 137, 185, 74, 229, 88, 171, 187, 45, 74], rfl⟩
  pton4 ip := if ip = text ['1', '2', '7', '.', '0', '.', '0', '.', '1'] then some ⟨[127, 0, 0, 1], rfl⟩ else none
  pton6 _ := none

def secretOf (byte : UInt8) : Secret := ⟨byte :: List.replicate 19 byte, rfl⟩

/-- A token for the loopback address, and a rotation five minutes later. -/
def rotatedOnce : Tokens :=
  ((start (secretOf 1) 0).issue loopbackLibrary 0 (text ['1', '2', '7', '.', '0', '.', '0', '.', '1'])).rotate
    defaultRotationInterval (secretOf 2)

theorem rotatedOnce_reach {guard : Tokens → Call → Prop}
    (allowed : ∀ s call, s.rotator.prevSecret = [] → guard s call) :
    Reach Initial (step loopbackLibrary) guard rotatedOnce := by
  have issuing : (start (secretOf 1) 0).step loopbackLibrary
      (.issueToken 0 (text ['1', '2', '7', '.', '0', '.', '0', '.', '1'])) = some _ := rfl
  have rotating : ((start (secretOf 1) 0).issue loopbackLibrary 0
      (text ['1', '2', '7', '.', '0', '.', '0', '.', '1'])).step loopbackLibrary
      (.rotateIfNeeded defaultRotationInterval (secretOf 2)) = some rotatedOnce := rfl
  exact .next (.next (.start ⟨secretOf 1, 0, rfl⟩) (allowed _ _ rfl) issuing) (allowed _ _ rfl) rotating

theorem token_grace_period_one_rotation :
    ∃ issue ∈ rotatedOnce.issues, rotatedOnce.rotatedOut issue = some defaultRotationInterval ∧
      rotatedOnce.rotator.verifyToken loopbackLibrary (14 * 60 * 10 ^ 9) issue.token issue.ip = true := by
  have reach : Reach Initial (step loopbackLibrary) Spaced rotatedOnce := by
    refine rotatedOnce_reach fun s call empty => ?_
    cases call with
    | rotateIfNeeded now drawn => exact fun _ => Or.inl empty
    | issueToken | verifyToken => trivial
  refine ⟨_, List.mem_cons_self, rfl, ?_⟩
  exact token_grace_period reach _ List.mem_cons_self defaultRotationInterval rfl _ (by decide) (by decide)

/-- Five minutes after its secret was rotated out, a second rotation makes the
token worthless. -/
theorem token_refused_within_grace_period :
    ∃ s issue r now, Reach Initial (step loopbackLibrary) unguarded s ∧ issue ∈ s.issues ∧
      s.rotatedOut issue = some r ∧ s.now ≤ now ∧ now < r + prevSecretTtl ∧
      s.rotator.verifyToken loopbackLibrary now issue.token issue.ip = false := by
  have again : rotatedOnce.step loopbackLibrary (.rotateIfNeeded (2 * defaultRotationInterval) (secretOf 3)) =
      some (rotatedOnce.rotate (2 * defaultRotationInterval) (secretOf 3)) := rfl
  exact ⟨_, _, defaultRotationInterval, 2 * defaultRotationInterval,
    .next (rotatedOnce_reach fun _ _ _ => trivial) trivial again, List.mem_cons_self, rfl, Nat.le_refl _, by decide,
    by decide⟩

end Tokens

end BittorrentClient.Dht
