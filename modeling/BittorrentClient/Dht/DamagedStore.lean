import BittorrentClient.Dht.RoutingTableStore

namespace BittorrentClient.Dht.RoutingTableStore
open Cpp

section Hex
variable {hex : Bytes}

theorem hexBytes_cons (count : Nat) (a b : UInt8) (rest : Bytes) :
    hexBytes (count + 1) (a :: b :: rest) =
      (stoulHex [a, b]).bind fun byte => (hexBytes count rest).bind fun bytes => .ok (UInt8.ofNat byte :: bytes) := rfl

theorem hexBytes_eq {count : Nat} (size : hex.length = 2 * count) :
    if convertible hex then ∃ bytes, hexBytes count hex = .ok bytes else ∃ error, hexBytes count hex = .error error := by
  induction count generalizing hex with
  | zero =>
    rw [List.length_eq_zero_iff.mp size]
    exact ⟨[], rfl⟩
  | succ count ih =>
    match hex, size with
    | a :: b :: rest, size =>
      have first := stoulHex_pair a b
      have later := @ih rest (by simp only [List.length_cons] at size; omega)
      rw [hexBytes_cons, convertible]
      cases pair : converts a b with
      | false =>
        rw [pair, if_neg Bool.false_ne_true] at first
        rw [first]
        exact ⟨_, rfl⟩
      | true =>
        rw [pair, if_pos rfl] at first
        obtain ⟨value, read⟩ := first
        rw [read, Bool.true_and]
        cases others : convertible rest with
        | false =>
          rw [others, if_neg Bool.false_ne_true] at later
          obtain ⟨error, thrown⟩ := later
          rw [thrown]
          exact ⟨error, rfl⟩
        | true =>
          rw [others, if_pos rfl] at later
          obtain ⟨bytes, converted⟩ := later
          rw [converted]
          exact ⟨_, rfl⟩

/-- `node_id_from_hex` of forty characters. -/
theorem nodeIdFromHex_forty (forty : hex.length = 40) :
    if convertible hex then ∃ id, nodeIdFromHex hex = .ok (some id) else ∃ error, nodeIdFromHex hex = .error error := by
  have read := @hexBytes_eq hex 20 forty
  have whole : nodeIdFromHex hex = (hexBytes 20 hex).bind fun bytes => .ok (some (.fromString bytes)) :=
    if_neg (not_not_intro forty)
  rw [whole]
  cases pairs : convertible hex with
  | true =>
    rw [pairs, if_pos rfl] at read
    obtain ⟨bytes, converted⟩ := read
    rw [converted]
    exact ⟨_, rfl⟩
  | false =>
    rw [pairs, if_neg Bool.false_ne_true] at read
    obtain ⟨error, thrown⟩ := read
    rw [thrown]
    exact ⟨error, rfl⟩

end Hex

/-- The words of an entry line, and what is left for the port. -/
def entryFields (line : Bytes) : Option (Bytes × Bytes × Bytes) :=
  match extractWord (line.drop 6) with
  | none => none
  | some (idHex, rest) =>
    match extractWord rest with
    | none => none
    | some (ip, rest) => some (idHex, ip, rest)

/-- The id of a line that has an id of forty characters, an ip, and a port that `>>`
takes. -/
def fortyId (line : Bytes) : Option Bytes :=
  match entryFields line with
  | none => none
  | some (idHex, _, rest) => if (extractU16 rest).isSome ∧ idHex.length = 40 then some idHex else none

/-- The line carries an id of forty hexadecimal digits, an ip and a port. -/
def WellFormed (line : Bytes) : Prop :=
  ∃ idHex ip rest port tail, entryFields line = some (idHex, ip, rest) ∧ idHex.length = 40 ∧
    (∀ c ∈ idHex, (hexValue c).isSome = true) ∧ extractWord rest = some (port, tail) ∧
    (∀ c ∈ port, isdigit c = true) ∧ digitsValue port < 2 ^ 16

/-- A line that is taken although its id has a character that is no digit, or its port
has a sign or something else that is no digit. -/
def Loose (line : Bytes) : Prop :=
  entryMark.isPrefixOf line = true ∧ ∃ idHex ip rest, entryFields line = some (idHex, ip, rest) ∧
    (extractU16 rest).isSome = true ∧ idHex.length = 40 ∧
    ((∃ c ∈ idHex, hexValue c = none) ∨ ∃ port tail, extractWord rest = some (port, tail) ∧ ∃ c ∈ port, isdigit c = false)

/-- The load ends here with an error. -/
def Refused (line : Bytes) : Prop :=
  versionMark.isPrefixOf line = true ∧ line ≠ versionMark ++ text ['1'] ∨
    entryMark.isPrefixOf line = true ∧ fortyId line = none

/-- The load ends here with an exception. -/
def Throws (line : Bytes) : Prop :=
  selfIdMark.isPrefixOf line = true ∧ (line.drop 8).length = 40 ∧ convertible (line.drop 8) = false ∨
    entryMark.isPrefixOf line = true ∧ ∃ idHex, fortyId line = some idHex ∧ convertible idHex = false

/-- The load gets to a line at which it throws. -/
def ReachesThrow : List Bytes → Prop
  | [] => False
  | line :: rest => Throws line ∨ ¬ Refused line ∧ ReachesThrow rest

section Lines
variable {line : Bytes}

theorem parseEntryLine_eq (entry : entryMark.isPrefixOf line = true) :
    parseEntryLine line =
      match entryFields line with
      | none => .ok none
      | some (idHex, ip, rest) =>
        match extractU16 rest with
        | none => .ok none
        | some port => (nodeIdFromHex idHex).bind fun id => .ok (id.map fun id => ⟨⟨id, ⟨ip, port⟩⟩, 0⟩) := by
  rw [parseEntryLine, entry, entryFields]
  simp only [Bool.not_true, Bool.false_eq_true, if_false]
  cases extractWord (line.drop 6) with
  | none => rfl
  | some first =>
    obtain ⟨idHex, rest⟩ := first
    simp only
    cases extractWord rest with
    | none => rfl
    | some second => rfl

theorem parseEntryLine_refused (entry : entryMark.isPrefixOf line = true) (refused : fortyId line = none) :
    parseEntryLine line = .ok none := by
  rw [parseEntryLine_eq entry]
  rw [fortyId] at refused
  split
  case h_1 => rfl
  case h_2 idHex ip rest fields =>
    rw [fields] at refused
    cases port : extractU16 rest with
    | none => rfl
    | some value =>
      have other : idHex.length ≠ 40 := by
        intro forty
        simp [port, forty] at refused
      have none : nodeIdFromHex idHex = .ok none := if_pos other
      rw [none]
      rfl

theorem parseEntryLine_forty (entry : entryMark.isPrefixOf line = true) {idHex : Bytes} (found : fortyId line = some idHex) :
    if convertible idHex then ∃ e, parseEntryLine line = .ok (some e) else ∃ error, parseEntryLine line = .error error := by
  rw [parseEntryLine_eq entry]
  rw [fortyId] at found
  split at found
  case h_1 => cases found
  case h_2 idHex ip rest fields =>
    split at found
    case isFalse => cases found
    case isTrue taken =>
      cases found
      obtain ⟨port, read⟩ := Option.isSome_iff_exists.mp taken.1
      have id := nodeIdFromHex_forty taken.2
      rw [read]
      cases pairs : convertible idHex with
      | true =>
        rw [pairs, if_pos rfl] at id
        obtain ⟨value, converted⟩ := id
        rw [converted]
        exact ⟨_, rfl⟩
      | false =>
        rw [pairs, if_neg Bool.false_ne_true] at id
        obtain ⟨error, thrown⟩ := id
        rw [thrown]
        exact ⟨error, rfl⟩

/-- A line with a mark begins with the first character of the mark. -/
theorem head_of_mark {c : UInt8} {mark : Bytes} (marked : (c :: mark).isPrefixOf line = true) : line.head? = some c := by
  obtain ⟨rest, rfl⟩ := List.isPrefixOf_iff_prefix.mp marked
  rfl

/-- The marks exclude each other. -/
theorem mark_eq_false {c d : UInt8} {mark : Bytes} (first : line.head? = some c) (different : d ≠ c) :
    (d :: mark).isPrefixOf line = false := by
  refine Bool.eq_false_iff.mpr fun marked => different ?_
  exact Option.some.inj ((head_of_mark marked).symm.trans first)

theorem not_comment {c : UInt8} (first : line.head? = some c) (different : c ≠ 35) :
    ¬ (line.isEmpty = true ∨ line.head? = some 35) := by
  rw [first, List.isEmpty_iff]
  rintro (none | other)
  · rw [none] at first
    cases first
  · exact different (Option.some.inj other)

/-- A line without the marks that can end the load does not end it. -/
theorem quiet (version : versionMark.isPrefixOf line = false) (self : selfIdMark.isPrefixOf line = false)
    (entry : entryMark.isPrefixOf line = false) : ¬ Throws line ∧ ¬ Refused line := by
  rw [Throws, Refused, version, self, entry]
  simp

/-- What one line does to the load. -/
inductive Effect (line : Bytes) (rest : List Bytes) (snapshot : RoutingTableSnapshot) : Prop
  | throws (thrown : Throws line) (error : ∃ error, loadLines (line :: rest) snapshot = .error error)
  | refuses (passed : ¬ Throws line) (refused : Refused line)
      (error : ∃ error, error ≠ [] ∧ loadLines (line :: rest) snapshot = .ok ⟨false, error, snapshot⟩)
  | continues (passed : ¬ Throws line) (taken : ¬ Refused line)
      (next : ∃ after, loadLines (line :: rest) snapshot = loadLines rest after ∧
        after.entries.length = snapshot.entries.length + if entryMark.isPrefixOf line then 1 else 0)

theorem effect_version (marked : versionMark.isPrefixOf line = true) (rest : List Bytes) (snapshot : RoutingTableSnapshot) :
    Effect line rest snapshot := by
  have first : line.head? = some 118 := head_of_mark marked
  have self : selfIdMark.isPrefixOf line = false := mark_eq_false first (by decide)
  have entry : entryMark.isPrefixOf line = false := mark_eq_false first (by decide)
  have shown := not_comment first (by decide)
  have passed : ¬ Throws line := by
    rw [Throws, self, entry]
    simp
  by_cases one : line = versionMark ++ text ['1']
  · have taken : ¬ Refused line := by
      rw [Refused, entry]
      simp [one]
    refine .continues passed taken ⟨snapshot, ?_, by rw [entry]; rfl⟩
    rw [loadLines, if_neg shown, if_pos marked, if_neg (not_not_intro one)]
  · refine .refuses passed (Or.inl ⟨marked, one⟩) ⟨unsupportedVersion line, List.cons_ne_nil _ _, ?_⟩
    rw [loadLines, if_neg shown, if_pos marked, if_pos one]

theorem effect_selfId (marked : selfIdMark.isPrefixOf line = true) (rest : List Bytes) (snapshot : RoutingTableSnapshot) :
    Effect line rest snapshot := by
  have first : line.head? = some 115 := head_of_mark marked
  have version : versionMark.isPrefixOf line = false := mark_eq_false first (by decide)
  have entry : entryMark.isPrefixOf line = false := mark_eq_false first (by decide)
  have shown := not_comment first (by decide)
  have run : loadLines (line :: rest) snapshot = (nodeIdFromHex (line.drop 8)).bind fun id =>
      loadLines rest (id.elim snapshot fun id => { snapshot with selfId := id }) := by
    rw [loadLines, if_neg shown, version, if_neg Bool.false_ne_true, if_pos marked]
    rfl
  have taken : ¬ Refused line := by
    rw [Refused, version, entry]
    simp
  by_cases forty : (line.drop 8).length = 40
  · have id := nodeIdFromHex_forty forty
    cases pairs : convertible (line.drop 8) with
    | true =>
      rw [pairs, if_pos rfl] at id
      obtain ⟨value, converted⟩ := id
      have passed : ¬ Throws line := by
        rw [Throws, entry, pairs]
        simp
      exact .continues passed taken ⟨{ snapshot with selfId := value }, by rw [run, converted]; rfl, by rw [entry]; rfl⟩
    | false =>
      rw [pairs, if_neg Bool.false_ne_true] at id
      obtain ⟨error, thrown⟩ := id
      exact .throws (Or.inl ⟨marked, forty, pairs⟩) ⟨error, by rw [run, thrown]; rfl⟩
  · have none : nodeIdFromHex (line.drop 8) = .ok none := if_pos forty
    have passed : ¬ Throws line := by
      rw [Throws, entry]
      simp only [forty, Bool.false_eq_true, false_and, and_false, or_self, not_false_eq_true]
    exact .continues passed taken ⟨snapshot, by rw [run, none]; rfl, by rw [entry]; rfl⟩

theorem effect_entry (marked : entryMark.isPrefixOf line = true) (rest : List Bytes) (snapshot : RoutingTableSnapshot) :
    Effect line rest snapshot := by
  have first : line.head? = some 101 := head_of_mark marked
  have version : versionMark.isPrefixOf line = false := mark_eq_false first (by decide)
  have self : selfIdMark.isPrefixOf line = false := mark_eq_false first (by decide)
  have shown := not_comment first (by decide)
  have run : loadLines (line :: rest) snapshot = (parseEntryLine line).bind fun parsed =>
      parsed.elim (.ok ⟨false, malformedEntry line, snapshot⟩) fun entry =>
        loadLines rest { snapshot with entries := snapshot.entries ++ [entry] } := by
    rw [loadLines, if_neg shown, version, if_neg Bool.false_ne_true, self, if_neg Bool.false_ne_true, if_pos marked]
    cases parseEntryLine line with
    | error error => rfl
    | ok parsed =>
      cases parsed with
      | none => rfl
      | some entry => rfl
  cases found : fortyId line with
  | none =>
    have passed : ¬ Throws line := by
      rw [Throws, self, found]
      simp
    refine .refuses passed (Or.inr ⟨marked, found⟩) ⟨malformedEntry line, List.cons_ne_nil _ _, ?_⟩
    rw [run, parseEntryLine_refused marked found]
    rfl
  | some idHex =>
    have parsed := parseEntryLine_forty marked found
    have taken : ¬ Refused line := by
      rw [Refused, version, found]
      simp
    cases pairs : convertible idHex with
    | true =>
      rw [pairs, if_pos rfl] at parsed
      obtain ⟨entry, read⟩ := parsed
      have passed : ¬ Throws line := by
        rw [Throws, self, found]
        simp [pairs]
      refine .continues passed taken ⟨{ snapshot with entries := snapshot.entries ++ [entry] }, ?_, ?_⟩
      · rw [run, read]
        rfl
      · rw [marked, List.length_append]
        rfl
    | false =>
      rw [pairs, if_neg Bool.false_ne_true] at parsed
      obtain ⟨error, thrown⟩ := parsed
      exact .throws (Or.inr ⟨marked, idHex, found, pairs⟩) ⟨error, by rw [run, thrown]; rfl⟩

theorem effect (line : Bytes) (rest : List Bytes) (snapshot : RoutingTableSnapshot) : Effect line rest snapshot := by
  cases version : versionMark.isPrefixOf line with
  | true => exact effect_version version rest snapshot
  | false =>
    cases self : selfIdMark.isPrefixOf line with
    | true => exact effect_selfId self rest snapshot
    | false =>
      cases entry : entryMark.isPrefixOf line with
      | true => exact effect_entry entry rest snapshot
      | false =>
        obtain ⟨passed, taken⟩ := quiet version self entry
        refine .continues passed taken ⟨snapshot, ?_, by rw [entry]; rfl⟩
        rw [loadLines, version, self, entry]
        exact ite_self _

/-- A line that the load takes is well formed unless it is loose. -/
theorem wellFormed_or_loose (marked : entryMark.isPrefixOf line = true) (taken : ¬ Refused line) :
    WellFormed line ∨ Loose line := by
  have forty : fortyId line ≠ none := fun none => taken (Or.inr ⟨marked, none⟩)
  cases fields : entryFields line with
  | none =>
    rw [fortyId, fields] at forty
    exact absurd rfl forty
  | some words =>
    obtain ⟨idHex, ip, rest⟩ := words
    rw [fortyId, fields] at forty
    have both : (extractU16 rest).isSome = true ∧ idHex.length = 40 := Decidable.of_not_not fun other => forty (if_neg other)
    by_cases plain : ∀ c ∈ idHex, (hexValue c).isSome = true
    · cases word : extractWord rest with
      | none =>
        rw [extractU16_of_none word] at both
        exact absurd both.1 Bool.false_ne_true
      | some third =>
        obtain ⟨port, tail⟩ := third
        by_cases digits : ∀ c ∈ port, isdigit c = true
        · have read := extractU16_word word digits
          refine Or.inl ⟨idHex, ip, rest, port, tail, fields, both.2, plain, word, digits, ?_⟩
          by_contra large
          rw [if_neg large] at read
          rw [read] at both
          exact Bool.false_ne_true both.1
        · push Not at digits
          obtain ⟨c, member, other⟩ := digits
          exact Or.inr ⟨marked, idHex, ip, rest, fields, both.1, both.2,
            Or.inr ⟨port, tail, word, c, member, Bool.eq_false_iff.mpr other⟩⟩
    · push Not at plain
      obtain ⟨c, member, other⟩ := plain
      exact Or.inr ⟨marked, idHex, ip, rest, fields, both.1, both.2,
        Or.inl ⟨c, member, Option.not_isSome_iff_eq_none.mp other⟩⟩

theorem Loose.not_wellFormed (loose : Loose line) : ¬ WellFormed line := by
  rintro ⟨idHex, ip, rest, port, tail, fields, _, digits, word, plain, _⟩
  obtain ⟨_, idHex', ip', rest', fields', _, _, either⟩ := loose
  cases fields.symm.trans fields'
  rcases either with ⟨c, member, other⟩ | ⟨port', tail', word', c, member, other⟩
  · have digit := digits c member
    rw [other] at digit
    exact Bool.false_ne_true digit
  · cases word.symm.trans word'
    exact Bool.false_ne_true (other.symm.trans (plain c member))

end Lines

/-- What the whole load comes to. -/
inductive Outcome (lines : List Bytes) (snapshot : RoutingTableSnapshot) : Prop
  | throws (thrown : ReachesThrow lines) (error : ∃ error, loadLines lines snapshot = .error error)
  | refuses (passed : ¬ ReachesThrow lines) (refused : ∃ line ∈ lines, Refused line)
      (error : ∃ error after, error ≠ [] ∧ loadLines lines snapshot = .ok ⟨false, error, after⟩)
  | ends (passed : ¬ ReachesThrow lines) (taken : ∀ line ∈ lines, ¬ Refused line)
      (result : ∃ after, loadLines lines snapshot =
          .ok (if after.entries.isEmpty then ⟨false, noEntries, after⟩ else ⟨true, [], after⟩) ∧
        after.entries.length = snapshot.entries.length + lines.countP (entryMark.isPrefixOf ·))

theorem outcome (lines : List Bytes) (snapshot : RoutingTableSnapshot) : Outcome lines snapshot := by
  induction lines generalizing snapshot with
  | nil => exact .ends id (fun _ member => absurd member List.not_mem_nil) ⟨snapshot, rfl, rfl⟩
  | cons line rest ih =>
    cases effect line rest snapshot with
    | throws thrown error => exact .throws (Or.inl thrown) error
    | refuses passed refused error =>
      obtain ⟨error, nonempty, run⟩ := error
      refine .refuses ?_ ⟨line, List.mem_cons_self, refused⟩ ⟨error, snapshot, nonempty, run⟩
      rintro (thrown | ⟨taken, _⟩)
      · exact passed thrown
      · exact taken refused
    | continues passed taken next =>
      obtain ⟨after, run, count⟩ := next
      have reached : ReachesThrow (line :: rest) ↔ ReachesThrow rest := by
        rw [ReachesThrow]
        simp only [passed, taken, not_false_eq_true, true_and, false_or]
      cases ih after with
      | throws thrown error => exact .throws (reached.mpr thrown) (run ▸ error)
      | refuses passed' refused error =>
        obtain ⟨other, member, stop⟩ := refused
        exact .refuses (reached.not.mpr passed') ⟨other, List.mem_cons_of_mem line member, stop⟩ (run ▸ error)
      | ends passed' taken' result =>
        obtain ⟨last, ended, total⟩ := result
        refine .ends (reached.not.mpr passed') ?_ ⟨last, run.trans ended, ?_⟩
        · intro other member
          rcases List.mem_cons.mp member with rfl | later
          · exact taken
          · exact taken' other later
        · rw [total, count, List.countP_cons]
          omega

/-- The load returns, reports every malformed entry, and succeeds only with entries
that are all well formed. -/
def LoadsSafely (path content : Bytes) : Prop :=
  ∃ result, load path (some content) = .ok result ∧
    ((∃ line ∈ lines content, entryMark.isPrefixOf line = true ∧ ¬ WellFormed line) → result.ok = false ∧ result.error ≠ []) ∧
    (result.ok = true → result.snapshot.entries ≠ [] ∧
      ∀ line ∈ lines content, entryMark.isPrefixOf line = true → WellFormed line)

/-- A file is loaded safely if no line makes `stoul` throw, and every line that is
taken is well formed or the load ends with an error anyway. -/
theorem loads_safely_iff (path content : Bytes) :
    LoadsSafely path content ↔ ¬ ReachesThrow (lines content) ∧
      ((∃ line ∈ lines content, Refused line) ∨ ∀ line ∈ lines content, ¬ Loose line) := by
  have run : load path (some content) = loadLines (lines content) ⟨.zero, []⟩ := rfl
  rw [LoadsSafely, run]
  cases outcome (lines content) ⟨.zero, []⟩ with
  | throws thrown error =>
    obtain ⟨error, thrown'⟩ := error
    rw [thrown']
    constructor
    · rintro ⟨_, returned, _⟩
      cases returned
    · intro condition
      exact absurd thrown condition.1
  | refuses passed refused error =>
    obtain ⟨error, after, nonempty, returned⟩ := error
    rw [returned]
    refine ⟨fun _ => ⟨passed, Or.inl refused⟩, fun _ => ⟨_, rfl, fun _ => ⟨rfl, nonempty⟩, fun success => ?_⟩⟩
    cases success
  | ends passed taken result =>
    obtain ⟨after, returned, count⟩ := result
    rw [returned]
    constructor
    · rintro ⟨_, same, reports, _⟩
      cases same
      refine ⟨passed, Or.inr fun line member loose => ?_⟩
      obtain ⟨failed, _⟩ := reports ⟨line, member, loose.1, loose.not_wellFormed⟩
      have entries : after.entries.isEmpty = false := by
        have some : 0 < (lines content).countP (entryMark.isPrefixOf ·) := List.countP_pos_iff.mpr ⟨line, member, loose.1⟩
        rw [List.isEmpty_eq_false_iff, ← List.length_pos_iff, count]
        exact Nat.lt_of_lt_of_le some (Nat.le_add_left _ _)
      rw [entries] at failed
      cases failed
    · rintro ⟨_, ⟨line, member, refused⟩ | strict⟩
      · exact absurd refused (taken line member)
      · have sound : ∀ line ∈ lines content, entryMark.isPrefixOf line = true → WellFormed line := by
          intro line member marked
          exact (wellFormed_or_loose marked (taken line member)).resolve_right (strict line member)
        refine ⟨_, rfl, ?_, fun success => ⟨?_, sound⟩⟩
        · rintro ⟨line, member, marked, malformed⟩
          exact absurd (sound line member marked) malformed
        · cases entries : after.entries.isEmpty with
          | true =>
            rw [entries] at success
            cases success
          | false => exact List.isEmpty_eq_false_iff.mp entries

/-- An entry whose id has forty characters that are no digits. -/
def lettersEntry : Bytes :=
  entryMark ++ List.replicate 40 122 ++ text [' ', '1', '.', '2', '.', '3', '.', '4', ' ', '8', '0', '\n']

theorem letters_entry_throws : ¬ ∀ path content, LoadsSafely path content := by
  intro claim
  obtain ⟨result, returned, _⟩ := claim [] lettersEntry
  have thrown : load [] (some lettersEntry) = .error .invalidArgument := rfl
  cases thrown.symm.trans returned

end BittorrentClient.Dht.RoutingTableStore
