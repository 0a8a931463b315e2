import BittorrentClient.Library.PathNormal

namespace BittorrentClient
open Cpp Path

/-- The whitelist of `utils::sanitize_filename`. -/
def sanitizeByte (c : UInt8) : UInt8 := if isalnum c || c == 45 || c == 95 || c == 46 then c else 95

def sanitizeFilename (name : Bytes) : Bytes := name.map sanitizeByte

namespace TorrentManager

/-- The `log_dir` of the constructor. -/
def logDir (logOutputDir : Path) (torrentName : Bytes) : Path := logOutputDir / ⟨sanitizeFilename torrentName⟩

/-- What is left of the files that are present when the constructor has
cleared the logs of a previous run, or has tried to. A directory whose path ends
in a dot is emptied but cannot be removed itself; for `.` the call throws then. -/
def clearLogs (logOutputDir : Path) (torrentName : Bytes) (present : Normal → Bool) : Normal → Bool :=
  let name := sanitizeFilename torrentName
  let dir := (logDir logOutputDir torrentName).lexicallyNormal
  if present dir then
    fun p => present p && !(decide (dir.Covers p) && !(decide (p = dir) && (name == dot || name == dotdot)))
  else present

/-- The log directory is a proper descendant of `log_output_dir`, and nothing
but proper descendants of that is ever deleted. -/
def ClearsOnlyInside (logOutputDir : Path) (torrentName : Bytes) : Prop :=
  logOutputDir.StrictlyInside (logDir logOutputDir torrentName) ∧
    ∀ (present : Normal → Bool) (p : Normal), present p = true →
      clearLogs logOutputDir torrentName present p = false →
      logOutputDir.lexicallyNormal.Covers p ∧ p ≠ logOutputDir.lexicallyNormal

theorem sanitizeByte_ne_separator (c : UInt8) : sanitizeByte c ≠ 47 := by
  unfold sanitizeByte
  split
  case isTrue allowed =>
    rintro rfl
    exact absurd allowed (by decide)
  case isFalse => decide

theorem sanitizeByte_eq_dot {c : UInt8} : sanitizeByte c = 46 ↔ c = 46 := by
  constructor
  · intro same
    unfold sanitizeByte at same
    split at same
    · exact same
    · exact absurd same (by decide)
  · rintro rfl
    decide

theorem sanitizeFilename_plain (name : Bytes) : (47 : UInt8) ∉ sanitizeFilename name := by
  intro member
  obtain ⟨c, _, same⟩ := List.mem_map.mp member
  exact sanitizeByte_ne_separator c same

/-- Dots survive the whitelist, and nothing else becomes one. -/
theorem sanitizeFilename_eq_dots (name : Bytes) (count : Nat) :
    sanitizeFilename name = List.replicate count 46 ↔ name = List.replicate count 46 := by
  simp only [List.eq_replicate_iff, sanitizeFilename, List.length_map, List.forall_mem_map, sanitizeByte_eq_dot]

/-- A plain name resolves to a proper descendant unless it is empty or one of
the two names with a meaning of their own. -/
theorem append_name_inside (dir : Path) {name : Bytes} (plain : (47 : UInt8) ∉ name) :
    dir.StrictlyInside (dir / ⟨name⟩) ↔ name ≠ [] ∧ name ≠ dot ∧ name ≠ dotdot := by
  have relative : isAbsolute ⟨name⟩ = false := by
    refine beq_eq_false_iff_ne.mpr fun head => plain ?_
    exact List.mem_of_mem_head? head
  rw [strictlyInside_iff, append_lexicallyNormal relative, components_of_name plain]
  by_cases empty : name = []
  · simp [empty]
  rw [if_neg empty, List.foldl_cons, List.foldl_nil]
  by_cases isDot : name = dot
  · rw [isDot, resolve_dot]
    simp
  by_cases isDotdot : name = dotdot
  · simp only [isDotdot, ne_eq, not_true_eq_false, and_false, iff_false]
    rintro ⟨rest, nonempty, ordinary, names⟩
    exact resolve_dotdot_ne nonempty ordinary (Normal.mk.injEq .. ▸ names).2
  · rw [resolve_name isDot isDotdot]
    refine ⟨fun _ => ⟨empty, isDot, isDotdot⟩, fun _ => ⟨[name], List.cons_ne_nil _ _, ?_, rfl⟩⟩
    rw [List.mem_singleton]
    exact Ne.symm isDotdot

/-- Clearing a proper descendant deletes proper descendants only. -/
theorem clearLogs_inside {logOutputDir : Path} {torrentName : Bytes}
    (inside : logOutputDir.StrictlyInside (logDir logOutputDir torrentName)) {present : Normal → Bool} {p : Normal}
    (there : present p = true) (deleted : clearLogs logOutputDir torrentName present p = false) :
    logOutputDir.lexicallyNormal.Covers p ∧ p ≠ logOutputDir.lexicallyNormal := by
  unfold clearLogs at deleted
  split at deleted
  case isTrue =>
    dsimp only at deleted
    rw [there, Bool.true_and, Bool.not_eq_false', Bool.and_eq_true, decide_eq_true_eq] at deleted
    obtain ⟨rest, nonempty, ordinary, names⟩ := strictlyInside_iff.mp inside
    obtain ⟨below, ordinaryBelow, whole⟩ := Normal.covers_iff.mp deleted.1
    rw [names, List.append_assoc] at whole
    refine ⟨Normal.covers_iff.mpr ⟨rest ++ below, ?_, whole⟩, ?_⟩
    · rw [List.mem_append, not_or]
      exact ⟨ordinary, ordinaryBelow⟩
    · intro same
      have lengths := congrArg (fun normal => normal.names.length) (whole.symm.trans same)
      have positive := List.length_pos_iff.mpr nonempty
      simp only [List.length_append] at lengths
      omega
  case isFalse =>
    rw [there] at deleted
    cases deleted

/-- The constructor clears only below `log_output_dir` exactly for the names
other than the empty one, `.` and `..`. -/
theorem clears_only_inside_iff (logOutputDir : Path) (torrentName : Bytes) :
    ClearsOnlyInside logOutputDir torrentName ↔ torrentName ≠ [] ∧ torrentName ≠ dot ∧ torrentName ≠ dotdot := by
  have names : sanitizeFilename torrentName ≠ [] ∧ sanitizeFilename torrentName ≠ dot ∧
      sanitizeFilename torrentName ≠ dotdot ↔ torrentName ≠ [] ∧ torrentName ≠ dot ∧ torrentName ≠ dotdot := by
    have zero := sanitizeFilename_eq_dots torrentName 0
    have one := sanitizeFilename_eq_dots torrentName 1
    have two := sanitizeFilename_eq_dots torrentName 2
    exact and_congr (not_congr zero) (and_congr (not_congr one) (not_congr two))
  rw [← names, ← append_name_inside logOutputDir (sanitizeFilename_plain torrentName)]
  constructor
  · exact fun clears => clears.1
  · exact fun inside => ⟨inside, fun _ _ there deleted => clearLogs_inside inside there deleted⟩

/-- A torrent named `..` empties the directory that holds `log_output_dir`. -/
theorem clears_parent_directory :
    ¬ClearsOnlyInside ⟨text ['l', 'o', 'g', 's']⟩ dotdot ∧
      clearLogs ⟨text ['l', 'o', 'g', 's']⟩ dotdot (fun _ => true) ⟨false, [text ['s', 'r', 'c']]⟩ = false := by
  refine ⟨?_, by decide⟩
  intro clears
  exact absurd clears.1 (by decide)

end TorrentManager

end BittorrentClient
