import BittorrentClient.Library.Path

namespace Cpp.Path

/-- The names `.` and `..`. -/
def dot : Bytes := [46]

def dotdot : Bytes := [46, 46]

/-- The names between the separators. -/
def components (p : Path) : List Bytes := (p.native.splitOnP (· == 47)).filter (· ≠ [])

/-- One step of `lexically_normal`: `..` takes back the name before it, stays
where there is none to take back, and vanishes at the root. -/
def resolve (absolute : Bool) (names : List Bytes) (name : Bytes) : List Bytes :=
  if name = dot then names
  else if name = dotdot then
    if names.getLast? = none ∧ absolute = true then names
    else if names.getLast? = none ∨ names.getLast? = some dotdot then names ++ [dotdot]
    else names.dropLast
  else names ++ [name]

/-- A path after lexical normalisation. -/
structure Normal where
  absolute : Bool
  names : List Bytes
  deriving DecidableEq

def lexicallyNormal (p : Path) : Normal := ⟨p.isAbsolute, p.components.foldl (resolve p.isAbsolute) []⟩

/-- `p` is `dir` itself or lies below it, so that removing `dir` with all it
contains removes `p`. -/
def Normal.Covers (dir p : Normal) : Prop :=
  dir.absolute = p.absolute ∧ dir.names <+: p.names ∧ dotdot ∉ p.names.drop dir.names.length

instance (dir p : Normal) : Decidable (dir.Covers p) :=
  inferInstanceAs (Decidable (dir.absolute = p.absolute ∧ dir.names <+: p.names ∧ _))

/-- `p` normalises to a proper descendant of what `dir` normalises to. -/
def StrictlyInside (dir p : Path) : Prop :=
  dir.lexicallyNormal.Covers p.lexicallyNormal ∧ p.lexicallyNormal ≠ dir.lexicallyNormal

instance (dir p : Path) : Decidable (dir.StrictlyInside p) := inferInstanceAs (Decidable (_ ∧ _))

/-- How far below its start a relative path ends, if it never goes above it. -/
def walk : Nat → List Bytes → Option Nat
  | depth, [] => some depth
  | depth, name :: rest =>
    if name = dot then walk depth rest
    else if name = dotdot then
      match depth with
      | 0 => none
      | depth + 1 => walk depth rest
    else walk (depth + 1) rest

/-- A relative path that never leaves the directory it starts in and ends
below it. -/
def Descends (p : Path) : Prop := p.isAbsolute = false ∧ ∃ depth, walk 0 p.components = some (depth + 1)

theorem Normal.covers_iff {dir p : Normal} :
    dir.Covers p ↔ ∃ rest, dotdot ∉ rest ∧ p = ⟨dir.absolute, dir.names ++ rest⟩ := by
  constructor
  · rintro ⟨absolute, ⟨rest, names⟩, ordinary⟩
    rw [← names, List.drop_left] at ordinary
    refine ⟨rest, ordinary, ?_⟩
    cases p
    simp only [Normal.mk.injEq]
    exact ⟨absolute.symm, names.symm⟩
  · rintro ⟨rest, ordinary, rfl⟩
    refine ⟨rfl, List.prefix_append .., ?_⟩
    rwa [List.drop_left]

theorem strictlyInside_iff {dir p : Path} : dir.StrictlyInside p ↔ ∃ rest, rest ≠ [] ∧ dotdot ∉ rest ∧
    p.lexicallyNormal = ⟨dir.lexicallyNormal.absolute, dir.lexicallyNormal.names ++ rest⟩ := by
  unfold StrictlyInside
  rw [Normal.covers_iff]
  constructor
  · rintro ⟨⟨rest, ordinary, names⟩, different⟩
    refine ⟨rest, ?_, ordinary, names⟩
    rintro rfl
    rw [List.append_nil] at names
    exact different names
  · rintro ⟨rest, nonempty, ordinary, names⟩
    refine ⟨⟨rest, ordinary, names⟩, ?_⟩
    intro same
    have lengths := congrArg (fun normal => normal.names.length) (names.symm.trans same)
    simp only [List.length_append, Nat.add_eq_left, List.length_eq_zero_iff] at lengths
    exact nonempty lengths

variable {p q : Path}

/-- A relative right operand never changes whether the path is absolute. -/
theorem append_isAbsolute (relative : q.isAbsolute = false) : (p / q).isAbsolute = p.isAbsolute := by
  simp only [HDiv.hDiv, Div.div, append, relative, Bool.false_eq_true, if_false]
  unfold isAbsolute hasFilename
  cases text : p.native with
  | nil =>
    simp only [List.isEmpty_nil, Bool.not_true, Bool.false_and, Bool.false_eq_true, if_false, List.nil_append,
      List.head?_nil]
    exact relative
  | cons first rest => split <;> simp only [List.cons_append, List.head?_cons]

theorem append_absolute (absolute : q.isAbsolute = true) : p / q = q := by
  simp only [HDiv.hDiv, Div.div, append, absolute, if_true]

theorem components_separator (front rest : Bytes) :
    components ⟨front ++ 47 :: rest⟩ = components ⟨front⟩ ++ components ⟨rest⟩ := by
  unfold components
  rw [List.splitOnP_append_cons front rest (by decide), List.filter_append]

theorem components_nil : components ⟨[]⟩ = [] := rfl

theorem append_components (relative : q.isAbsolute = false) : (p / q).components = p.components ++ q.components := by
  simp only [HDiv.hDiv, Div.div, append, relative, Bool.false_eq_true, if_false]
  split
  case isTrue => exact components_separator p.native q.native
  case isFalse noFilename =>
    simp only [hasFilename, Bool.and_eq_true, Bool.not_eq_true', bne_iff_ne, not_and_or, Bool.not_eq_false,
      List.isEmpty_iff, not_not] at noFilename
    rcases noFilename with empty | ends
    · have whole : p = ⟨[]⟩ := by
        cases p
        exact congrArg Path.mk empty
      rw [whole, components_nil, List.nil_append]
      rfl
    · obtain ⟨front, split⟩ := List.getLast?_eq_some_iff.mp ends
      have whole : p = ⟨front ++ 47 :: []⟩ := by
        cases p
        exact congrArg Path.mk split
      rw [whole]
      simp only [List.append_assoc, List.cons_append, List.nil_append]
      rw [components_separator, components_separator, components_nil, List.append_nil]

/-- Appending a relative path goes on resolving from where the left one ends. -/
theorem append_lexicallyNormal (relative : q.isAbsolute = false) :
    (p / q).lexicallyNormal =
      ⟨p.lexicallyNormal.absolute, q.components.foldl (resolve p.isAbsolute) p.lexicallyNormal.names⟩ := by
  simp only [lexicallyNormal, append_isAbsolute relative, append_components relative, List.foldl_append]

/-- A name without separators is its own only component. -/
theorem components_of_name {name : Bytes} (plain : (47 : UInt8) ∉ name) :
    components ⟨name⟩ = if name = [] then [] else [name] := by
  unfold components
  have single : name.splitOnP (· == 47) = [name] := by
    refine List.splitOnP_eq_singleton fun c member => ?_
    rw [beq_eq_false_iff_ne]
    rintro rfl
    exact plain member
  rw [single]
  by_cases empty : name = [] <;> simp [empty]

theorem resolve_dot (absolute : Bool) (names : List Bytes) : resolve absolute names dot = names := by
  simp only [resolve, if_true]

theorem resolve_name {absolute : Bool} {names : List Bytes} {name : Bytes} (notDot : name ≠ dot)
    (notDotdot : name ≠ dotdot) : resolve absolute names name = names ++ [name] := by
  simp only [resolve, notDot, notDotdot, if_false]

/-- `..` takes back an ordinary name. -/
theorem resolve_back {absolute : Bool} {names : List Bytes} {last : Bytes} (ordinary : last ≠ dotdot) :
    resolve absolute (names ++ [last]) dotdot = names := by
  have different : dotdot ≠ dot := by decide
  simp [resolve, different, ordinary]

/-- `..` never leads to an ordinary descendant. -/
theorem resolve_dotdot_ne {absolute : Bool} {names rest : List Bytes} (nonempty : rest ≠ [])
    (ordinary : dotdot ∉ rest) : resolve absolute names dotdot ≠ names ++ rest := by
  intro same
  have lengths := congrArg List.length same
  have positive := List.length_pos_iff.mpr nonempty
  unfold resolve at same lengths
  rw [if_neg (by decide : dotdot ≠ dot), if_pos rfl] at same lengths
  split at same
  case isTrue => exact nonempty (List.self_eq_append_right.mp same)
  case isFalse notTop =>
    rw [if_neg notTop] at lengths
    split at same
    case isTrue =>
      rw [← List.append_cancel_left same] at ordinary
      exact ordinary (List.mem_singleton_self _)
    case isFalse notBack =>
      rw [if_neg notBack, List.length_dropLast, List.length_append] at lengths
      omega

/-- A `..` that stayed in a relative path is never taken back. -/
theorem dotdot_mem_resolve {names : List Bytes} {name : Bytes} (member : dotdot ∈ names) :
    dotdot ∈ resolve false names name := by
  by_cases isDot : name = dot
  · rw [isDot, resolve_dot]
    exact member
  by_cases isDotdot : name = dotdot
  · obtain ⟨front, last, rfl⟩ := (List.eq_nil_or_concat names).resolve_left (List.ne_nil_of_mem member)
    rw [List.concat_eq_append] at member ⊢
    by_cases kept : last = dotdot
    · have different : dotdot ≠ dot := by decide
      simp [resolve, isDotdot, different, kept]
    · rw [isDotdot, resolve_back kept]
      simpa [Ne.symm kept] using member
  · rw [resolve_name isDot isDotdot]
    exact List.mem_append_left _ member

theorem dotdot_mem_foldl {names : List Bytes} (comps : List Bytes) (member : dotdot ∈ names) :
    dotdot ∈ comps.foldl (resolve false) names := by
  induction comps generalizing names with
  | nil => exact member
  | cons name rest ih => exact ih (dotdot_mem_resolve member)

/-- A walk that stays below its start resolves to ordinary names after
whatever names it started from. -/
theorem foldl_resolve_of_walk {absolute : Bool} {base : List Bytes} {comps names : List Bytes} {depth : Nat}
    (ordinary : dotdot ∉ names) (walked : walk names.length comps = some depth) :
    ∃ rest, rest.length = depth ∧ dotdot ∉ rest ∧ comps.foldl (resolve absolute) (base ++ names) = base ++ rest := by
  induction comps generalizing names with
  | nil => exact ⟨names, Option.some.inj walked, ordinary, rfl⟩
  | cons name rest ih =>
    rw [List.foldl_cons]
    unfold walk at walked
    by_cases isDot : name = dot
    · rw [if_pos isDot] at walked
      rw [isDot, resolve_dot]
      exact ih ordinary walked
    rw [if_neg isDot] at walked
    by_cases isDotdot : name = dotdot
    · rw [if_pos isDotdot] at walked
      rcases List.eq_nil_or_concat names with rfl | ⟨front, last, rfl⟩
      · cases walked
      · simp only [List.concat_eq_append, List.length_append, List.length_singleton] at walked
        simp only [List.concat_eq_append, List.mem_append, List.mem_singleton, not_or] at ordinary
        rw [isDotdot, List.concat_eq_append, ← List.append_assoc, resolve_back (Ne.symm ordinary.2)]
        exact ih ordinary.1 walked
    · rw [if_neg isDotdot] at walked
      rw [resolve_name isDot isDotdot, List.append_assoc]
      refine ih ?_ (by rwa [List.length_append, List.length_singleton])
      simp only [List.mem_append, List.mem_singleton, not_or]
      exact ⟨ordinary, Ne.symm isDotdot⟩

/-- A walk that goes above its start leaves a `..` behind. -/
theorem dotdot_of_walk {comps names : List Bytes} (ordinary : dotdot ∉ names)
    (left : walk names.length comps = none) : dotdot ∈ comps.foldl (resolve false) names := by
  induction comps generalizing names with
  | nil => cases left
  | cons name rest ih =>
    rw [List.foldl_cons]
    unfold walk at left
    by_cases isDot : name = dot
    · rw [if_pos isDot] at left
      rw [isDot, resolve_dot]
      exact ih ordinary left
    rw [if_neg isDot] at left
    by_cases isDotdot : name = dotdot
    · rw [if_pos isDotdot] at left
      rcases List.eq_nil_or_concat names with rfl | ⟨front, last, rfl⟩
      · rw [isDotdot]
        exact dotdot_mem_foldl rest (by decide)
      · simp only [List.concat_eq_append, List.length_append, List.length_singleton] at left
        simp only [List.concat_eq_append, List.mem_append, List.mem_singleton, not_or] at ordinary
        rw [isDotdot, List.concat_eq_append, resolve_back (Ne.symm ordinary.2)]
        exact ih ordinary.1 left
    · rw [if_neg isDotdot] at left
      rw [resolve_name isDot isDotdot]
      refine ih ?_ (by rwa [List.length_append, List.length_singleton])
      simp only [List.mem_append, List.mem_singleton, not_or]
      exact ⟨ordinary, Ne.symm isDotdot⟩

theorem Descends.strictlyInside (descends : q.Descends) (dir : Path) : dir.StrictlyInside (dir / q) := by
  obtain ⟨relative, depth, walked⟩ := descends
  obtain ⟨rest, length, ordinary, names⟩ :=
    @foldl_resolve_of_walk dir.isAbsolute dir.lexicallyNormal.names q.components [] _ List.not_mem_nil walked
  rw [List.append_nil] at names
  refine strictlyInside_iff.mpr ⟨rest, ?_, ordinary, ?_⟩
  · rintro rfl
    cases length
  · rw [append_lexicallyNormal relative, names]

/-- A path lies inside every directory it is appended to exactly when it is
relative and descends: an absolute path is not inside itself, and one that
climbs is not inside the current directory. -/
theorem strictlyInside_forall : (∀ dir : Path, dir.StrictlyInside (dir / q)) ↔ q.Descends := by
  refine ⟨fun inside => ?_, fun descends dir => descends.strictlyInside dir⟩
  have relative : q.isAbsolute = false := by
    by_contra absolute
    rw [Bool.not_eq_false] at absolute
    have self := (inside q).2
    rw [append_absolute absolute] at self
    exact self rfl
  refine ⟨relative, ?_⟩
  obtain ⟨rest, nonempty, ordinary, names⟩ := strictlyInside_iff.mp (inside ⟨dot⟩)
  rw [append_lexicallyNormal relative] at names
  have resolved : q.components.foldl (resolve false) [] = rest := (Normal.mk.injEq .. ▸ names).2
  cases walked : walk 0 q.components with
  | none =>
    have climbed := @dotdot_of_walk q.components [] List.not_mem_nil walked
    rw [resolved] at climbed
    exact absurd climbed ordinary
  | some depth =>
    obtain ⟨rest', length, _, names'⟩ := @foldl_resolve_of_walk false [] q.components [] _ List.not_mem_nil walked
    simp only [List.append_nil, List.nil_append] at names'
    cases depth with
    | zero =>
      rw [← resolved, names', List.eq_nil_of_length_eq_zero length] at nonempty
      exact absurd rfl nonempty
    | succ depth => exact ⟨depth, rfl⟩

end Cpp.Path
