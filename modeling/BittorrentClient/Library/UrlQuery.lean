import BittorrentClient.Library.TextStream
import Mathlib.Algebra.BigOperators.Group.List.Basic

namespace Cpp

/-- Percent-decoding. A percent sign without two digits behind it stays. -/
def percentDecode : Bytes → Bytes
  | [] => []
  | 37 :: a :: b :: rest =>
    match hexValue a, hexValue b with
    | some high, some low => UInt8.ofNat (16 * high + low) :: percentDecode rest
    | _, _ => 37 :: percentDecode (a :: b :: rest)
  | c :: rest => c :: percentDecode rest

/-- The name and the value of one parameter, on either side of its first `=`. -/
def parameter (piece : Bytes) : Bytes × Bytes :=
  (percentDecode (piece.takeWhile (· ≠ 61)), percentDecode ((piece.dropWhile (· ≠ 61)).drop 1))

/-- The parameters of a query, which `&` separates. -/
def parameters (query : Bytes) : List (Bytes × Bytes) := ((query.splitOn 38).filter (· ≠ [])).map parameter

/-- What follows the first `?`. -/
def queryOf (target : Bytes) : Bytes := (target.dropWhile (· ≠ 63)).drop 1

section Decode
variable {c : UInt8} {rest : Bytes}

theorem percentDecode_cons (other : c ≠ 37) (rest : Bytes) : percentDecode (c :: rest) = c :: percentDecode rest := by
  rw [percentDecode]
  intro _ _ _ same
  exact absurd same other

theorem percentDecode_plain {bytes : Bytes} (plain : 37 ∉ bytes) : percentDecode bytes = bytes := by
  induction bytes with
  | nil => rfl
  | cons c rest ih =>
    have other : c ≠ 37 := fun same => plain (same ▸ List.mem_cons_self)
    rw [percentDecode_cons other, ih fun member => plain (List.mem_cons_of_mem c member)]

theorem percentDecode_escape {a b : UInt8} {high low : Nat} (first : hexValue a = some high) (second : hexValue b = some low)
    (rest : Bytes) : percentDecode (37 :: a :: b :: rest) = UInt8.ofNat (16 * high + low) :: percentDecode rest := by
  rw [percentDecode, first, second]

/-- A percent sign that introduces no escape. -/
theorem percentDecode_lone {a b : UInt8} (rest : Bytes) (none : hexValue a = none ∨ hexValue b = none) :
    percentDecode (37 :: a :: b :: rest) = 37 :: percentDecode (a :: b :: rest) := by
  rw [percentDecode]
  rcases none with first | second
  · rw [first]
  · rw [second]
    cases hexValue a with
    | none => rfl
    | some => rfl

/-- No escape goes over a character that is no digit. -/
theorem percentDecode_break (solid : hexValue c = none) (other : c ≠ 37) (front back : Bytes) :
    percentDecode (front ++ c :: back) = percentDecode front ++ c :: percentDecode back := by
  induction front using percentDecode.induct with
  | case1 => exact percentDecode_cons other back
  | case2 a b rest high low second first ih =>
    rw [percentDecode_escape first second]
    exact (percentDecode_escape first second _).trans (congrArg (List.cons _) ih)
  | case3 a b rest incomplete ih =>
    have none : hexValue a = none ∨ hexValue b = none := by
      cases first : hexValue a with
      | none => exact Or.inl rfl
      | some high =>
        cases second : hexValue b with
        | none => exact Or.inr rfl
        | some low => exact absurd second (incomplete high low first)
    rw [percentDecode_lone rest none]
    exact (percentDecode_lone _ none).trans (congrArg (List.cons 37) ih)
  | case4 d rest short ih =>
    by_cases mark : d = 37
    · subst mark
      match rest, short, ih with
      | [], _, _ =>
        have later : percentDecode (c :: back) = c :: percentDecode back := percentDecode_cons other back
        cases back with
        | nil => exact congrArg (List.cons 37) later
        | cons e more => exact (percentDecode_lone more (Or.inl solid)).trans (congrArg (List.cons 37) later)
      | [a], _, ih => exact (percentDecode_lone back (Or.inr solid)).trans (congrArg (List.cons 37) ih)
      | a :: b :: more, short, _ => exact absurd rfl (short a b more rfl)
    · rw [List.cons_append, percentDecode_cons mark, percentDecode_cons mark, ih, List.cons_append]

end Decode

section Parameters
variable {piece name value : Bytes} {b : UInt8}

theorem parameters_append (front back : Bytes) : parameters (front ++ 38 :: back) = parameters front ++ parameters back := by
  rw [parameters, List.splitOn_append_cons_self, List.filter_append, List.map_append]
  rfl

theorem parameters_piece (whole : 38 ∉ piece) (some : piece ≠ []) : parameters piece = [parameter piece] := by
  rw [parameters, List.splitOn_eq_singleton whole, List.filter_cons_of_pos (by simpa using some)]
  rfl

theorem parameter_pair (plain : 61 ∉ name) (value : Bytes) :
    parameter (name ++ 61 :: value) = (percentDecode name, percentDecode value) := by
  have different : ∀ c ∈ name, decide (c ≠ 61) = true := fun c member => decide_eq_true fun same => plain (same ▸ member)
  rw [parameter, List.takeWhile_append_of_pos different, List.dropWhile_append_of_pos different,
    List.takeWhile_cons_of_neg (by decide), List.dropWhile_cons_of_neg (by decide), List.append_nil, List.drop_one,
    List.tail_cons]

/-- One parameter with its name and value in front of the others. -/
theorem parameters_cons (plain : 61 ∉ name) (whole : 38 ∉ name ++ 61 :: value) (rest : Bytes) :
    parameters (name ++ 61 :: value ++ 38 :: rest) = (percentDecode name, percentDecode value) :: parameters rest := by
  have some : name ++ 61 :: value ≠ [] := List.append_ne_nil_of_right_ne_nil name (List.cons_ne_nil _ _)
  rw [parameters_append, parameters_piece whole some, parameter_pair plain, List.singleton_append]

/-- How often a byte is in the names and values. -/
def weight (b : UInt8) (entries : List (Bytes × Bytes)) : Nat :=
  (entries.map fun entry => entry.1.count b + entry.2.count b).sum

theorem weight_append (first second : List (Bytes × Bytes)) : weight b (first ++ second) = weight b first + weight b second := by
  rw [weight, List.map_append, List.sum_append]
  rfl

theorem weight_perm {first second : List (Bytes × Bytes)} (perm : first.Perm second) : weight b first = weight b second :=
  (perm.map _).sum_eq

theorem weight_piece (apart : b ≠ 61) (whole : 38 ∉ piece) : weight b (parameters piece) = (percentDecode piece).count b := by
  by_cases some : piece = []
  · subst some
    rfl
  · have single : weight b (parameters piece) = (parameter piece).1.count b + (parameter piece).2.count b := by
      rw [parameters_piece whole some]
      exact Nat.add_zero _
    rw [single]
    by_cases pair : 61 ∈ piece
    · obtain ⟨front, back, rfl, first⟩ := List.eq_append_cons_of_mem pair
      rw [parameter_pair first, percentDecode_break (by decide) (by decide), List.count_append,
        List.count_cons_of_ne (Ne.symm apart)]
    · have all : ∀ c ∈ piece, decide (c ≠ 61) = true := fun c member => decide_eq_true fun same => pair (same ▸ member)
      have taken : piece.takeWhile (· ≠ 61) = piece := List.takeWhile_eq_self_iff.mpr all
      have dropped : piece.dropWhile (· ≠ 61) = [] := List.dropWhile_eq_nil_iff.mpr all
      rw [parameter, taken, dropped]
      exact Nat.add_zero _

/-- Splitting and decoding lose no byte but the separators. -/
theorem weight_parameters (apart : b ≠ 38) (apart' : b ≠ 61) (query : Bytes) :
    weight b (parameters query) = (percentDecode query).count b := by
  induction length : query.length using Nat.strongRecOn generalizing query with
  | ind n ih =>
    by_cases separated : 38 ∈ query
    · obtain ⟨front, back, rfl⟩ := List.append_of_mem separated
      rw [List.length_append, List.length_cons] at length
      rw [parameters_append, weight_append, ih front.length (by omega) front rfl, ih back.length (by omega) back rfl,
        percentDecode_break (by decide) (by decide), List.count_append, List.count_cons_of_ne (Ne.symm apart)]
    · exact weight_piece apart' separated

/-- Only separators make no parameter. -/
theorem parameters_eq_nil {query : Bytes} : parameters query = [] ↔ ∀ c ∈ query, c = 38 := by
  induction length : query.length using Nat.strongRecOn generalizing query with
  | ind n ih =>
    by_cases separated : 38 ∈ query
    · obtain ⟨front, back, rfl⟩ := List.append_of_mem separated
      rw [List.length_append, List.length_cons] at length
      rw [parameters_append, List.append_eq_nil_iff, ih front.length (by omega) rfl, ih back.length (by omega) rfl]
      simp only [List.mem_append, List.mem_cons]
      constructor
      · rintro ⟨inFront, inBack⟩ c (member | rfl | member)
        · exact inFront c member
        · rfl
        · exact inBack c member
      · intro all
        exact ⟨fun c member => all c (Or.inl member), fun c member => all c (Or.inr (Or.inr member))⟩
    · cases query with
      | nil => exact ⟨fun _ _ member => absurd member List.not_mem_nil, fun _ => rfl⟩
      | cons c rest =>
        rw [parameters_piece separated (List.cons_ne_nil c rest)]
        refine ⟨fun none => absurd none (List.cons_ne_nil _ _), fun all => ?_⟩
        exact absurd (all c List.mem_cons_self ▸ List.mem_cons_self) separated

end Parameters

section Query
variable {front : Bytes}

theorem queryOf_append (plain : 63 ∉ front) (back : Bytes) : queryOf (front ++ 63 :: back) = back := by
  have different : ∀ c ∈ front, decide (c ≠ 63) = true := fun c member => decide_eq_true fun same => plain (same ▸ member)
  rw [queryOf, List.dropWhile_append_of_pos different, List.dropWhile_cons_of_neg (by decide), List.drop_one, List.tail_cons]

theorem queryOf_plain (plain : 63 ∉ front) : queryOf front = [] := by
  have different : ∀ c ∈ front, decide (c ≠ 63) = true := fun c member => decide_eq_true fun same => plain (same ▸ member)
  rw [queryOf, List.dropWhile_eq_nil_iff.mpr different, List.drop_nil]

end Query

end Cpp
