import Wamp.Proofs.Uri.Segments

/-!
# Patterns and URIs as strings

The comparisons of patterns look at segments, one index after the other. What they find can be told
from the strings as they were before they were split: a prefix leads itself and the strings that
begin with it and a dot (`matchesLeading_segments_iff`), and a wildcard pattern fits the strings
that come out when each of its empty segments is replaced by a string without dots
(`matchesWildcard_segments_iff`). Both rest on splitting and joining being inverse to each other, so
that neither is misled by empty strings or by dots that lead, trail or follow each other.
`comparison_segments` puts the results together.
-/

namespace Wamp

namespace Uri

variable {p q u : String}

/-! ## Prefixes -/

/-- A prefix leads a URI that it is equal to, or that begins with it and a dot. -/
theorem matchesLeading_segments_iff :
    matchesLeading (segments p) (segments u) = true ↔ u = p ∨ ∃ rest, u = p ++ "." ++ rest := by
  rw [matchesLeading_iff]
  constructor
  · rintro ⟨tail, htail⟩
    by_cases hnil : tail = []
    · rw [hnil, List.append_nil] at htail
      exact .inl (segments_injective htail.symm)
    -- What is left of the URI consists of its own segments, which are those of their join.
    · have hdots : ∀ part ∈ tail, '.' ∉ part.toList := fun part hpart =>
        dot_notMem_of_mem_segments (htail ▸ List.mem_append_right _ hpart)
      have hrest : segments (".".intercalate tail) = tail :=
        segments_intercalate_iff.mpr ⟨hnil, hdots⟩
      refine .inr ⟨".".intercalate tail, segments_injective ?_⟩
      rw [segments_append_dot, hrest, htail]
  · rintro (rfl | ⟨rest, rfl⟩)
    · exact List.prefix_rfl
    · rw [segments_append_dot]
      exact List.prefix_append _ _

/-- No two prefixes with as many segments lead one URI. -/
theorem eq_of_matchesLeading (hp : matchesLeading (segments p) (segments u) = true)
    (hq : matchesLeading (segments q) (segments u) = true)
    (hlen : (segments p).length = (segments q).length) : p = q :=
  eq_of_prefix_of_length (matchesLeading_iff.mp hp) (matchesLeading_iff.mp hq) hlen

/-! ## Wildcard patterns -/

/-- The segments of a pattern, with a string in the place of each empty one. -/
def fillSegments (fill : Nat → String) (pattern : List String) : List String :=
  pattern.mapIdx fun i segment => if segment = "" then fill i else segment

/-- A pattern with each of its empty segments replaced by the string for its index. -/
def filled (fill : Nat → String) (pattern : String) : String :=
  ".".intercalate (fillSegments fill (segments pattern))

section

variable {fill : Nat → String} {pattern ss : List String}

/-- What stands at an index of the filled segments. -/
theorem getElem?_fillSegments (fill : Nat → String) (pattern : List String) (i : Nat) :
    (fillSegments fill pattern)[i]? =
      pattern[i]?.map fun segment => if segment = "" then fill i else segment :=
  List.getElem?_mapIdx

/-- There are as many segments after filling as before. -/
theorem length_fillSegments (fill : Nat → String) (pattern : List String) :
    (fillSegments fill pattern).length = pattern.length :=
  List.length_mapIdx

/-- A pattern fits its own segments, whatever they are filled with. -/
theorem matchesWildcard_fillSegments (fill : Nat → String) (pattern : List String) :
    matchesWildcard pattern (fillSegments fill pattern) = true := by
  refine matchesWildcard_iff.mpr ⟨(length_fillSegments fill pattern).symm, fun i s hs hne => ?_⟩
  rw [getElem?_fillSegments, hs, Option.map_some, if_neg hne]

/-- Segments that a pattern fits are what the pattern is filled to with them. -/
theorem fillSegments_of_matchesWildcard (h : matchesWildcard pattern ss = true) :
    fillSegments (fun i => ss[i]?.getD "") pattern = ss := by
  obtain ⟨hlen, hsegments⟩ := matchesWildcard_iff.mp h
  refine List.mapIdx_eq_iff.mpr fun i => ?_
  cases hi : pattern[i]? with
  | none =>
    have hle : ss.length ≤ i := hlen ▸ List.getElem?_eq_none_iff.mp hi
    rw [List.getElem?_eq_none_iff.mpr hle, Option.map_none]
  | some segment =>
    rw [Option.map_some]
    by_cases hempty : segment = ""
    · have hlt : i < ss.length := hlen ▸ (List.getElem?_eq_some_iff.mp hi).1
      simp only [if_pos hempty, List.getElem?_eq_getElem hlt, Option.getD_some]
    · rw [if_neg hempty]
      exact hsegments i segment hi hempty

/-- There is nothing to fill in a pattern without empty segments. -/
theorem fillSegments_of_notMem (h : "" ∉ pattern) : fillSegments fill pattern = pattern := by
  refine List.mapIdx_eq_iff.mpr fun i => ?_
  cases hi : pattern[i]? with
  | none => rfl
  | some segment =>
    have hne : segment ≠ "" := fun heq => h (heq ▸ List.mem_of_getElem? hi)
    rw [Option.map_some, if_neg hne]

/-- Filling with strings without dots puts no dot into the segments of a pattern. -/
theorem dot_notMem_of_mem_fillSegments (hfill : ∀ i, '.' ∉ (fill i).toList) {s : String}
    (hs : s ∈ fillSegments fill (segments p)) : '.' ∉ s.toList := by
  obtain ⟨i, hi⟩ := List.mem_iff_getElem?.mp hs
  rw [getElem?_fillSegments, Option.map_eq_some_iff] at hi
  obtain ⟨segment, hsegment, rfl⟩ := hi
  split
  · exact hfill i
  · exact dot_notMem_of_mem_segments (List.mem_of_getElem? hsegment)

/-- A pattern that is filled with strings without dots has the segments of the pattern, filled with
these strings. -/
theorem segments_filled (hfill : ∀ i, '.' ∉ (fill i).toList) (p : String) :
    segments (filled fill p) = fillSegments fill (segments p) := by
  have hne : fillSegments fill (segments p) ≠ [] := by
    intro hnil
    have hlen := length_fillSegments fill (segments p)
    rw [hnil, List.length_nil] at hlen
    exact segments_ne_nil p (List.eq_nil_of_length_eq_zero hlen.symm)
  have hdots : ∀ s ∈ fillSegments fill (segments p), '.' ∉ s.toList :=
    fun s => dot_notMem_of_mem_fillSegments hfill
  exact segments_intercalate_iff.mpr ⟨hne, hdots⟩

end

/-- A wildcard pattern fits the URIs that it becomes when its empty segments are replaced by strings
without dots. -/
theorem matchesWildcard_segments_iff :
    matchesWildcard (segments p) (segments u) = true ↔
      ∃ fill : Nat → String, (∀ i, '.' ∉ (fill i).toList) ∧ u = filled fill p := by
  constructor
  · intro h
    refine ⟨fun i => (segments u)[i]?.getD "", fun i => ?dots, ?filled⟩
    case dots =>
      -- The URI's own segments hold no dot, and beyond them there is the empty string.
      dsimp only
      cases hi : (segments u)[i]? with
      | none => exact List.not_mem_nil
      | some segment => exact dot_notMem_of_mem_segments (List.mem_of_getElem? hi)
    case filled =>
      rw [filled, fillSegments_of_matchesWildcard h, intercalate_segments]
  · rintro ⟨fill, hfill, rfl⟩
    rw [segments_filled hfill]
    exact matchesWildcard_fillSegments fill (segments p)

/-- A wildcard pattern without empty segments fits itself alone. -/
theorem matchesWildcard_segments_iff_of_notMem (h : "" ∉ segments p) :
    matchesWildcard (segments p) (segments u) = true ↔ u = p := by
  have hfilled (fill : Nat → String) : filled fill p = p := by
    rw [filled, fillSegments_of_notMem h, intercalate_segments]
  rw [matchesWildcard_segments_iff]
  constructor
  · rintro ⟨fill, -, rfl⟩
    exact hfilled fill
  · rintro rfl
    exact ⟨fun _ => "", fun _ => List.not_mem_nil, (hfilled _).symm⟩

/-! ## Both -/

/-- How the segments of a pattern and of a URI show in the two strings. -/
structure Comparison (p u : String) : Prop where
  /-- The segments of a URI, joined with dots, are the URI again. -/
  joined : ".".intercalate (segments u) = u
  /-- Joining a list of strings with dots is undone by splitting exactly if there is at least one of
  them and none holds a dot. -/
  split : ∀ parts, segments (".".intercalate parts) = parts ↔
    parts ≠ [] ∧ ∀ part ∈ parts, '.' ∉ part.toList
  /-- Different strings have different segments. -/
  injective : segments p = segments u → p = u
  /-- A prefix leads itself and what begins with it and a dot. -/
  leading : matchesLeading (segments p) (segments u) = true ↔ u = p ∨ ∃ rest, u = p ++ "." ++ rest
  /-- A wildcard pattern fits what it becomes when each of its empty segments is replaced by a
  string without dots. -/
  wildcard : matchesWildcard (segments p) (segments u) = true ↔
    ∃ fill : Nat → String, (∀ i, '.' ∉ (fill i).toList) ∧ u = filled fill p
  /-- A wildcard pattern without empty segments fits itself alone. -/
  itself : "" ∉ segments p → (matchesWildcard (segments p) (segments u) = true ↔ u = p)
  /-- No other prefix with as many segments leads the same URI. -/
  unique : ∀ q ≠ p, (segments q).length = (segments p).length →
    ¬ (matchesLeading (segments p) (segments u) = true ∧
      matchesLeading (segments q) (segments u) = true)

/-- Whatever the strings, the comparison of their segments agrees with the comparison of the strings
themselves. -/
theorem comparison_segments (p u : String) : Comparison p u where
  joined := intercalate_segments u
  split _ := segments_intercalate_iff
  injective := segments_injective
  leading := matchesLeading_segments_iff
  wildcard := matchesWildcard_segments_iff
  itself := matchesWildcard_segments_iff_of_notMem
  unique _ hne hlen h := hne (eq_of_matchesLeading h.2 h.1 hlen)

example : matchesLeading (segments "com.example") (segments "com.example.") = true ∧
    matchesLeading (segments "com.example") (segments "com.examples") = false ∧
    matchesWildcard (segments ".a..") (segments "x.a..y") = true := by
  decide

end Uri

end Wamp
