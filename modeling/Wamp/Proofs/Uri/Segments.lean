import Wamp.Uri.Basic

/-!
# The segments of a URI

Splitting a URI and joining its segments with dots undo each other (`intercalate_segments`,
`segments_intercalate_iff`), so two URIs with the same segments are the same URI, and a dot between
two URIs joins their segments (`segments_append_dot`). The two comparisons of a pattern with the
segments of a URI are what they are meant to be: one asks for an initial sublist, the other for
equal segments wherever the pattern has one. The rank of a pattern counts the places where it has
one (`specificity_eq_countP`).
-/

namespace Wamp

namespace Uri

/-! ## Splitting and joining -/

/-- Splitting at dots is splitting at a character. -/
theorem splitDots_eq_splitOn (cs : List Char) : splitDots cs = cs.splitOn '.' := by
  induction cs with
  | nil => rfl
  | cons c cs ih =>
    rw [splitDots, List.splitOn_cons_eq_if_modifyHead, ih]
    by_cases h : c = '.'
    · simp [h]
    -- The character joins the first part, of which there is always one.
    · obtain ⟨part, parts, hparts⟩ := List.exists_cons_of_ne_nil (List.splitOn_ne_nil '.' cs)
      simp [h, hparts, consFirst]

/-- There is at least one part. -/
theorem splitDots_ne_nil (cs : List Char) : splitDots cs ≠ [] := by
  rw [splitDots_eq_splitOn]
  exact List.splitOn_ne_nil '.' cs

/-- No part between dots holds a dot. -/
theorem dot_notMem_of_mem_splitDots {cs part : List Char} (h : part ∈ splitDots cs) :
    '.' ∉ part := by
  induction cs generalizing part with
  | nil =>
    obtain rfl := List.mem_singleton.mp h
    exact List.not_mem_nil
  | cons c cs ih =>
    obtain ⟨first, rest, hparts⟩ := List.exists_cons_of_ne_nil (splitDots_ne_nil cs)
    rw [splitDots, hparts] at h
    rw [hparts] at ih
    split at h
    · rcases List.mem_cons.mp h with rfl | h
      · exact List.not_mem_nil
      · exact ih h
    -- The character is put in front of the first part and is no dot.
    · next hc =>
      rcases List.mem_cons.mp h with rfl | h
      · rw [List.mem_cons, not_or]
        exact ⟨fun heq => hc heq.symm, ih List.mem_cons_self⟩
      · exact ih (List.mem_cons_of_mem _ h)

/-- The characters of the segments are the parts between dots. -/
theorem map_toList_segments (u : String) :
    (segments u).map String.toList = u.toList.splitOn '.' := by
  have hid : String.toList ∘ String.ofList = id := funext fun _ => String.toList_ofList
  rw [segments, List.map_map, hid, List.map_id, splitDots_eq_splitOn]

/-- Segments are known by their characters. -/
theorem eq_of_map_toList {l l' : List String} (h : l.map String.toList = l'.map String.toList) :
    l = l' :=
  (List.map_inj_right fun _ _ => String.toList_inj.mp).mp h

/-- A URI has at least one segment. -/
theorem segments_ne_nil (u : String) : segments u ≠ [] := by
  intro h
  exact splitDots_ne_nil u.toList (List.map_eq_nil_iff.mp h)

/-- No segment holds a dot. -/
theorem dot_notMem_of_mem_segments {u segment : String} (h : segment ∈ segments u) :
    '.' ∉ segment.toList := by
  obtain ⟨part, hpart, rfl⟩ := List.mem_map.mp h
  rw [String.toList_ofList]
  exact dot_notMem_of_mem_splitDots hpart

/-- The segments of a URI, joined with dots, are the URI again. -/
theorem intercalate_segments (u : String) : ".".intercalate (segments u) = u := by
  apply String.toList_inj.mp
  calc (".".intercalate (segments u)).toList
      = ['.'].intercalate ((segments u).map String.toList) := String.toList_intercalate
    _ = ['.'].intercalate (u.toList.splitOn '.') := by rw [map_toList_segments]
    _ = u.toList := List.intercalate_splitOn '.'

/-- A URI is determined by its segments. -/
theorem segments_injective {u v : String} (h : segments u = segments v) : u = v := by
  rw [← intercalate_segments u, h, intercalate_segments]

/-- Strings that are joined with dots are the segments of the result if there is one at least and
none of them holds a dot. -/
theorem segments_intercalate_iff {parts : List String} :
    segments (".".intercalate parts) = parts ↔
      parts ≠ [] ∧ ∀ part ∈ parts, '.' ∉ part.toList := by
  constructor
  · intro h
    refine ⟨h ▸ segments_ne_nil _, fun part hpart => ?_⟩
    rw [← h] at hpart
    exact dot_notMem_of_mem_segments hpart
  · rintro ⟨hne, hdots⟩
    apply eq_of_map_toList
    have hsome : parts.map String.toList ≠ [] := mt List.map_eq_nil_iff.mp hne
    rw [map_toList_segments, String.toList_intercalate]
    exact List.splitOn_intercalate '.' (List.forall_mem_map.mpr hdots) hsome

/-- A dot between two strings puts the segments of the one in front of those of the other. -/
theorem segments_append_dot (u v : String) :
    segments (u ++ "." ++ v) = segments u ++ segments v := by
  apply eq_of_map_toList
  have hchars : (u ++ "." ++ v).toList = u.toList ++ '.' :: v.toList := by simp
  rw [List.map_append, map_toList_segments, map_toList_segments, map_toList_segments, hchars]
  exact List.splitOn_append_cons_self u.toList v.toList

/-! ## Comparing -/

/-- Of the strings whose segments begin those of a URI, no two have the same number of segments. -/
theorem eq_of_prefix_of_length {p q u : String} (hp : segments p <+: segments u)
    (hq : segments q <+: segments u) (hlen : (segments p).length = (segments q).length) :
    p = q := by
  have hlead := List.prefix_of_prefix_length_le hp hq (Nat.le_of_eq hlen)
  exact segments_injective (hlead.eq_of_length hlen)

/-- What makes a pattern specific is counted: it is the number of segments that are not empty. -/
theorem specificity_eq_countP (segments : List String) :
    specificity segments = segments.countP (· ≠ "") :=
  List.countP_eq_length_filter.symm

/-- A pattern leads segments when they begin with it. -/
theorem matchesLeading_iff {ps ss : List String} : matchesLeading ps ss = true ↔ ps <+: ss := by
  induction ps generalizing ss with
  | nil => simp [matchesLeading]
  | cons p ps ih =>
    cases ss with
    | nil => simp [matchesLeading]
    | cons s ss => simp [matchesLeading, ih, List.cons_prefix_cons]

/-- A pattern fits segments when it has as many and each of its own that holds a character is the
one that stands at its place. -/
theorem matchesWildcard_iff {ps ss : List String} :
    matchesWildcard ps ss = true ↔
      ps.length = ss.length ∧ ∀ (i : Nat) p, ps[i]? = some p → p ≠ "" → ss[i]? = some p := by
  induction ps generalizing ss with
  | nil => cases ss <;> simp [matchesWildcard]
  | cons p ps ih =>
    cases ss with
    | nil => simp [matchesWildcard]
    | cons s ss =>
      simp only [matchesWildcard, Bool.and_eq_true, Bool.or_eq_true, decide_eq_true_eq, ih,
        List.length_cons, Nat.add_right_cancel_iff]
      constructor
      · rintro ⟨hhead, hlen, htail⟩
        refine ⟨hlen, fun i q hq hne => ?_⟩
        -- The head answers for index zero and the tail for the others.
        cases i with
        | zero =>
          obtain rfl : p = q := by simpa using hq
          rcases hhead with h | rfl
          · exact absurd h hne
          · rfl
        | succ i => exact htail i q hq hne
      · rintro ⟨hlen, hall⟩
        refine ⟨?_, hlen, fun i q hq hne => hall (i + 1) q hq hne⟩
        by_cases h : p = ""
        · exact .inl h
        · have hs := hall 0 p rfl h
          exact .inr (Option.some.inj hs).symm

end Uri

end Wamp
