import Mathlib.Computability.Language
import Wamp.Proofs.Uri.Grammar

/-!
# The language of URIs

Which strings are URIs under a policy can be said in two ways that do not mention the pass that
accepts them. One splits the string at its dots and looks at each segment by itself
(`isUri_iff_segments`), the other matches the string as a whole against a regular expression, in
which segments that end in a dot are repeated in front of the last one (`isUri_iff_expression`). The
expression for patterns matches the empty string too, so that one is excluded beforehand. What the
policies have to do with each other then follows from what they ask of a segment
(`acceptance_isUri`).
-/

namespace Wamp

namespace Uri

open scoped Computability

/-! ## Characters -/

/-- The characters that count as white space. -/
def whiteSpace : List Char :=
  ['\t', '\n', '\x0b', '\x0c', '\r', ' ', '\u00a0', '\u1680', '\u2000', '\u2001', '\u2002',
    '\u2003', '\u2004', '\u2005', '\u2006', '\u2007', '\u2008', '\u2009', '\u200a', '\u2028',
    '\u2029', '\u202f', '\u205f', '\u3000', '\ufeff']

/-- A character that a policy allows in segments: a digit, a lower case letter or the underscore
under a policy that asks for strictness, anything but the hash sign and white space under one that
does not ask for it or leaves it undefined. -/
def Allowed (policy : Policy) (c : Char) : Prop :=
  if policy.strict = some true then ('0' ≤ c ∧ c ≤ '9') ∨ ('a' ≤ c ∧ c ≤ 'z') ∨ c = '_'
  else c ≠ '#' ∧ c ∉ whiteSpace

/-- A policy holds segments to the strict alphabet if it asks for strictness. -/
theorem isStrict_iff {policy : Policy} : policy.isStrict = true ↔ policy.strict = some true := by
  rcases policy with ⟨_ | strict, matching⟩ <;> simp [Policy.isStrict]

/-- A policy lets segments be empty if it is for patterns. -/
theorem allowsEmpty_iff {policy : Policy} :
    policy.allowsEmpty = true ↔ policy.matching = some .wildcard :=
  decide_eq_true_iff

/-- The ranges of blanks hold the white space and nothing else. -/
theorem isBlank_iff {c : Char} : isBlank c = true ↔ c ∈ whiteSpace := by
  have hcode : c ∈ whiteSpace ↔ c.toNat ∈ whiteSpace.map Char.toNat := by
    constructor
    · exact fun h => List.mem_map_of_mem h
    · intro h
      obtain ⟨d, hd, heq⟩ := List.mem_map.mp h
      exact Char.toNat_inj.mp heq ▸ hd
  rw [hcode]
  simp only [isBlank, blankRanges, whiteSpace, List.any_cons, List.any_nil, Bool.or_false,
    Bool.or_eq_true, Bool.and_eq_true, decide_eq_true_eq, List.map_cons, List.map_nil,
    List.mem_cons, List.not_mem_nil, or_false]
  simp only [Char.toNat, Char.reduceVal, UInt32.reduceToNat]
  omega

/-- Strict characters are digits, lower case letters and the underscore. -/
theorem isStrictChar_iff {c : Char} :
    isStrictChar c = true ↔ ('0' ≤ c ∧ c ≤ '9') ∨ ('a' ≤ c ∧ c ≤ 'z') ∨ c = '_' := by
  have hlower : c.isLower = (decide ('a' ≤ c) && decide (c ≤ 'z')) := rfl
  have hdigit : c.isDigit = (decide ('0' ≤ c) && decide (c ≤ '9')) := rfl
  simp only [isStrictChar, hlower, hdigit, Bool.or_eq_true, Bool.and_eq_true, decide_eq_true_eq]
  tauto

/-- Loose characters are all but the dot, the hash sign and white space. -/
theorem isLooseChar_iff {c : Char} :
    isLooseChar c = true ↔ (c ≠ '#' ∧ c ∉ whiteSpace) ∧ c ≠ '.' := by
  rw [← isBlank_iff]
  simp [isLooseChar]
  tauto

/-- The characters of a segment are those that the policy allows, other than the dot. -/
theorem isSegmentChar_iff {policy : Policy} {c : Char} :
    isSegmentChar policy.isStrict c = true ↔ Allowed policy c ∧ c ≠ '.' := by
  by_cases hstrict : policy.strict = some true
  · rw [isSegmentChar, if_pos (isStrict_iff.mpr hstrict), Allowed, if_pos hstrict,
      ← isStrictChar_iff]
    -- No dot is a strict character, so excluding it excludes nothing more.
    have hdot : isStrictChar c = true → c ≠ '.' := by
      rintro hchar rfl
      exact absurd hchar (by decide)
    exact ⟨fun h => ⟨h, hdot h⟩, fun h => h.1⟩
  · rw [isSegmentChar, if_neg (mt isStrict_iff.mp hstrict), Allowed, if_neg hstrict,
      isLooseChar_iff]

/-! ## Segments -/

/-- What a policy asks of a segment by itself. -/
structure IsSegment (policy : Policy) (segment : String) : Prop where
  allowed : ∀ c ∈ segment.toList, Allowed policy c
  /-- Only patterns may leave a segment empty. -/
  nonEmpty : policy.matching ≠ some .wildcard → segment ≠ ""

/-- A part without dots is what a policy asks for if it is a segment of the policy. -/
theorem isPart_iff_isSegment {policy : Policy} {part : List Char} (hdot : '.' ∉ part) :
    IsPart policy.isStrict policy.allowsEmpty part ↔ IsSegment policy (String.ofList part) := by
  constructor
  · rintro ⟨hchars, hnonEmpty⟩
    refine ⟨fun c hc => ?_, fun hmatching heq => ?_⟩
    · rw [String.toList_ofList] at hc
      exact (isSegmentChar_iff.mp (hchars c hc)).1
    · exact hmatching (allowsEmpty_iff.mp (hnonEmpty (String.ofList_injective heq)))
  · rintro ⟨hallowed, hnonEmpty⟩
    refine ⟨fun c hc => ?_, fun hpart => ?_⟩
    · rw [isSegmentChar_iff]
      refine ⟨hallowed c (by rwa [String.toList_ofList]), ?_⟩
      rintro rfl
      exact hdot hc
    · by_contra hmatching
      exact hnonEmpty (fun h => hmatching (allowsEmpty_iff.mpr h)) (congrArg String.ofList hpart)

/-- A string is a URI exactly if it is not empty and each of its segments is one of the policy. -/
theorem isUri_iff_segments {policy : Policy} {s : String} :
    isUri policy s = true ↔ s ≠ "" ∧ ∀ segment ∈ segments s, IsSegment policy segment := by
  rw [isUri_iff, segments, List.forall_mem_map]
  refine and_congr_right fun _ => forall₂_congr fun part hpart => ?_
  exact isPart_iff_isSegment (dot_notMem_of_mem_splitDots hpart)

/-! ## Expressions -/

/-- The words of one or more characters of a segment. -/
def word (policy : Policy) : Language Char := {w | w ≠ [] ∧ ∀ c ∈ w, Allowed policy c ∧ c ≠ '.'}

/-- The word that is a dot. -/
def dot : Language Char := {['.']}

/-- The regular expression of a policy: words that end in a dot, any number of them, and a last
word. In patterns a dot may stand by itself and the last word may be missing. -/
def expression (policy : Policy) : Language Char :=
  if policy.matching = some .wildcard then
    (word policy * dot + dot)∗ * (word policy + 1)
  else (word policy * dot)∗ * word policy

/-- Words that end in a dot, any number of them, and a last word are words with dots between
them. -/
theorem mem_kstar_mul_iff {P : Language Char} {cs : List Char} :
    cs ∈ (P * dot)∗ * P ↔
      ∃ parts ≠ [], (∀ part ∈ parts, part ∈ P) ∧ cs = ['.'].intercalate parts := by
  constructor
  · intro h
    obtain ⟨front, hfront, last, hlast, rfl⟩ := Language.mem_mul.mp h
    obtain ⟨ended, rfl, hended⟩ := Language.mem_kstar.mp hfront
    clear h hfront
    -- Each of the ended words puts one more word in front.
    induction ended with
    | nil => exact ⟨[last], List.cons_ne_nil _ _, List.forall_mem_singleton.mpr hlast, by simp⟩
    | cons w ended ih =>
      rw [List.forall_mem_cons] at hended
      obtain ⟨hw, hended⟩ := hended
      obtain ⟨part, hpart, _, rfl, rfl⟩ := Language.mem_mul.mp hw
      obtain ⟨parts, hne, hparts, heq⟩ := ih hended
      refine ⟨part :: parts, List.cons_ne_nil _ _, List.forall_mem_cons.mpr ⟨hpart, hparts⟩, ?_⟩
      obtain ⟨second, rest, rfl⟩ := List.exists_cons_of_ne_nil hne
      rw [List.flatten_cons, List.append_assoc, heq, List.intercalate_cons_cons]
  · rintro ⟨parts, hne, hparts, rfl⟩
    induction parts with
    | nil => exact absurd rfl hne
    | cons part rest ih =>
      rw [List.forall_mem_cons] at hparts
      obtain ⟨hpart, hrest⟩ := hparts
      cases rest with
      | nil => exact Language.mem_mul.mpr ⟨[], Language.nil_mem_kstar _, part, hpart, by simp⟩
      | cons second rest =>
        obtain ⟨front, hfront, last, hlast, heq⟩ :=
          Language.mem_mul.mp (ih (List.cons_ne_nil _ _) hrest)
        obtain ⟨ended, rfl, hended⟩ := Language.mem_kstar.mp hfront
        have hw : part ++ ['.'] ∈ P * dot := Language.mem_mul.mpr ⟨part, hpart, _, rfl, rfl⟩
        refine Language.mem_mul.mpr ⟨((part ++ ['.']) :: ended).flatten,
          Language.join_mem_kstar (List.forall_mem_cons.mpr ⟨hw, hended⟩), last, hlast, ?_⟩
        rw [List.intercalate_cons_cons, ← heq, List.flatten_cons, List.append_assoc]

/-- The parts that a policy allows between dots. -/
def parts (policy : Policy) : Language Char :=
  {part | IsPart policy.isStrict policy.allowsEmpty part}

/-- A policy that allows no empty segment allows the words. -/
theorem parts_of_not_wildcard {policy : Policy} (h : policy.matching ≠ some .wildcard) :
    parts policy = word policy := by
  have hempty : policy.allowsEmpty = false := Bool.eq_false_iff.mpr (mt allowsEmpty_iff.mp h)
  ext part
  constructor
  · rintro ⟨hchars, hnonEmpty⟩
    rw [hempty] at hnonEmpty
    exact ⟨fun hpart => (nomatch hnonEmpty hpart), fun c hc => isSegmentChar_iff.mp (hchars c hc)⟩
  · rintro ⟨hne, hallowed⟩
    exact ⟨fun c hc => isSegmentChar_iff.mpr (hallowed c hc), fun hpart => absurd hpart hne⟩

/-- A policy for patterns allows the words and the empty one. -/
theorem parts_of_wildcard {policy : Policy} (h : policy.matching = some .wildcard) :
    parts policy = word policy + 1 := by
  have hempty : policy.allowsEmpty = true := allowsEmpty_iff.mpr h
  ext part
  rw [Language.mem_add, Language.mem_one]
  constructor
  · rintro ⟨hchars, -⟩
    by_cases hpart : part = []
    · exact .inr hpart
    · exact .inl ⟨hpart, fun c hc => isSegmentChar_iff.mp (hchars c hc)⟩
  · rintro (⟨-, hallowed⟩ | rfl)
    · exact ⟨fun c hc => isSegmentChar_iff.mpr (hallowed c hc), fun _ => hempty⟩
    · exact ⟨nofun, fun _ => hempty⟩

/-- The expression of a policy repeats what it allows between dots. -/
theorem expression_eq (policy : Policy) :
    expression policy = (parts policy * dot)∗ * parts policy := by
  unfold expression
  split
  · next h => rw [parts_of_wildcard h, add_mul, one_mul]
  · next h => rw [parts_of_not_wildcard h]

/-- A string is a URI exactly if it is not empty and matches the expression of the policy. -/
theorem isUri_iff_expression {policy : Policy} {s : String} :
    isUri policy s = true ↔ s ≠ "" ∧ s.toList ∈ expression policy := by
  rw [isUri_iff, expression_eq, mem_kstar_mul_iff]
  refine and_congr_right fun _ => ⟨fun h => ?split, ?joined⟩
  case split =>
    refine ⟨splitDots s.toList, splitDots_ne_nil _, h, ?_⟩
    rw [splitDots_eq_splitOn, List.intercalate_splitOn]
  case joined =>
    rintro ⟨joined, hne, hjoined, heq⟩
    -- No part holds a dot, so splitting gives the joined parts back.
    have hdots : ∀ part ∈ joined, '.' ∉ part := fun part hpart hdot =>
      (isSegmentChar_iff.mp ((hjoined part hpart).chars '.' hdot)).2 rfl
    rw [heq, splitDots_eq_splitOn, List.splitOn_intercalate '.' hdots hne]
    exact hjoined

/-! ## All policies -/

/-- Which policies accept a string, and how that shows in its validation. -/
structure Acceptance (s : String) : Prop where
  /-- It is not empty, and each of its segments is one of the policy. -/
  segments : ∀ policy, isUri policy s = true ↔
    s ≠ "" ∧ ∀ segment ∈ segments s, IsSegment policy segment
  /-- It is not empty, and as a whole it matches the expression of the policy. -/
  expression : ∀ policy, isUri policy s = true ↔ s ≠ "" ∧ s.toList ∈ expression policy
  /-- What is strict is loose. -/
  loose : ∀ matching, isUri ⟨some true, matching⟩ s = true → isUri ⟨some false, matching⟩ s = true
  /-- A prefix is a URI like any other. -/
  prefixed : ∀ strict, isUri ⟨strict, some .prefixed⟩ s = isUri ⟨strict, some .exact⟩ s
  /-- A URI is a pattern. -/
  wildcard : ∀ strict, isUri ⟨strict, some .exact⟩ s = true →
    isUri ⟨strict, some .wildcard⟩ s = true
  /-- A pattern is a URI if it has no empty segment. -/
  exact : ∀ strict, isUri ⟨strict, some .wildcard⟩ s = true →
    (isUri ⟨strict, some .exact⟩ s = true ↔ "" ∉ Uri.segments s)
  /-- Validation returns what is accepted, unchanged. -/
  returned : ∀ policy t, validate policy s = .ok t ↔ isUri policy s = true ∧ t = s
  /-- Validation refuses all else with a fault that names the string and the policy. -/
  refused : ∀ policy fault, validate policy s = .error fault ↔
    isUri policy s = false ∧ fault = .invalidUri s policy

/-- Every policy accepts a string by its segments and by its expression alike, a policy that asks
for less accepts no less, and validation tells the strings that are accepted from the others. -/
theorem acceptance_isUri (s : String) : Acceptance s where
  segments _ := isUri_iff_segments
  expression _ := isUri_iff_expression
  loose matching h := by
    rw [isUri_iff_segments] at h ⊢
    refine ⟨h.1, fun segment hsegment => ?_⟩
    obtain ⟨hallowed, hnonEmpty⟩ := h.2 segment hsegment
    refine ⟨fun c hc => ?_, hnonEmpty⟩
    have hstrict : isStrictChar c = true := isStrictChar_iff.mpr (hallowed c hc)
    exact (isLooseChar_iff.mp (isLooseChar_of_isStrictChar hstrict)).1
  prefixed strict := rfl
  wildcard strict h := by
    rw [isUri_iff_segments] at h ⊢
    exact ⟨h.1, fun segment hsegment => ⟨(h.2 segment hsegment).allowed, fun h => absurd rfl h⟩⟩
  exact strict h := by
    rw [isUri_iff_segments] at h ⊢
    constructor
    · rintro ⟨-, hsegments⟩ hempty
      exact (hsegments "" hempty).nonEmpty nofun rfl
    · intro hempty
      refine ⟨h.1, fun segment hsegment => ⟨(h.2 segment hsegment).allowed, fun _ heq => ?_⟩⟩
      exact hempty (heq ▸ hsegment)
  returned _ _ := validate_eq_ok_iff
  refused _ _ := validate_eq_error_iff

example : isUri ⟨some true, some .wildcard⟩ "." = true ∧
    isUri ⟨some true, some .wildcard⟩ "" = false ∧ isUri ⟨some true, some .exact⟩ "a." = false := by
  decide

end Uri

end Wamp
