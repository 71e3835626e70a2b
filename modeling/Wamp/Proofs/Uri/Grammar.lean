import Wamp.Fault
import Wamp.Proofs.Uri.Segments

/-!
# The grammar of URIs

The pass that accepts a URI asks of each segment what its policy says and nothing else: `isUri_iff`
describes the URIs of a policy by their segments. A policy that asks for more accepts less, so that
every strict URI is a loose one (`isUri_default`).
-/

namespace Wamp

namespace Uri

/-- What a policy asks of one segment: allowed characters only, and at least one of them unless it
may be empty. -/
structure IsPart (strict mayBeEmpty : Bool) (part : List Char) : Prop where
  chars : ∀ c ∈ part, isSegmentChar strict c = true
  nonEmpty : part = [] → mayBeEmpty = true

@[simp]
theorem isPart_nil_iff {strict mayBeEmpty : Bool} :
    IsPart strict mayBeEmpty [] ↔ mayBeEmpty = true :=
  ⟨fun h => h.nonEmpty rfl, fun h => ⟨nofun, fun _ => h⟩⟩

@[simp]
theorem isPart_cons_iff {strict mayBeEmpty : Bool} {c : Char} {cs : List Char} :
    IsPart strict mayBeEmpty (c :: cs) ↔ isSegmentChar strict c = true ∧ IsPart strict true cs := by
  constructor
  · rintro ⟨hchars, -⟩
    rw [List.forall_mem_cons] at hchars
    exact ⟨hchars.1, hchars.2, fun _ => rfl⟩
  · rintro ⟨hc, hcs, -⟩
    exact ⟨List.forall_mem_cons.mpr ⟨hc, hcs⟩, nofun⟩

/-- What the pass accepts is what it asks of the parts: the first of them may be empty also when the
segment that it belongs to has begun. -/
theorem accepts_iff {strict allowsEmpty begun : Bool} {cs first : List Char}
    {rest : List (List Char)} (h : splitDots cs = first :: rest) :
    accepts strict allowsEmpty begun cs = true ↔
      IsPart strict (begun || allowsEmpty) first ∧
        ∀ part ∈ rest, IsPart strict allowsEmpty part := by
  induction cs generalizing begun first rest with
  | nil =>
    obtain ⟨rfl, rfl⟩ := List.cons.inj h
    simp [accepts]
  | cons c cs ih =>
    obtain ⟨part, parts, hparts⟩ := List.exists_cons_of_ne_nil (splitDots_ne_nil cs)
    rw [splitDots, hparts] at h
    by_cases hc : c = '.'
    -- A dot ends the first part, and the rest of the pass starts with a segment that has not begun.
    · rw [if_pos hc] at h
      obtain ⟨rfl, rfl⟩ := List.cons.inj h
      rw [accepts, if_pos hc, Bool.and_eq_true, ih hparts, isPart_nil_iff, Bool.false_or,
        List.forall_mem_cons]
    -- Any other character belongs to the first part, which has begun with it.
    · rw [if_neg hc, consFirst] at h
      obtain ⟨rfl, rfl⟩ := List.cons.inj h
      rw [accepts, if_neg hc, Bool.and_eq_true, ih hparts, isPart_cons_iff, Bool.true_or, and_assoc]

/-- A string is a URI exactly when it is not empty and the policy's demands hold of every part
between its dots. -/
theorem isUri_iff {policy : Policy} {s : String} :
    isUri policy s = true ↔
      s ≠ "" ∧ ∀ part ∈ splitDots s.toList, IsPart policy.isStrict policy.allowsEmpty part := by
  obtain ⟨first, rest, hparts⟩ := List.exists_cons_of_ne_nil (splitDots_ne_nil s.toList)
  rw [isUri, Bool.and_eq_true, accepts_iff hparts, hparts, List.forall_mem_cons, Bool.false_or]
  simp

/-- A string passes validation exactly when it is a URI, and comes out as it is. -/
theorem validate_eq_ok_iff {policy : Policy} {s t : String} :
    validate policy s = .ok t ↔ isUri policy s = true ∧ t = s := by
  unfold validate
  split
  · next h => simp [h, eq_comm]
  · next h => simp [h]

/-- A string fails validation exactly when it is no URI, with a fault that names both. -/
theorem validate_eq_error_iff {policy : Policy} {s : String} {fault : Fault} :
    validate policy s = .error fault ↔ isUri policy s = false ∧ fault = .invalidUri s policy := by
  unfold validate
  split
  · next h => simp [h]
  · next h => simp [h, eq_comm]

/-- Strict characters are digits, the underscore and lower case letters. -/
theorem toNat_of_isStrictChar {c : Char} (h : isStrictChar c = true) :
    (48 ≤ c.toNat ∧ c.toNat ≤ 57) ∨ c.toNat = 95 ∨ (97 ≤ c.toNat ∧ c.toNat ≤ 122) := by
  unfold isStrictChar at h
  rw [Bool.or_eq_true, Bool.or_eq_true] at h
  rcases h with (hlower | hdigit) | hunderscore
  · obtain ⟨hleast, hgreatest⟩ := Bool.and_eq_true_iff.mp hlower
    exact .inr (.inr ⟨of_decide_eq_true hleast, of_decide_eq_true hgreatest⟩)
  · obtain ⟨hleast, hgreatest⟩ := Bool.and_eq_true_iff.mp hdigit
    exact .inl ⟨of_decide_eq_true hleast, of_decide_eq_true hgreatest⟩
  · rw [of_decide_eq_true hunderscore]
    exact .inr (.inl rfl)

/-- A strict character is a loose one. -/
theorem isLooseChar_of_isStrictChar {c : Char} (h : isStrictChar c = true) :
    isLooseChar c = true := by
  have hcode := toNat_of_isStrictChar h
  have hdot : c ≠ '.' := by
    rintro rfl
    exact absurd h (by decide)
  have hhash : c ≠ '#' := by
    rintro rfl
    exact absurd h (by decide)
  -- No range of blanks meets one of the ranges of strict characters.
  have hblank : isBlank c = false := by
    simp only [isBlank, blankRanges, List.any_cons, List.any_nil, Bool.or_false,
      Bool.or_eq_false_iff, Bool.and_eq_false_iff, decide_eq_false_iff_not]
    omega
  simp [isLooseChar, hdot, hhash, hblank]

/-- A character of a segment is a loose one, however strict the segment is. -/
theorem isLooseChar_of_isSegmentChar {strict : Bool} {c : Char}
    (h : isSegmentChar strict c = true) : isLooseChar c = true := by
  unfold isSegmentChar at h
  split at h
  · exact isLooseChar_of_isStrictChar h
  · exact h

/-- Whatever strictness a URI meets, it meets the default policy. -/
theorem isUri_default {strict : Option Bool} {s : String}
    (h : isUri ⟨strict, some .exact⟩ s = true) : isUri .default s = true := by
  rw [isUri_iff] at h ⊢
  refine ⟨h.1, fun part hpart => ?_⟩
  obtain ⟨hchars, hnonEmpty⟩ := h.2 part hpart
  exact ⟨fun c hc => isLooseChar_of_isSegmentChar (hchars c hc), hnonEmpty⟩

/-- The pass lets dots and characters of segments through and nothing else. -/
theorem isSegmentChar_of_accepts {strict allowsEmpty begun : Bool} {cs : List Char}
    (h : accepts strict allowsEmpty begun cs = true) :
    ∀ c ∈ cs, c = '.' ∨ isSegmentChar strict c = true := by
  induction cs generalizing begun with
  | nil => exact nofun
  | cons c cs ih =>
    unfold accepts at h
    split at h
    · next hdot =>
      exact List.forall_mem_cons.mpr ⟨.inl hdot, ih (Bool.and_eq_true_iff.mp h).2⟩
    · obtain ⟨hchar, hrest⟩ := Bool.and_eq_true_iff.mp h
      exact List.forall_mem_cons.mpr ⟨.inr hchar, ih hrest⟩

/-- There is no blank in a URI, whatever the policy. -/
theorem isBlank_of_isUri {policy : Policy} {s : String} (h : isUri policy s = true) {c : Char}
    (hc : c ∈ s.toList) : isBlank c = false := by
  rcases isSegmentChar_of_accepts (Bool.and_eq_true_iff.mp h).2 c hc with rfl | hchar
  · decide
  · have hloose := isLooseChar_of_isSegmentChar hchar
    simp only [isLooseChar, Bool.not_eq_true', Bool.or_eq_false_iff] at hloose
    exact hloose.2

/-- There is no space in a URI, whatever the policy. -/
theorem space_notMem_of_isUri {policy : Policy} {s : String} (h : isUri policy s = true) :
    ' ' ∉ s.toList := by
  intro hspace
  exact absurd (isBlank_of_isUri h hspace) (by decide)

end Uri

end Wamp
