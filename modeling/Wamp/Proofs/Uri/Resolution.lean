import Wamp.Proofs.Uri.Edits
import Wamp.Proofs.Uri.Segments

/-!
# What a URI resolves to

The documented order of resolution is a property of the list of entries alone: an exact entry for
the URI decides; failing that, the longest of the prefixes that lead it, of which there is only one;
failing that, the first of the most specific wildcard patterns that fit it. `resolve_ofEdits` shows
it of every map that registrations, removals and clearings make.

* `Scanned` is what the scan for the best entry has established of the part of the table that it has
  read, and `Scanned.step` carries it over one more entry.
* `Distinct.longest` uses that no entry stands twice to make the longest prefix unique.
-/

namespace Wamp

namespace UriMap

/-! ## The scan for the best element -/

section Scan

variable {α β : Type _}

/-- An element of a list is the first of greatest rank among those with a property: those before it
that have the property rank lower, and those after it rank no higher. -/
def FirstBest (P : α → Prop) (rank : α → Nat) (l : List α) (a : α) : Prop :=
  P a ∧ ∃ before after, l = before ++ a :: after ∧
    (∀ x ∈ before, P x → rank x < rank a) ∧ ∀ x ∈ after, P x → rank x ≤ rank a

/-- What a scan has found in the elements that it has seen: the first of greatest rank among those
with the property, or nothing when none has it. -/
def Scanned (P : α → Prop) (rank : α → Nat) (seen : List α) : Option α → Prop
  | none => ∀ x ∈ seen, ¬ P x
  | some a => FirstBest P rank seen a

variable {P : α → Prop} {rank : α → Nat} {seen : List α} {best? : Option α}

/-- An element without the property does not change what the scan has found. -/
theorem Scanned.skip (h : Scanned P rank seen best?) {x : α} (hx : ¬ P x) :
    Scanned P rank (seen ++ [x]) best? := by
  cases best? with
  | none =>
    intro y hy
    rcases List.mem_append.mp hy with hy | hy
    · exact h y hy
    · rwa [List.mem_singleton.mp hy]
  | some a =>
    obtain ⟨ha, before, after, rfl, hbefore, hafter⟩ := h
    refine ⟨ha, before, after ++ [x], by simp, hbefore, fun y hy hPy => ?_⟩
    rcases List.mem_append.mp hy with hy | hy
    · exact hafter y hy hPy
    · rw [List.mem_singleton.mp hy] at hPy
      exact absurd hPy hx

/-- An element with the property is compared with the best so far. -/
theorem Scanned.step (h : Scanned P rank seen best?) {x : α} (hx : P x) :
    Scanned P rank (seen ++ [x]) (better rank best? x) := by
  cases best? with
  | none =>
    -- Nothing seen so far has the property, so the element is the first that does.
    refine ⟨hx, seen, [], rfl, fun y hy hPy => absurd hPy (h y hy), ?_⟩
    simp
  | some a =>
    obtain ⟨ha, before, after, rfl, hbefore, hafter⟩ := h
    show Scanned P rank _ (if rank a < rank x then some x else some a)
    by_cases hlt : rank a < rank x
    · rw [if_pos hlt]
      -- Everything seen so far ranks at most as high as the old best, hence below the new one.
      refine ⟨hx, before ++ a :: after, [], by simp, fun y hy hPy => ?_, by simp⟩
      rcases List.mem_append.mp hy with hy | hy
      · exact Nat.lt_trans (hbefore y hy hPy) hlt
      · rcases List.mem_cons.mp hy with rfl | hy
        · exact hlt
        · exact Nat.lt_of_le_of_lt (hafter y hy hPy) hlt
    · rw [if_neg hlt]
      -- The old best stays and the element is one more after it, which ranks no higher.
      refine ⟨ha, before, after ++ [x], by simp, hbefore, fun y hy hPy => ?_⟩
      rcases List.mem_append.mp hy with hy | hy
      · exact hafter y hy hPy
      · rw [List.mem_singleton.mp hy]
        exact Nat.le_of_not_lt hlt

/-- The scan of a whole list finds the first of greatest rank among those that pass the filter. -/
theorem scanned_firstBest {p : α → Bool} (hp : ∀ a, p a = true ↔ P a) (l : List α) :
    Scanned P rank l (firstBest rank (l.filter p)) := by
  -- The scan runs from the front, so the list grows at its end.
  induction l using List.reverseRecOn with
  | nil => exact fun x hx => absurd hx List.not_mem_nil
  | append_singleton l x ih =>
    rw [List.filter_append, firstBest, List.foldl_append]
    by_cases hx : p x = true
    · rw [List.filter_cons_of_pos hx]
      exact ih.step ((hp x).mp hx)
    · rw [List.filter_cons_of_neg hx]
      exact ih.skip (fun h => hx ((hp x).mpr h))

/-- What a scan has found has the property. -/
theorem Scanned.exists_of_some {a : α} (h : Scanned P rank seen (some a)) : ∃ x ∈ seen, P x := by
  obtain ⟨ha, before, after, rfl, -⟩ := h
  exact ⟨a, by simp, ha⟩

/-- A scan finds nothing in a list where nothing has the property. -/
theorem Scanned.eq_none (h : Scanned P rank seen best?) (hno : ∀ x ∈ seen, ¬ P x) :
    best? = none := by
  cases best? with
  | none => rfl
  | some a =>
    obtain ⟨x, hx, hPx⟩ := h.exists_of_some
    exact absurd hPx (hno x hx)

/-- What a scan has found in one part of a list is what there is to find in the whole list, when
the other parts have nothing with the property. -/
theorem Scanned.of_part {f : β → α} {l : List β} {found? : Option β} {A B : List α}
    (h : Scanned (fun b => P (f b)) (fun b => rank (f b)) l found?)
    (hA : ∀ x ∈ A, ¬ P x) (hB : ∀ x ∈ B, ¬ P x) :
    Scanned P rank (A ++ l.map f ++ B) (found?.map f) := by
  cases found? with
  | none =>
    intro x hx
    rw [List.mem_append, List.mem_append, List.mem_map] at hx
    rcases hx with (hx | ⟨b, hb, rfl⟩) | hx
    · exact hA x hx
    · exact h b hb
    · exact hB x hx
  | some b =>
    obtain ⟨hb, before, after, rfl, hbefore, hafter⟩ := h
    -- The split of the part, with the other parts added outside.
    refine ⟨hb, A ++ before.map f, after.map f ++ B, by simp, fun x hx hPx => ?_,
      fun x hx hPx => ?_⟩
    · rcases List.mem_append.mp hx with hx | hx
      · exact absurd hPx (hA x hx)
      · obtain ⟨c, hc, rfl⟩ := List.mem_map.mp hx
        exact hbefore c hc hPx
    · rcases List.mem_append.mp hx with hx | hx
      · obtain ⟨c, hc, rfl⟩ := List.mem_map.mp hx
        exact hafter c hc hPx
      · exact absurd hPx (hB x hx)

end Scan

/-! ## Entries that apply to a URI -/

variable {V : Type _}

namespace Entry

/-- The number of segments of an entry's URI. -/
def length (e : Entry V) : Nat := (Uri.segments e.uri).length

/-- The number of segments of an entry's URI that hold a character. -/
def specificity (e : Entry V) : Nat := (Uri.segments e.uri).countP (· ≠ "")

/-- An exact entry is for its own URI. -/
def IsFor (uri : String) (e : Entry V) : Prop := e.matching = .exact ∧ e.uri = uri

/-- A prefix entry leads the URIs whose segments begin with its own. -/
def Leads (uri : String) (e : Entry V) : Prop :=
  e.matching = .prefixed ∧ Uri.segments e.uri <+: Uri.segments uri

/-- A wildcard entry fits the URIs with as many segments that have each of its own non-empty ones at
the same index. -/
def Fits (uri : String) (e : Entry V) : Prop :=
  e.matching = .wildcard ∧ (Uri.segments e.uri).length = (Uri.segments uri).length ∧
    ∀ (i : Nat) s, (Uri.segments e.uri)[i]? = some s → s ≠ "" → (Uri.segments uri)[i]? = some s

/-- Two prefixes of one URI that have the same length are for the same URI. -/
theorem Leads.uri_eq {uri : String} {e e' : Entry V} (h : e.Leads uri) (h' : e'.Leads uri)
    (hlen : e.length = e'.length) : e.uri = e'.uri :=
  Uri.eq_of_prefix_of_length h.2 h'.2 hlen

end Entry

/-- In a map with distinct keys, nothing is found for exact matches of a URI without an exact
entry. -/
theorem Distinct.get?_exact_eq_none {m : UriMap V} (h : m.Distinct) {uri : String}
    (hno : ∀ e ∈ m.entries, ¬ e.IsFor uri) : m.exact.get? uri = none := by
  rw [Option.eq_none_iff_forall_ne_some]
  intro value hvalue
  exact hno _ (h.get?_exact_eq_some_iff.mp hvalue) ⟨rfl, rfl⟩

/-- The longest registered prefix of a URI is the first longest of all entries that lead it. -/
theorem scanned_bestLeading? (m : UriMap V) (uri : String) :
    Scanned (Entry.Leads uri) Entry.length m.entries
      ((m.bestLeading? (Uri.segments uri)).map (Entry.ofPair .prefixed)) := by
  obtain ⟨A, B, hentries, hA, hB⟩ := m.entries_eq .prefixed
  rw [hentries]
  refine Scanned.of_part (scanned_firstBest (fun pair => ?_) m.leading)
    (fun e he hleads => hA e he hleads.1) (fun e he hleads => hB e he hleads.1)
  rw [Uri.matchesLeading_iff]
  exact ⟨fun h => ⟨rfl, h⟩, fun h => h.2⟩

/-- The most specific wildcard pattern for a URI is the first most specific of all entries that fit
it. -/
theorem scanned_bestWildcard? (m : UriMap V) (uri : String) :
    Scanned (Entry.Fits uri) Entry.specificity m.entries
      ((m.bestWildcard? (Uri.segments uri)).map (Entry.ofPair .wildcard)) := by
  obtain ⟨A, B, hentries, hA, hB⟩ := m.entries_eq .wildcard
  have hrank : (fun pair : String × V => Uri.specificity (Uri.segments pair.1)) =
      fun pair => (Entry.ofPair .wildcard pair).specificity :=
    funext fun pair => Uri.specificity_eq_countP (Uri.segments pair.1)
  rw [hentries, bestWildcard?, hrank]
  refine Scanned.of_part (scanned_firstBest (fun pair => ?_) m.wildcard)
    (fun e he hfits => hA e he hfits.1) (fun e he hfits => hB e he hfits.1)
  rw [Uri.matchesWildcard_iff]
  exact ⟨fun h => ⟨rfl, h⟩, fun h => h.2⟩

/-! ## The documented order -/

/-- What the resolution of a URI returns, as a property of the entries in their order. -/
structure ResolvesTo (entries : List (Entry V)) (uri : String) (result : Except Fault V) :
    Prop where
  /-- An exact entry for the URI decides. -/
  exact : ∀ e ∈ entries, e.IsFor uri → result = .ok e.value
  /-- Failing that, the one longest of the prefixes that lead the URI decides. -/
  leading : (∀ e ∈ entries, ¬ e.IsFor uri) → (∃ e ∈ entries, e.Leads uri) →
    ∃ before e after, entries = before ++ e :: after ∧ e.Leads uri ∧
      (∀ x ∈ before ++ after, x.Leads uri → x.length < e.length) ∧ result = .ok e.value
  /-- Failing that, the first of the most specific wildcard patterns that fit the URI decides. -/
  wildcard : (∀ e ∈ entries, ¬ e.IsFor uri ∧ ¬ e.Leads uri) → (∃ e ∈ entries, e.Fits uri) →
    ∃ before e after, entries = before ++ e :: after ∧ e.Fits uri ∧
      (∀ x ∈ before, x.Fits uri → x.specificity < e.specificity) ∧
      (∀ x ∈ after, x.Fits uri → x.specificity ≤ e.specificity) ∧ result = .ok e.value
  /-- Without any of these the resolution is a fault. -/
  missing : (∀ e ∈ entries, ¬ e.IsFor uri ∧ ¬ e.Leads uri ∧ ¬ e.Fits uri) →
    result = .error (.noEntry uri)

/-- The first longest of the entries that lead a URI is longer than every other that does. -/
theorem Distinct.longest {m : UriMap V} (h : m.Distinct) {uri : String} {e : Entry V}
    (he : FirstBest (Entry.Leads uri) Entry.length m.entries e) :
    ∃ before after, m.entries = before ++ e :: after ∧
      ∀ x ∈ before ++ after, x.Leads uri → x.length < e.length := by
  obtain ⟨hleads, before, after, hentries, hbefore, hafter⟩ := he
  refine ⟨before, after, hentries, fun x hx hx' => ?_⟩
  rcases List.mem_append.mp hx with hx | hx
  · exact hbefore x hx hx'
  · -- A later prefix of the same length would be for the same URI, under the same policy.
    have hpairwise := h.pairwise_entries
    rw [hentries, List.pairwise_append, List.pairwise_cons] at hpairwise
    have huri := hpairwise.2.1.1 x hx (hleads.1.trans hx'.1.symm)
    refine Nat.lt_of_le_of_ne (hafter x hx hx') fun hlen => huri ?_
    exact (hx'.uri_eq hleads hlen).symm

/-- What is found resolves a URI, and a URI for which nothing is found does not resolve. -/
theorem get?_eq_toOption_resolve (m : UriMap V) (uri : String) :
    m.get? uri = (m.resolve uri).toOption := by
  unfold resolve
  cases m.get? uri <;> rfl

/-- A map has the URIs that resolve. -/
theorem contains_iff {m : UriMap V} {uri : String} :
    m.contains uri = true ↔ ∃ value, m.resolve uri = .ok value := by
  unfold contains resolve
  cases m.get? uri <;> simp

/-- A map with distinct keys resolves every URI in the documented order. -/
theorem Distinct.resolvesTo {m : UriMap V} (h : m.Distinct) (uri : String) :
    ResolvesTo m.entries uri (m.resolve uri) := by
  have hleading := m.scanned_bestLeading? uri
  have hwildcard := m.scanned_bestWildcard? uri
  refine ⟨?exact, ?leading, ?wildcard, ?missing⟩
  case exact =>
    rintro ⟨_, _, value⟩ he ⟨rfl, rfl⟩
    have hvalue := h.get?_exact_eq_some_iff.mpr he
    simp [resolve, get?, hvalue]
  case leading =>
    rintro hno ⟨x, hx, hleads⟩
    cases hbest : m.bestLeading? (Uri.segments uri) with
    | none =>
      rw [hbest] at hleading
      exact absurd hleads (hleading x hx)
    | some pair =>
      rw [hbest] at hleading
      obtain ⟨before, after, hentries, hlongest⟩ := h.longest hleading
      refine ⟨before, _, after, hentries, hleading.1, hlongest, ?_⟩
      simp [resolve, get?, h.get?_exact_eq_none hno, hbest, Entry.ofPair]
  case wildcard =>
    rintro hno ⟨x, hx, hfits⟩
    -- Neither of the tables that come first has anything to say.
    have hexact := h.get?_exact_eq_none fun e he => (hno e he).1
    have hnoprefix := Option.map_eq_none_iff.mp (hleading.eq_none fun e he => (hno e he).2)
    cases hbest : m.bestWildcard? (Uri.segments uri) with
    | none =>
      rw [hbest] at hwildcard
      exact absurd hfits (hwildcard x hx)
    | some pair =>
      rw [hbest] at hwildcard
      obtain ⟨hpair, before, after, hentries, hbefore, hafter⟩ := hwildcard
      refine ⟨before, _, after, hentries, hpair, hbefore, hafter, ?_⟩
      simp [resolve, get?, hexact, hnoprefix, hbest, Entry.ofPair]
  case missing =>
    intro hno
    have hexact := h.get?_exact_eq_none fun e he => (hno e he).1
    have hnoprefix := Option.map_eq_none_iff.mp (hleading.eq_none fun e he => (hno e he).2.1)
    have hnopattern := Option.map_eq_none_iff.mp (hwildcard.eq_none fun e he => (hno e he).2.2)
    simp [resolve, get?, hexact, hnoprefix, hnopattern]

/-- Resolution in a map that edits make: every URI resolves in the documented order, it is found
with the value that it resolves to, and the map has it exactly when it resolves. -/
theorem resolve_ofEdits (edits : List (Edit V)) (uri : String) :
    ResolvesTo (ofEdits edits).entries uri ((ofEdits edits).resolve uri) ∧
      (ofEdits edits).get? uri = ((ofEdits edits).resolve uri).toOption ∧
      ((ofEdits edits).contains uri = true ↔ ∃ value, (ofEdits edits).resolve uri = .ok value) := by
  refine ⟨?documented, ?found, ?present⟩
  case documented => exact (distinct_ofEdits edits).resolvesTo uri
  case found => exact get?_eq_toOption_resolve (ofEdits edits) uri
  case present => exact contains_iff

example : (ofEdits [.register "a..c" 1 .wildcard, .register "a.b." 2 .wildcard,
    .register "" 3 .prefixed]).get? "a.b.c" = some 1 := by
  decide

end UriMap

end Wamp
