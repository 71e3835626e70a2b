import Wamp.Proofs.Uri.Bookkeeping
import Wamp.Proofs.Uri.Winner

/-!
# The order of registrations

A map that registrations alone make holds, under each policy, the entries in the order in which they
were registered first (`filter_registering`), so a URI can be resolved by the list of registrations
itself (`resolve_registering`). The order of this list matters little: there is at most one exact
entry for a URI, and prefixes of it that are as long as each other are the same, so only wildcard
patterns can be tied (`Wins.key_eq_or_tied`). Where none are, a URI resolves in the same way
whatever the order, and where some are, the first of them is the answer
(`resolve_registering_perm`).

A pair of URI and match policy that is registered again keeps its place, so that the list of
registrations still tells which pair wins when it holds some more than once
(`exists_scanned_registering`).
-/

namespace Wamp

namespace UriMap

variable {V : Type _}

/-! ## Registrations alone -/

/-- The change that registers an entry. -/
def Entry.registration (e : Entry V) : Edit V := .register e.uri e.value e.matching

/-- The map that registrations make, one after another, of the one without entries. -/
def registering (l : List (Entry V)) : UriMap V := ofEdits (l.map Entry.registration)

/-- The map that registrations make with one more at the end. -/
theorem registering_concat (l : List (Entry V)) (e : Entry V) :
    registering (l ++ [e]) = (registering l).insert e.uri e.value e.matching := by
  rw [registering, List.map_append, List.map_singleton, ofEdits_concat]
  rfl

/-- Registrations keep keys distinct. -/
theorem distinct_registering (l : List (Entry V)) : (registering l).Distinct := distinct_ofEdits _

/-- A registration of something that is not listed adds an entry behind all others, as far as any
one policy can tell. -/
theorem filter_entries_insert_of_notMem {m : UriMap V} {e : Entry V}
    (h : e.uri ∉ (m.table e.matching).keys) (policy : MatchPolicy) :
    (m.insert e.uri e.value e.matching).entries.filter (·.matching = policy) =
      (m.entries ++ [e]).filter (·.matching = policy) := by
  rw [List.filter_append]
  by_cases hpolicy : e.matching = policy
  · have hlast : [e].filter (·.matching = policy) = [e] :=
      List.filter_cons_of_pos (decide_eq_true hpolicy)
    rw [hlast, ← hpolicy, filter_entries_insert e.value h]
  · have hlast : [e].filter (·.matching = policy) = [] :=
      List.filter_cons_of_neg fun h => hpolicy (of_decide_eq_true h)
    rw [hlast, List.append_nil, filter_entries, filter_entries, insert, table_modify,
      if_neg hpolicy]

/-- Under each policy, the entries are what was registered, in the order of registration, if nothing
was registered twice. -/
theorem filter_registering {l : List (Entry V)} (hkeys : (l.map Entry.key).Nodup)
    (policy : MatchPolicy) :
    (registering l).entries.filter (·.matching = policy) = l.filter (·.matching = policy) := by
  induction l using List.reverseRecOn generalizing policy with
  | nil => rfl
  | append_singleton l e ih =>
    rw [List.map_append, List.nodup_append] at hkeys
    obtain ⟨hkeys, -, hfresh⟩ := hkeys
    have hgroups := ih hkeys
    have habsent : e.uri ∉ ((registering l).table e.matching).keys := by
      intro hmem
      obtain ⟨value, hvalue⟩ := exists_mem_entries_iff.mpr hmem
      have hlisted := List.mem_map_of_mem (f := Entry.key) ((mem_of_regrouped hgroups).mp hvalue)
      exact hfresh _ hlisted _ (List.mem_singleton.mpr rfl) rfl
    rw [registering_concat, filter_entries_insert_of_notMem habsent, List.filter_append, hgroups,
      ← List.filter_append]

/-- A URI resolves to the value of the best of the registrations, if nothing was registered
twice. -/
theorem resolve_registering {l : List (Entry V)} (hkeys : (l.map Entry.key).Nodup) {uri : String}
    {best? : Option (Entry V)} (hbest : Scanned (Entry.Applies uri) (Entry.merit uri) l best?) :
    (registering l).resolve uri = resultOf uri best? :=
  (distinct_registering l).resolve_eq_resultOf
    (hbest.regroup (fun _ _ => Entry.Applies.matching_eq) (filter_registering hkeys))

/-! ## Ties -/

/-- An entry is one of the most specific wildcard patterns that fit a URI. -/
def MostSpecific (l : List (Entry V)) (uri : String) (e : Entry V) : Prop :=
  e ∈ l ∧ e.Fits uri ∧ ∀ x ∈ l, x.Fits uri → x.specificity ≤ e.specificity

/-- Wildcard patterns are tied for a URI. -/
structure Tied (l : List (Entry V)) (uri : String) : Prop where
  /-- No exact entry and no prefix applies to the URI. -/
  undecided : ∀ e ∈ l, ¬ e.IsFor uri ∧ ¬ e.Leads uri
  /-- Several wildcard patterns are as specific as any that fits it. -/
  several : ∃ e e', MostSpecific l uri e ∧ MostSpecific l uri e' ∧ e.uri ≠ e'.uri

/-- An entry is the first one of the most specific wildcard patterns that fit a URI. -/
def FirstTied (l : List (Entry V)) (uri : String) (e : Entry V) : Prop :=
  MostSpecific l uri e ∧ ∃ before after, l = before ++ e :: after ∧
    ∀ x ∈ before, ¬ MostSpecific l uri x

section

variable {l l' : List (Entry V)} {uri : String} {e e' : Entry V}

/-- The order does not matter to which patterns are the most specific. -/
theorem MostSpecific.perm (h : MostSpecific l uri e) (hperm : l.Perm l') :
    MostSpecific l' uri e :=
  ⟨hperm.mem_iff.mp h.1, h.2.1, fun x hx => h.2.2 x (hperm.mem_iff.mpr hx)⟩

/-- The order does not matter to whether patterns are tied. -/
theorem Tied.perm (h : Tied l uri) (hperm : l.Perm l') : Tied l' uri := by
  obtain ⟨e, e', he, he', hne⟩ := h.several
  refine ⟨fun x hx => h.undecided x (hperm.mem_iff.mpr hx), e, e', ?_, ?_, hne⟩
  · exact he.perm hperm
  · exact he'.perm hperm

/-- The best pattern is one of the most specific ones. -/
theorem FirstBest.mostSpecific (h : FirstBest (Entry.Fits uri) Entry.specificity l e) :
    MostSpecific l uri e := ⟨h.mem, h.1, fun _ hx => h.rank_le hx⟩

/-- The best pattern is the first one of the most specific ones. -/
theorem FirstBest.firstTied (h : FirstBest (Entry.Fits uri) Entry.specificity l e) :
    FirstTied l uri e := by
  refine ⟨h.mostSpecific, ?_⟩
  have hmem := h.mem
  obtain ⟨hfits, before, after, hsplit, hbefore, -⟩ := h
  refine ⟨before, after, hsplit, fun x hx hmost => ?_⟩
  exact Nat.not_le.mpr (hbefore x hx hmost.2.1) (hmost.2.2 e hmem hfits)

/-- Those that win a URI in two orders are registered under the same, unless they are tied. -/
theorem Wins.key_eq_or_tied (hperm : l.Perm l') (h : Wins l uri e) (h' : Wins l' uri e') :
    e.key = e'.key ∨ Tied l uri := by
  rcases h.alike (fun _ => hperm.mem_iff) h' with
    ⟨hfor, hfor'⟩ | ⟨hbest, hbest'⟩ | ⟨hnone, hbest, hbest'⟩
  · exact .inl (Prod.ext (hfor.2.trans hfor'.2.symm) (hfor.1.trans hfor'.1.symm))
  -- Each of the two prefixes is as long as the other.
  · have hlength : e.length = e'.length :=
      Nat.le_antisymm (hbest'.rank_le (hperm.mem_iff.mp hbest.mem) hbest.1)
        (hbest.rank_le (hperm.mem_iff.mpr hbest'.mem) hbest'.1)
    exact .inl (Prod.ext (hbest.1.uri_eq hbest'.1 hlength) (hbest.1.1.trans hbest'.1.1.symm))
  · by_cases huri : e.uri = e'.uri
    · exact .inl (Prod.ext huri (hbest.1.1.trans hbest'.1.1.symm))
    · exact .inr ⟨hnone, e, e', hbest.mostSpecific, hbest'.mostSpecific.perm hperm.symm, huri⟩

/-- A URI that patterns are tied for resolves to the value of the first one of them. -/
theorem Tied.resolve_registering (h : Tied l uri) (hkeys : (l.map Entry.key).Nodup) :
    ∃ e, FirstTied l uri e ∧ (registering l).resolve uri = .ok e.value := by
  obtain ⟨best?, hbest⟩ := exists_scanned (Entry.Applies uri) (Entry.merit uri) l
  obtain ⟨x, -, hx, -, -⟩ := h.several
  obtain ⟨e, rfl⟩ := hbest.exists_eq_some hx.1 (.inr (.inr hx.2.1))
  refine ⟨e, ?_, UriMap.resolve_registering hkeys hbest⟩
  cases hbest.wins with
  | exact hmem hfor => exact absurd hfor (h.undecided e hmem).1
  | leading _ hleads => exact absurd hleads.1 (h.undecided e hleads.mem).2
  | wildcard _ hfits => exact hfits.firstTied

/-- The order in which distinct pairs of URI and match policy are registered does not matter to what
a URI resolves to, unless wildcard patterns are tied for it: then the one registered first is the
answer in each order. -/
theorem resolve_registering_perm (hperm : l.Perm l') (hkeys : (l.map Entry.key).Nodup)
    (uri : String) :
    (¬ Tied l uri → (registering l).resolve uri = (registering l').resolve uri) ∧
      (Tied l uri →
        (∃ e, FirstTied l uri e ∧ (registering l).resolve uri = .ok e.value) ∧
          ∃ e, FirstTied l' uri e ∧ (registering l').resolve uri = .ok e.value) := by
  have hkeys' : (l'.map Entry.key).Nodup := (hperm.map Entry.key).nodup_iff.mp hkeys
  refine ⟨fun huntied => ?untied, fun htied => ⟨?first, ?second⟩⟩
  case untied =>
    obtain ⟨best?, hbest⟩ := exists_scanned (Entry.Applies uri) (Entry.merit uri) l
    obtain ⟨best?', hbest'⟩ := exists_scanned (Entry.Applies uri) (Entry.merit uri) l'
    have hsame : best? = best?' := by
      cases best? with
      | none => exact (hbest'.eq_none fun x hx => hbest x (hperm.mem_iff.mpr hx)).symm
      | some e =>
        obtain ⟨e', rfl⟩ := hbest'.exists_eq_some (hperm.mem_iff.mp hbest.mem) hbest.1
        have hkey := (hbest.wins.key_eq_or_tied hperm hbest'.wins).resolve_right huntied
        exact congrArg some (List.inj_on_of_nodup_map hkeys hbest.mem
          (hperm.mem_iff.mpr hbest'.mem) hkey)
    rw [UriMap.resolve_registering hkeys hbest, UriMap.resolve_registering hkeys' hbest', hsame]
  case first => exact htied.resolve_registering hkeys
  case second => exact (htied.perm hperm).resolve_registering hkeys'

/-- In a list and its reverse, an exact entry is the answer for its URI, and the first of two
patterns that are tied is the answer for another one. -/
theorem resolve_registering_reverse :
    let l : List (Entry Nat) :=
      [⟨"a..c", .wildcard, 1⟩, ⟨"a.b", .exact, 2⟩, ⟨"a.b.", .wildcard, 3⟩]
    l.Perm l.reverse ∧ (l.map Entry.key).Nodup ∧
      (registering l).resolve "a.b" = (registering l.reverse).resolve "a.b" ∧
      Tied l "a.b.c" ∧
      (∃ e, FirstTied l "a.b.c" e ∧ e.value = 1 ∧ (registering l).resolve "a.b.c" = .ok 1) ∧
      ∃ e, FirstTied l.reverse "a.b.c" e ∧ e.value = 3 ∧
        (registering l.reverse).resolve "a.b.c" = .ok 3 := by
  intro l
  have hperm : l.Perm l.reverse := l.reverse_perm.symm
  have hkeys : (l.map Entry.key).Nodup := by decide
  have htied : Tied l "a.b.c" := by
    refine ⟨by decide, ⟨"a..c", .wildcard, 1⟩, ⟨"a.b.", .wildcard, 3⟩, ?_, ?_, by decide⟩
    · exact ⟨.head _, by decide, by decide⟩
    · exact ⟨.tail _ (.tail _ (.head _)), by decide, by decide⟩
  -- The exact entry decides.
  have huntied : ¬ Tied l "a.b" := fun h =>
    (h.undecided ⟨"a.b", .exact, 2⟩ (.tail _ (.head _))).1 ⟨rfl, rfl⟩
  obtain ⟨⟨e, hfirst, he⟩, e', hfirst', he'⟩ :=
    (resolve_registering_perm hperm hkeys "a.b.c").2 htied
  have hvalue : e.value = 1 := (Except.ok.inj he).symm
  have hvalue' : e'.value = 3 := (Except.ok.inj he').symm
  exact ⟨hperm, hkeys, (resolve_registering_perm hperm hkeys "a.b").1 huntied, htied,
    ⟨e, hfirst, hvalue, he.trans (congrArg _ hvalue)⟩,
    e', hfirst', hvalue', he'.trans (congrArg _ hvalue')⟩

end

/-! ## Repeated registrations -/

/-- Best entries that are registered under the same are still so when each of them is compared with
one more entry. -/
theorem map_key_better {uri : String} {best? best?' : Option (Entry V)}
    (h : best?.map Entry.key = best?'.map Entry.key) (e : Entry V) :
    (better (Entry.merit uri) best? e).map Entry.key =
      (better (Entry.merit uri) best?' e).map Entry.key := by
  cases best? with
  | none =>
    rw [Option.map_none, eq_comm, Option.map_eq_none_iff] at h
    rw [h]
  | some a =>
    obtain ⟨b, rfl, hkey⟩ := Option.map_eq_some_iff.mp h.symm
    rw [better, better, Entry.merit_congr hkey]
    split
    · rfl
    · exact h

/-- The best of all registrations for a URI and the best of the entries that they leave are
registered under the same. -/
theorem exists_scanned_registering (l : List (Entry V)) (uri : String) :
    ∃ first? live?, Scanned (Entry.Applies uri) (Entry.merit uri) l first? ∧
      Scanned (Entry.Applies uri) (Entry.merit uri) (registering l).entries live? ∧
      first?.map Entry.key = live?.map Entry.key := by
  induction l using List.reverseRecOn with
  | nil => exact ⟨none, none, nofun, nofun, rfl⟩
  | append_singleton l e ih =>
    obtain ⟨first?, live?, hfirst, hlive, hkey⟩ := ih
    rw [registering_concat]
    by_cases hmem : e.uri ∈ ((registering l).table e.matching).keys
    -- The entry replaces one with its key and hence its merit, so it is no better than the best.
    · have hentries : ((registering l).insert e.uri e.value e.matching).entries =
          (registering l).entries.map (Entry.replaced e.uri e.matching e.value) :=
        (distinct_registering l).entries_insert e.value hmem
      have hreplaced : Entry.key ∘ Entry.replaced e.uri e.matching e.value = Entry.key :=
        funext (Entry.key_replaced e.uri e.matching e.value)
      refine ⟨first?, live?.map (Entry.replaced e.uri e.matching e.value),
        hfirst.concat_of_le fun happlies => ?_, ?_, ?_⟩
      · obtain ⟨old, hold⟩ := exists_mem_entries_iff.mpr hmem
        have holdApplies : Entry.Applies uri ⟨e.uri, e.matching, old⟩ :=
          (Entry.applies_congr rfl).mp happlies
        obtain ⟨b, rfl⟩ := hlive.exists_eq_some hold holdApplies
        obtain ⟨a, rfl, hab⟩ := Option.map_eq_some_iff.mp hkey
        refine ⟨a, rfl, ?_⟩
        calc e.merit uri = Entry.merit uri ⟨e.uri, e.matching, old⟩ := Entry.merit_congr rfl
          _ ≤ b.merit uri := hlive.rank_le hold holdApplies
          _ = a.merit uri := Entry.merit_congr hab.symm
      · rw [hentries]
        exact hlive.map_of_key (Entry.key_replaced e.uri e.matching e.value)
      · rw [hkey, Option.map_map, hreplaced]
    -- Otherwise it comes behind all others on both sides.
    · have hgroups := filter_entries_insert_of_notMem hmem
      by_cases happlies : e.Applies uri
      · exact ⟨_, _, hfirst.step happlies,
          (hlive.step happlies).regroup (fun _ _ => Entry.Applies.matching_eq) hgroups,
          map_key_better hkey e⟩
      · exact ⟨first?, live?, hfirst.skip happlies,
          (hlive.skip happlies).regroup (fun _ _ => Entry.Applies.matching_eq) hgroups, hkey⟩

end UriMap

end Wamp
