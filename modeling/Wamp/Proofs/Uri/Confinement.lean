import Wamp.Proofs.Uri.Bookkeeping
import Wamp.Proofs.Uri.Winner

/-!
# What a change to a map affects

A change to a map is about one entry, and it affects only the URIs that this entry has to do with.
Taking an entry away matters only where it wins (`Distinct.resolve_erase`); hence putting one in
matters only where it applies, since a map with the entry and the map without it are the same once
the entry is taken away. An entry that takes the place of another one wins wherever the other did
(`Distinct.resolve_insert_of_wins`). `Confined` collects what follows for registrations and
removals, and `confined_ofEdits` shows it of every map that is reached.
-/

namespace Wamp

namespace UriMap

variable {V : Type _}

section

variable {m : UriMap V} {uri u : String} {policy : MatchPolicy} {value : V} {e : Entry V}

/-- The entry that was registered is one of the entries. -/
theorem Distinct.mem_entries_insert (h : m.Distinct) :
    ⟨uri, policy, value⟩ ∈ (m.insert uri value policy).entries :=
  (h.edit (.register uri value policy)).registered?_eq_some_iff.mp
    (m.registered?_insert_self uri value policy)

/-- Taking an entry away changes nothing about the URIs that it does not win. -/
theorem Distinct.resolve_erase (h : m.Distinct)
    (hwins : ∀ value, ¬ Wins m.entries u ⟨uri, policy, value⟩) :
    (m.erase uri policy).resolve u = m.resolve u := by
  obtain ⟨best?, hbest⟩ := exists_scanned (Entry.Applies u) (Entry.merit u) m.entries
  have hrest : Scanned (Entry.Applies u) (Entry.merit u) (m.erase uri policy).entries best? := by
    rw [entries_erase]
    refine hbest.filter fun e he => decide_eq_true ?_
    subst he
    rintro ⟨rfl, rfl⟩
    exact hwins e.value hbest.wins
  calc (m.erase uri policy).resolve u = resultOf u best? :=
        (h.edit (.delete uri policy)).resolve_eq_resultOf hrest
    _ = m.resolve u := (h.resolve_eq_resultOf hbest).symm

/-- Registering an entry changes nothing about the URIs that it wins neither before nor after. -/
theorem Distinct.resolve_insert_of_not_wins (h : m.Distinct)
    (hbefore : ∀ value, ¬ Wins m.entries u ⟨uri, policy, value⟩)
    (hafter : ∀ v, ¬ Wins (m.insert uri value policy).entries u ⟨uri, policy, v⟩) :
    (m.insert uri value policy).resolve u = m.resolve u := by
  calc (m.insert uri value policy).resolve u
      = ((m.insert uri value policy).erase uri policy).resolve u :=
        ((h.edit (.register uri value policy)).resolve_erase hafter).symm
    _ = (m.erase uri policy).resolve u := by rw [erase_insert]
    _ = m.resolve u := h.resolve_erase hbefore

/-- An entry that takes the place of the winner of a URI wins it. -/
theorem Distinct.resolve_insert_of_wins (h : m.Distinct) {old : V}
    (hwins : Wins m.entries u ⟨uri, policy, old⟩) :
    (m.insert uri value policy).resolve u = .ok value := by
  obtain ⟨best?, hbest⟩ := exists_scanned (Entry.Applies u) (Entry.merit u) m.entries
  obtain ⟨e, rfl⟩ := hbest.exists_eq_some hwins.mem hwins.applies
  obtain ⟨huri, hmatching⟩ := Prod.mk.inj (hbest.wins.key_eq hwins)
  have hmem : uri ∈ (m.table policy).keys := exists_mem_entries_iff.mp ⟨old, hwins.mem⟩
  have hreplaced : e.replaced uri policy value = ⟨uri, policy, value⟩ :=
    if_pos ⟨huri, hmatching⟩
  have hentries : (m.insert uri value policy).entries =
      m.entries.map (Entry.replaced uri policy value) := h.entries_insert value hmem
  have hafter : Scanned (Entry.Applies u) (Entry.merit u) (m.insert uri value policy).entries
      (some ⟨uri, policy, value⟩) := by
    rw [hentries, ← hreplaced]
    exact hbest.map_of_key (Entry.key_replaced uri policy value)
  exact (h.edit (.register uri value policy)).resolve_eq_resultOf hafter

/-- A URI that an entry applies to resolves, once the entry is registered, to the value of the entry
or to what it resolved to before. -/
theorem Distinct.resolve_insert_of_applies (h : m.Distinct)
    (happlies : (⟨uri, policy, value⟩ : Entry V).Applies u) :
    (m.insert uri value policy).resolve u = .ok value ∨
      ∃ old, m.resolve u = .ok old ∧ (m.insert uri value policy).resolve u = .ok old := by
  have hafter := h.edit (.register uri value policy)
  obtain ⟨best?, hbest⟩ :=
    exists_scanned (Entry.Applies u) (Entry.merit u) (m.insert uri value policy).entries
  obtain ⟨e, rfl⟩ := hbest.exists_eq_some h.mem_entries_insert happlies
  have hresolve : (m.insert uri value policy).resolve u = .ok e.value :=
    hafter.resolve_eq_resultOf hbest
  by_cases hbefore : ∃ old, Wins m.entries u ⟨uri, policy, old⟩
  · obtain ⟨old, hwins⟩ := hbefore
    exact .inl (h.resolve_insert_of_wins hwins)
  by_cases hkey : e.key = (uri, policy)
  -- There is only one entry under the URI and match policy.
  · have he : e = ⟨uri, policy, value⟩ :=
      List.inj_on_of_nodup_map hafter.nodup_keys hbest.mem h.mem_entries_insert hkey
    rw [he] at hresolve
    exact .inl hresolve
  -- Otherwise the entry wins neither before nor after.
  · right
    refine ⟨e.value, ?_, hresolve⟩
    rw [← hresolve]
    refine (h.resolve_insert_of_not_wins (not_exists.mp hbefore) fun v hwins => hkey ?_).symm
    exact hbest.wins.key_eq hwins

end

/-- What a map lets its registrations and removals affect. -/
structure Confined (m : UriMap V) : Prop where
  /-- A URI resolves to the value of the one entry that wins it, and does not resolve if no entry
  applies to it. -/
  decided : ∀ u, (∃ e, (∀ x, Wins m.entries u x ↔ x = e) ∧ m.resolve u = .ok e.value) ∨
    (∀ e ∈ m.entries, ¬ e.Applies u) ∧ m.resolve u = .error (.noEntry u)
  /-- A registration changes nothing for a URI that the entry does not apply to. -/
  unmatched : ∀ (e : Entry V) u, ¬ e.Applies u →
    (m.register e.uri e.value e.matching).1.resolve u = m.resolve u
  /-- A URI that the entry applies to resolves afterwards, to the value of the entry or to what it
  resolved to before. -/
  matched : ∀ (e : Entry V) u, e.Applies u →
    (m.register e.uri e.value e.matching).1.resolve u = .ok e.value ∨
      ∃ old, m.resolve u = .ok old ∧
        (m.register e.uri e.value e.matching).1.resolve u = .ok old
  /-- It resolves to the value of the entry if the entry takes the place of the winner. -/
  overwritten : ∀ uri policy old value u, Wins m.entries u ⟨uri, policy, old⟩ →
    (m.register uri value policy).1.resolve u = .ok value
  /-- A removal changes nothing for a URI that the entry does not win. -/
  removed : ∀ uri policy u, (∀ value, ¬ Wins m.entries u ⟨uri, policy, value⟩) →
    (m.remove uri policy).1.resolve u = m.resolve u
  /-- The removal of an entry that was not there before its registration undoes it. -/
  undone : ∀ uri policy value, (∀ old, ⟨uri, policy, old⟩ ∉ m.entries) →
    ((m.register uri value policy).1.remove uri policy).1.entries = m.entries ∧
      ∀ u, ((m.register uri value policy).1.remove uri policy).1.resolve u = m.resolve u

/-- Whatever the history of a map, a registration or a removal affects only the URIs that it is
about. -/
theorem confined_ofEdits (edits : List (Edit V)) : Confined (ofEdits edits) := by
  have hdistinct := distinct_ofEdits edits
  refine ⟨fun u => ?decided, fun e u hnot => ?unmatched, fun e u => ?matched,
    fun uri policy old value u => ?overwritten, fun uri policy u => ?removed,
    fun uri policy value hnone => ?undone⟩
  case decided =>
    obtain ⟨best?, hbest⟩ :=
      exists_scanned (Entry.Applies u) (Entry.merit u) (ofEdits edits).entries
    have hresolve := hdistinct.resolve_eq_resultOf hbest
    cases best? with
    | some e => exact .inl ⟨e, fun x => hdistinct.wins_iff hbest, hresolve⟩
    | none => exact .inr ⟨hbest, hresolve⟩
  case unmatched =>
    -- What does not apply wins neither before nor after.
    exact hdistinct.resolve_insert_of_not_wins
      (fun value hwins => hnot ((Entry.applies_congr rfl).mp hwins.applies))
      fun value hwins => hnot ((Entry.applies_congr rfl).mp hwins.applies)
  case matched => exact hdistinct.resolve_insert_of_applies
  case overwritten => exact hdistinct.resolve_insert_of_wins
  case removed => exact hdistinct.resolve_erase
  case undone =>
    have hmem : uri ∉ ((ofEdits edits).table policy).keys := fun hmem => by
      obtain ⟨old, hold⟩ := exists_mem_entries_iff.mpr hmem
      exact hnone old hold
    have hundone : (((ofEdits edits).register uri value policy).1.remove uri policy).1 =
        ofEdits edits :=
      ((ofEdits edits).erase_insert uri value policy).trans (erase_of_notMem hmem)
    rw [hundone]
    exact ⟨rfl, fun u => rfl⟩

example : (ofEdits [.register "a..c" 1 .wildcard, .register "a.b." 2 .wildcard,
    .register "a..c" 3 .wildcard, .register "a.b" 4 .exact,
    .delete "a.b." .wildcard]).resolve "a.b.c" = .ok 3 := rfl

end UriMap

end Wamp
