import Wamp.Proofs.Uri.Registering

/-!
# Copies of a map

A map is known by its list of entries: what is stored of an entry is made of what is listed of it,
and the order of the list, which is that of the tables under each policy, is the order in which
wildcard patterns are tried (`eq_of_filter_entries`). So a copy that is made of the list, by
registering its entries in their order, is the map itself again, whatever overwriting and removing
led to it (`Distinct.registering_entries`), and no change that is made to both tells them apart
(`indistinguishable_registering_entries`).
-/

namespace Wamp

namespace UriMap

variable {V : Type _}

/-! ## Known by the entries -/

/-- An entry tells the pair of the table that it stands for. -/
theorem Entry.ofPair_injective (policy : MatchPolicy) :
    Function.Injective (Entry.ofPair (V := V) policy) := by
  rintro ⟨uri, value⟩ ⟨uri', value'⟩ h
  cases h
  rfl

/-- A map is known by its tables. -/
theorem eq_of_table {m m' : UriMap V} (h : ∀ policy, m.table policy = m'.table policy) :
    m = m' := by
  obtain ⟨exact, leading, wildcard⟩ := m
  obtain rfl : exact = _ := h .exact
  obtain rfl : leading = _ := h .prefixed
  obtain rfl : wildcard = _ := h .wildcard
  rfl

/-- A map is known by its entries under each policy in their order. -/
theorem eq_of_filter_entries {m m' : UriMap V} (h : ∀ policy,
    m.entries.filter (·.matching = policy) = m'.entries.filter (·.matching = policy)) : m = m' := by
  refine eq_of_table fun policy => List.map_injective_iff.mpr (Entry.ofPair_injective policy) ?_
  rw [← filter_entries, ← filter_entries, h policy]

/-- A map with distinct keys is what the registration of its entries makes. -/
theorem Distinct.registering_entries {m : UriMap V} (h : m.Distinct) : registering m.entries = m :=
  eq_of_filter_entries (filter_registering h.nodup_keys)

/-! ## What can be seen of a map -/

/-- What a change returns. -/
inductive Returned (V : Type _) where
  /-- The value that a registration replaces, if there is one. -/
  | replaced (old? : Option V)
  /-- Whether there was an entry to remove. -/
  | removed (found : Bool)
  /-- Clearing a map returns nothing. -/
  | nothing

/-- What a change to a map returns. -/
def returned (m : UriMap V) : Edit V → Returned V
  | .register uri value policy => .replaced (m.register uri value policy).2
  | .delete uri policy => .removed (m.remove uri policy).2
  | .clear => .nothing

/-- What each of a sequence of changes returns. -/
def returns (m : UriMap V) : List (Edit V) → List (Returned V)
  | [] => []
  | change :: changes => m.returned change :: (m.edit change).returns changes

/-- Nothing that can be asked of two maps tells them apart. -/
structure Indistinguishable (m m' : UriMap V) : Prop where
  entries : m.entries = m'.entries
  size : m.size = m'.size
  resolve : ∀ uri, m.resolve uri = m'.resolve uri
  get? : ∀ uri, m.get? uri = m'.get? uri
  contains : ∀ uri, m.contains uri = m'.contains uri

/-- Whatever the history of a map, the registration of its entries in their order makes another one
that can be told from it neither at once nor after any changes to both of them, and these return the
same on both. -/
theorem indistinguishable_registering_entries (edits later : List (Edit V)) :
    Indistinguishable (later.foldl edit (registering (ofEdits edits).entries))
        (later.foldl edit (ofEdits edits)) ∧
      (registering (ofEdits edits).entries).returns later = (ofEdits edits).returns later := by
  rw [(distinct_ofEdits edits).registering_entries]
  exact ⟨⟨rfl, rfl, fun uri => rfl, fun uri => rfl, fun uri => rfl⟩, rfl⟩

example : (registering (ofEdits [.register "a..c" 1 .wildcard, .register "a.b." 2 .wildcard,
    .delete "a..c" .wildcard, .register "a..c" 3 .wildcard]).entries).resolve "a.b.c" =
  .ok 2 := rfl

end UriMap

end Wamp
