import Mathlib.Data.List.Induction
import Mathlib.Data.List.Nodup
import Wamp.Proofs.Assoc
import Wamp.Uri.Map

/-!
# Maps that edits make

A map that registrations, removals and clearings make of the one without entries has distinct keys
in each of its tables (`distinct_ofEdits`). Its list of entries then holds each URI at most once
under each match policy (`Distinct.pairwise_entries`), and what is registered for exact matches can
be read off it (`Distinct.get?_exact_eq_some_iff`).
-/

namespace Wamp

namespace UriMap

variable {V : Type _}

/-! ## The entries of a map -/

/-- The entry that a pair of a table stands for. -/
def Entry.ofPair (policy : MatchPolicy) (pair : String × V) : Entry V := ⟨pair.1, policy, pair.2⟩

/-- Each table is a part of the list of entries, and the rest of the list has other policies. -/
theorem entries_eq (m : UriMap V) (policy : MatchPolicy) :
    ∃ A B, m.entries = A ++ (m.table policy).map (Entry.ofPair policy) ++ B ∧
      (∀ e ∈ A, e.matching ≠ policy) ∧ ∀ e ∈ B, e.matching ≠ policy := by
  have hentries : m.entries = m.exact.map (Entry.ofPair .exact) ++
      (m.leading.map (Entry.ofPair .prefixed) ++ (m.wildcard.map (Entry.ofPair .wildcard) ++ [])) :=
    rfl
  -- The entries of another table than the policy's have another policy.
  have hmatching : ∀ (other : MatchPolicy) (table : Assoc String V), other ≠ policy →
      ∀ e ∈ table.map (Entry.ofPair other), e.matching ≠ policy := by
    rintro other table hne e he
    obtain ⟨pair, -, rfl⟩ := List.mem_map.mp he
    exact hne
  cases policy with
  | exact =>
    refine ⟨[], _, hentries, by simp, fun e he => ?_⟩
    rw [List.append_nil, List.mem_append] at he
    exact he.elim (hmatching _ _ (by decide) e) (hmatching _ _ (by decide) e)
  | prefixed =>
    refine ⟨_, _, hentries.trans (List.append_assoc ..).symm, hmatching _ _ (by decide), ?_⟩
    rw [List.append_nil]
    exact hmatching _ _ (by decide)
  | wildcard =>
    refine ⟨m.exact.map (Entry.ofPair .exact) ++ m.leading.map (Entry.ofPair .prefixed), [], ?_,
      fun e he => ?_, by simp⟩
    · rw [hentries, List.append_assoc, List.append_assoc]
      rfl
    · rcases List.mem_append.mp he with he | he
      · exact hmatching _ _ (by decide) e he
      · exact hmatching _ _ (by decide) e he

/-- An entry is listed exactly when its table has it. -/
theorem mem_entries {m : UriMap V} {e : Entry V} :
    e ∈ m.entries ↔ (e.uri, e.value) ∈ m.table e.matching := by
  obtain ⟨uri, policy, value⟩ := e
  obtain ⟨A, B, hentries, hA, hB⟩ := m.entries_eq policy
  rw [hentries, List.mem_append, List.mem_append, List.mem_map]
  constructor
  · rintro ((h | ⟨pair, h, heq⟩) | h)
    · exact absurd rfl (hA _ h)
    · cases heq
      exact h
    · exact absurd rfl (hB _ h)
  · intro h
    exact .inl (.inr ⟨(uri, value), h, rfl⟩)

/-! ## Maps that edits make -/

/-- A change to a map. -/
inductive Edit (V : Type _) where
  | register (uri : String) (value : V) (policy : MatchPolicy)
  | delete (uri : String) (policy : MatchPolicy)
  | clear

/-- The map after a change. -/
def edit (m : UriMap V) : Edit V → UriMap V
  | .register uri value policy => (m.register uri value policy).1
  | .delete uri policy => (m.remove uri policy).1
  | .clear => empty

/-- The map after a sequence of changes to the map without entries. -/
def ofEdits (edits : List (Edit V)) : UriMap V := edits.foldl edit empty

/-- A sequence of changes with one more at its end. -/
theorem ofEdits_concat (edits : List (Edit V)) (change : Edit V) :
    ofEdits (edits ++ [change]) = (ofEdits edits).edit change :=
  List.foldl_concat edit empty change edits

/-- The keys of each table are distinct. -/
def Distinct (m : UriMap V) : Prop := ∀ policy, (m.table policy).keys.Nodup

/-- A change to the table of one policy is seen in that table only. -/
theorem table_modify (m : UriMap V) (policy other : MatchPolicy)
    (f : Assoc String V → Assoc String V) :
    (m.modify policy f).table other =
      if policy = other then f (m.table other) else m.table other := by
  cases policy <;> cases other <;> rfl

/-- A value that was registered is found under its URI and match policy. -/
theorem registered?_insert_self (m : UriMap V) (uri : String) (value : V) (policy : MatchPolicy) :
    (m.insert uri value policy).registered? uri policy = some value := by
  rw [registered?, insert, table_modify, if_pos rfl]
  exact Assoc.get?_put_self uri value (m.table policy)

/-- A registration changes nothing about another URI or another match policy. -/
theorem registered?_insert_of_ne (m : UriMap V) (uri : String) (value : V) (policy : MatchPolicy)
    {uri' : String} {policy' : MatchPolicy} (h : ¬ (uri' = uri ∧ policy' = policy)) :
    (m.insert uri value policy).registered? uri' policy' = m.registered? uri' policy' := by
  rw [registered?, insert, table_modify]
  by_cases hpolicy : policy = policy'
  · have huri : uri ≠ uri' := fun heq => h ⟨heq.symm, hpolicy.symm⟩
    rw [if_pos hpolicy, Assoc.get?_put_of_ne huri, registered?]
  · rw [if_neg hpolicy, registered?]

/-- An entry that is listed after a registration is the one registered or was listed before. -/
theorem mem_entries_of_mem_insert {m : UriMap V} {uri : String} {value : V} {policy : MatchPolicy}
    {e : Entry V} (h : e ∈ (m.insert uri value policy).entries) :
    e = ⟨uri, policy, value⟩ ∨ e ∈ m.entries := by
  rw [mem_entries] at h ⊢
  rw [insert, table_modify] at h
  split at h
  · next hpolicy =>
    refine (Assoc.mem_of_mem_put h).imp_left fun heq => ?_
    obtain ⟨huri, hvalue⟩ := Prod.mk.inj heq
    obtain ⟨uri', matching, value'⟩ := e
    subst huri hvalue hpolicy
    rfl
  · exact .inr h

/-- A removal takes away what was registered, and what was there before. -/
theorem erase_insert (m : UriMap V) (uri : String) (value : V) (policy : MatchPolicy) :
    (m.insert uri value policy).erase uri policy = m.erase uri policy := by
  cases policy <;> simp [insert, erase, modify, Assoc.erase_put]

/-- A removal of something that is not registered leaves the map. -/
theorem erase_of_notMem {m : UriMap V} {uri : String} {policy : MatchPolicy}
    (h : uri ∉ (m.table policy).keys) : m.erase uri policy = m := by
  have htable : (m.table policy).erase uri = m.table policy := Assoc.erase_of_notMem h
  cases policy <;> simp only [table] at htable <;> rw [erase, modify, htable]

/-- A removal takes the entry of the URI and match policy out of the list and leaves the others in
their order. -/
theorem entries_erase (m : UriMap V) (uri : String) (policy : MatchPolicy) :
    (m.erase uri policy).entries =
      m.entries.filter fun e => ¬ (e.uri = uri ∧ e.matching = policy) := by
  unfold entries
  rw [List.filter_flatMap]
  refine List.flatMap_congr fun other _ => ?_
  rw [erase, table_modify, List.filter_map]
  by_cases hpolicy : policy = other
  · rw [if_pos hpolicy, Assoc.erase_eq_filter]
    simp [Function.comp_def, hpolicy]
  · rw [if_neg hpolicy]
    simp [Function.comp_def, Ne.symm hpolicy]

/-- A change to one table keeps keys distinct when it does so in that table. -/
theorem Distinct.modify {m : UriMap V} (h : m.Distinct) {policy : MatchPolicy}
    {f : Assoc String V → Assoc String V} (hf : (f (m.table policy)).keys.Nodup) :
    (m.modify policy f).Distinct := by
  intro other
  rw [table_modify]
  by_cases hpolicy : policy = other
  · rw [if_pos hpolicy, ← hpolicy]
    exact hf
  · rw [if_neg hpolicy]
    exact h other

/-- The map without entries has distinct keys. -/
theorem distinct_empty : (empty : UriMap V).Distinct := by
  intro policy
  cases policy <;> exact List.nodup_nil

/-- Each change keeps keys distinct. -/
theorem Distinct.edit {m : UriMap V} (h : m.Distinct) (change : Edit V) :
    (m.edit change).Distinct := by
  cases change with
  | register uri value policy => exact h.modify (Assoc.nodup_keys_put (h policy))
  | delete uri policy => exact h.modify (Assoc.nodup_keys_erase (h policy))
  | clear => exact distinct_empty

/-- Keys are distinct after any sequence of changes. -/
theorem distinct_ofEdits (edits : List (Edit V)) : (ofEdits edits).Distinct := by
  induction edits using List.reverseRecOn with
  | nil => exact distinct_empty
  | append_singleton edits change ih =>
    rw [ofEdits_concat]
    exact ih.edit change

/-- What holds of the keys of each table in their order holds of the entries of each policy in
theirs. -/
theorem pairwise_entries {m : UriMap V} {R : MatchPolicy → String → String → Prop}
    (h : ∀ policy, (m.table policy).keys.Pairwise (R policy)) :
    m.entries.Pairwise fun e e' => e.matching = e'.matching → R e.matching e.uri e'.uri := by
  rw [entries, List.pairwise_flatMap]
  constructor
  · -- Entries of one table are related as their URIs.
    intro policy _
    have hkeys : (m.table policy).Pairwise fun a b => R policy a.1 b.1 :=
      List.pairwise_map.mp (h policy)
    refine List.pairwise_map.mpr (hkeys.imp ?_)
    intro a b hR _
    exact hR
  · -- Entries of different tables have different policies.
    have hpolicies : MatchPolicy.all.Pairwise (· ≠ ·) := by decide
    refine hpolicies.imp fun hne e he e' he' hmatching => ?_
    obtain ⟨_, _, rfl⟩ := List.mem_map.mp he
    obtain ⟨_, _, rfl⟩ := List.mem_map.mp he'
    exact absurd hmatching hne

/-- In a map with distinct keys, no entry stands twice in the list of entries, not even with
different values. -/
theorem Distinct.pairwise_entries {m : UriMap V} (h : m.Distinct) :
    m.entries.Pairwise fun e e' => e.matching = e'.matching → e.uri ≠ e'.uri :=
  UriMap.pairwise_entries h

/-- What is registered for a URI and match policy is the value of its entry. -/
theorem Distinct.registered?_eq_some_iff {m : UriMap V} (h : m.Distinct) {uri : String}
    {policy : MatchPolicy} {value : V} :
    m.registered? uri policy = some value ↔ ⟨uri, policy, value⟩ ∈ m.entries := by
  rw [mem_entries]
  exact Assoc.get?_eq_some_iff (h policy)

/-- In a map with distinct keys, a value is found under a key for exact matches exactly when there
is an entry for it. -/
theorem Distinct.get?_exact_eq_some_iff {m : UriMap V} (h : m.Distinct) {uri : String} {value : V} :
    m.exact.get? uri = some value ↔ ⟨uri, .exact, value⟩ ∈ m.entries := by
  have hexact : m.registered? uri .exact = m.exact.get? uri := rfl
  rw [← hexact]
  exact h.registered?_eq_some_iff

end UriMap

end Wamp
