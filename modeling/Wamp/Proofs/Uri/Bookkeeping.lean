import Mathlib.Order.Bounds.Basic
import Wamp.Proofs.Uri.Edits

/-!
# What a map lists, by its history

A map keeps its tables up to date one change at a time. What it lists is told here from the whole
sequence of changes instead: a URI and match policy has an entry if some registration of it was not
followed by a removal, its place is that of the first such registration, and its value is the one
registered last. `Follows` says so of a table, and every change keeps it. With what a single change
returns and does to the list, this is all that the bookkeeping of a map amounts to
(`bookkept_ofEdits`).
-/

namespace Wamp

namespace UriMap

variable {V : Type _}

/-! ## Histories -/

/-- A change takes the entry of a URI and match policy out of a map. -/
inductive Edit.Removes (uri : String) (policy : MatchPolicy) : Edit V → Prop
  | delete : Removes uri policy (.delete uri policy)
  | clear : Removes uri policy .clear

/-- The change at a position registers a value for a URI and match policy. -/
def RegisteredAt (edits : List (Edit V)) (uri : String) (policy : MatchPolicy) (i : Nat) : Prop :=
  ∃ value, edits[i]? = some (.register uri value policy)

/-- The change at a position registers a value for a URI and match policy, and no later change
removes its entry. -/
structure StandsAt (edits : List (Edit V)) (uri : String) (policy : MatchPolicy) (i : Nat) :
    Prop where
  registered : RegisteredAt edits uri policy i
  kept : ∀ j change, i < j → edits[j]? = some change → ¬ change.Removes uri policy

/-- The position is that of the first registration of a URI and match policy since its entry was
last removed. -/
def Since (edits : List (Edit V)) (uri : String) (policy : MatchPolicy) (i : Nat) : Prop :=
  IsLeast {j | StandsAt edits uri policy j} i

/-- The value is the one registered last for a URI and match policy. -/
def LastValue (edits : List (Edit V)) (uri : String) (policy : MatchPolicy) (value : V) : Prop :=
  ∃ i, IsGreatest {j | RegisteredAt edits uri policy j} i ∧
    edits[i]? = some (.register uri value policy)

section

variable {edits : List (Edit V)} {change : Edit V} {uri : String} {policy : MatchPolicy}
  {value : V} {i : Nat}

/-- A history with one more change has that change behind the others. -/
theorem getElem?_concat_eq_some_iff {other : Edit V} :
    (edits ++ [change])[i]? = some other ↔
      edits[i]? = some other ∨ i = edits.length ∧ change = other := by
  rw [List.getElem?_append]
  split
  · next h =>
    exact ⟨.inl, fun h' => h'.resolve_right fun heq => absurd heq.1 (Nat.ne_of_lt h)⟩
  · next h =>
    have hlast : i - edits.length = 0 ↔ i = edits.length := by omega
    rw [List.getElem?_eq_none (Nat.not_lt.mp h), List.getElem?_singleton]
    simp [hlast]

/-- A registration has its position within the history. -/
theorem RegisteredAt.lt_length (h : RegisteredAt edits uri policy i) : i < edits.length :=
  (List.getElem?_eq_some_iff.mp h.choose_spec).1

/-- One more change adds its own registration to those of the history. -/
theorem registeredAt_concat_iff :
    RegisteredAt (edits ++ [change]) uri policy i ↔ RegisteredAt edits uri policy i ∨
      i = edits.length ∧ ∃ value, change = .register uri value policy := by
  simp only [RegisteredAt, getElem?_concat_eq_some_iff, exists_or, exists_and_left]

/-- After one more change, no registration stands if it is a removal. Otherwise those stand that
stood before, and that of the change itself. -/
theorem standsAt_concat_iff :
    StandsAt (edits ++ [change]) uri policy i ↔ ¬ change.Removes uri policy ∧
      (StandsAt edits uri policy i ∨
        i = edits.length ∧ ∃ value, change = .register uri value policy) := by
  constructor
  · rintro ⟨hregistered, hkept⟩
    rcases registeredAt_concat_iff.mp hregistered with hbefore | ⟨rfl, value, rfl⟩
    · have hlast := hkept edits.length change hbefore.lt_length List.getElem?_concat_length
      refine ⟨hlast, .inl ⟨hbefore, fun j other hj hother => ?_⟩⟩
      exact hkept j other hj (getElem?_concat_eq_some_iff.mpr (.inl hother))
    · exact ⟨nofun, .inr ⟨rfl, value, rfl⟩⟩
  · rintro ⟨hchange, ⟨hregistered, hkept⟩ | ⟨rfl, hregister⟩⟩
    · refine ⟨registeredAt_concat_iff.mpr (.inl hregistered), fun j other hj hother => ?_⟩
      rcases getElem?_concat_eq_some_iff.mp hother with hother | ⟨-, rfl⟩
      · exact hkept j other hj hother
      · exact hchange
    · refine ⟨registeredAt_concat_iff.mpr (.inr ⟨rfl, hregister⟩), fun j other hj hother => ?_⟩
      -- There is nothing behind the last change.
      rcases getElem?_concat_eq_some_iff.mp hother with hother | ⟨rfl, -⟩
      · exact absurd hj (Nat.not_lt.mpr (Nat.le_of_lt (List.getElem?_eq_some_iff.mp hother).1))
      · exact absurd hj (Nat.lt_irrefl _)

/-- A registration that stands has a first one that does. -/
theorem StandsAt.exists_since (h : StandsAt edits uri policy i) : ∃ j, Since edits uri policy j := by
  induction i using Nat.strong_induction_on with
  | _ i ih =>
    by_cases hfirst : ∃ j, j < i ∧ StandsAt edits uri policy j
    · obtain ⟨j, hj, hstands⟩ := hfirst
      exact ih j hj hstands
    · exact ⟨i, h, fun j hj => Nat.not_lt.mp fun hlt => hfirst ⟨j, hlt, hj⟩⟩

/-- The first registration stays the first when nothing is removed. -/
theorem Since.concat (h : Since edits uri policy i) (hchange : ¬ change.Removes uri policy) :
    Since (edits ++ [change]) uri policy i := by
  refine ⟨standsAt_concat_iff.mpr ⟨hchange, .inl h.1⟩, fun j hj => ?_⟩
  rcases (standsAt_concat_iff.mp hj).2 with hj | ⟨rfl, -⟩
  · exact h.2 hj
  · exact Nat.le_of_lt h.1.registered.lt_length

/-- A registration is the first if none stood before it. -/
theorem since_register (h : ∀ i, ¬ StandsAt edits uri policy i) :
    Since (edits ++ [.register uri value policy]) uri policy edits.length := by
  refine ⟨standsAt_concat_iff.mpr ⟨nofun, .inr ⟨rfl, value, rfl⟩⟩, fun j hj => ?_⟩
  rcases (standsAt_concat_iff.mp hj).2 with hj | ⟨rfl, -⟩
  · exact absurd hj (h j)
  · exact Nat.le_refl _

/-- A value that was just registered is the last one. -/
theorem lastValue_register : LastValue (edits ++ [.register uri value policy]) uri policy value := by
  refine ⟨edits.length, ⟨?_, fun j hj => ?_⟩, List.getElem?_concat_length⟩
  · exact registeredAt_concat_iff.mpr (.inr ⟨rfl, value, rfl⟩)
  · have hlt := RegisteredAt.lt_length hj
    rw [List.length_append] at hlt
    exact Nat.le_of_lt_succ hlt

/-- The last value stays the last one when nothing is registered in its place. -/
theorem LastValue.concat (h : LastValue edits uri policy value)
    (hchange : ∀ value, change ≠ .register uri value policy) :
    LastValue (edits ++ [change]) uri policy value := by
  obtain ⟨i, ⟨hi, hlast⟩, hvalue⟩ := h
  refine ⟨i, ⟨registeredAt_concat_iff.mpr (.inl hi), fun j hj => ?_⟩,
    getElem?_concat_eq_some_iff.mpr (.inl hvalue)⟩
  rcases registeredAt_concat_iff.mp hj with hj | ⟨-, value, heq⟩
  · exact hlast hj
  · exact absurd heq (hchange value)

end

/-! ## One table -/

/-- A URI has its place before another one under the same match policy. -/
def Precedes (edits : List (Edit V)) (policy : MatchPolicy) (uri uri' : String) : Prop :=
  ∃ i i', Since edits uri policy i ∧ Since edits uri' policy i' ∧ i < i'

/-- The table of a match policy is what the history says. -/
structure Follows (edits : List (Edit V)) (policy : MatchPolicy) (table : Assoc String V) :
    Prop where
  /-- The keys are the URIs with a registration that stands. -/
  keys : ∀ uri, uri ∈ table.keys ↔ ∃ i, StandsAt edits uri policy i
  /-- They stand in the order of their first registrations since they were removed. -/
  order : table.keys.Pairwise (Precedes edits policy)
  /-- What is found is the value registered last. -/
  value : ∀ uri value, table.get? uri = some value → LastValue edits uri policy value

section

variable {edits : List (Edit V)} {policy : MatchPolicy} {table : Assoc String V}

/-- A change that removes neither of two URIs leaves them in their order. -/
theorem Precedes.concat {change : Edit V} {uri uri' : String}
    (h : Precedes edits policy uri uri') (huri : ¬ change.Removes uri policy)
    (huri' : ¬ change.Removes uri' policy) : Precedes (edits ++ [change]) policy uri uri' := by
  obtain ⟨i, i', hi, hi', hlt⟩ := h
  exact ⟨i, i', hi.concat huri, hi'.concat huri', hlt⟩

/-- A change that concerns no entry of the policy leaves the table. -/
theorem Follows.keep (h : Follows edits policy table) {change : Edit V}
    (hremoves : ∀ uri, ¬ change.Removes uri policy)
    (hregister : ∀ uri value, change ≠ .register uri value policy) :
    Follows (edits ++ [change]) policy table where
  keys uri := by
    rw [h.keys]
    refine exists_congr fun i => ?_
    rw [standsAt_concat_iff]
    constructor
    · exact fun hi => ⟨hremoves uri, .inl hi⟩
    · rintro ⟨-, hi | ⟨-, value, heq⟩⟩
      · exact hi
      · exact absurd heq (hregister uri value)
  order := h.order.imp fun hprecedes => hprecedes.concat (hremoves _) (hremoves _)
  value uri value hvalue := (h.value uri value hvalue).concat (hregister uri)

/-- A registration puts the value in. -/
theorem Follows.put (h : Follows edits policy table) (uri : String) (value : V) :
    Follows (edits ++ [.register uri value policy]) policy (table.put uri value) where
  keys other := by
    rw [Assoc.mem_keys_put, h.keys]
    constructor
    · rintro (rfl | ⟨i, hi⟩)
      · exact ⟨edits.length, standsAt_concat_iff.mpr ⟨nofun, .inr ⟨rfl, value, rfl⟩⟩⟩
      · exact ⟨i, standsAt_concat_iff.mpr ⟨nofun, .inl hi⟩⟩
    · rintro ⟨i, hi⟩
      rcases (standsAt_concat_iff.mp hi).2 with hi | ⟨-, value', heq⟩
      · exact .inr ⟨i, hi⟩
      · exact .inl (Edit.register.inj heq).1.symm
  order := by
    have hkept : table.keys.Pairwise (Precedes (edits ++ [.register uri value policy]) policy) :=
      h.order.imp fun hprecedes => hprecedes.concat nofun nofun
    by_cases hmem : uri ∈ table.keys
    · rw [Assoc.keys_put_of_mem value hmem]
      exact hkept
    -- A new key comes last, and every other one was registered before it.
    · have hnone : ∀ i, ¬ StandsAt edits uri policy i := fun i hi => hmem ((h.keys uri).mpr ⟨i, hi⟩)
      have hkeys : (table.put uri value).keys = table.keys ++ [uri] := by
        rw [Assoc.put_of_notMem value hmem]
        exact List.map_append
      rw [hkeys, List.pairwise_append]
      refine ⟨hkept, List.pairwise_singleton _ _, fun other hother last hlast => ?_⟩
      obtain rfl := List.mem_singleton.mp hlast
      obtain ⟨i, hi⟩ := (h.keys other).mp hother
      obtain ⟨j, hj⟩ := hi.exists_since
      exact ⟨j, edits.length, hj.concat nofun, since_register hnone, hj.1.registered.lt_length⟩
  value other value' hvalue := by
    by_cases hother : uri = other
    · rw [← hother, Assoc.get?_put_self] at hvalue
      obtain rfl : value = value' := Option.some.inj hvalue
      rw [← hother]
      exact lastValue_register
    · rw [Assoc.get?_put_of_ne hother] at hvalue
      exact (h.value other value' hvalue).concat fun v heq => hother (Edit.register.inj heq).1

/-- A removal takes the URI out. -/
theorem Follows.erase (h : Follows edits policy table) (uri : String) :
    Follows (edits ++ [.delete uri policy]) policy (table.erase uri) where
  keys other := by
    rw [Assoc.mem_keys_erase, h.keys]
    constructor
    · rintro ⟨⟨i, hi⟩, hne⟩
      refine ⟨i, standsAt_concat_iff.mpr ⟨?_, .inl hi⟩⟩
      rintro ⟨⟩
      exact hne rfl
    · rintro ⟨i, hi⟩
      obtain ⟨hremoves, hi | ⟨-, value, heq⟩⟩ := standsAt_concat_iff.mp hi
      · refine ⟨⟨i, hi⟩, fun heq => hremoves ?_⟩
        rw [heq]
        exact .delete
      · cases heq
  order := by
    rw [Assoc.keys_erase, List.pairwise_filter]
    refine h.order.imp fun hprecedes hother hother' => hprecedes.concat ?_ ?_
    · rintro ⟨⟩
      simp at hother
    · rintro ⟨⟩
      simp at hother'
  value other value hvalue := by
    by_cases hother : uri = other
    · rw [← hother, Assoc.get?_erase_self] at hvalue
      cases hvalue
    · rw [Assoc.get?_erase_of_ne hother] at hvalue
      exact (h.value other value hvalue).concat nofun

/-- Nothing is left when everything was removed. -/
theorem follows_clear : Follows (edits ++ [.clear]) policy [] where
  keys uri := by
    constructor
    · nofun
    · rintro ⟨i, hi⟩
      exact absurd .clear (standsAt_concat_iff.mp hi).1
  order := .nil
  value := nofun

end

/-- Without any change there is nothing in a table. -/
theorem follows_nil (policy : MatchPolicy) : Follows ([] : List (Edit V)) policy [] where
  keys uri := by
    constructor
    · nofun
    · rintro ⟨i, ⟨value, hvalue⟩, -⟩
      cases hvalue
  order := .nil
  value := nofun

/-- The tables of the map without entries are empty. -/
theorem table_empty (policy : MatchPolicy) : (empty : UriMap V).table policy = [] := by
  cases policy <;> rfl

/-- Each table of a map is what the history of the map says. -/
theorem follows_ofEdits (edits : List (Edit V)) (policy : MatchPolicy) :
    Follows edits policy ((ofEdits edits).table policy) := by
  induction edits using List.reverseRecOn with
  | nil =>
    rw [ofEdits, List.foldl_nil, table_empty]
    exact follows_nil policy
  | append_singleton edits change ih =>
    rw [ofEdits_concat]
    cases change with
    | register uri value other =>
      show Follows _ _ (((ofEdits edits).modify other (Assoc.put uri value)).table policy)
      rw [table_modify]
      by_cases hpolicy : other = policy
      · rw [if_pos hpolicy, hpolicy]
        exact ih.put uri value
      · rw [if_neg hpolicy]
        refine ih.keep (fun uri' hremoves => ?_) fun uri' value' heq => ?_
        · cases hremoves
        · exact hpolicy (Edit.register.inj heq).2.2
    | delete uri other =>
      show Follows _ _ (((ofEdits edits).modify other (Assoc.erase uri)).table policy)
      rw [table_modify]
      by_cases hpolicy : other = policy
      · rw [if_pos hpolicy, hpolicy]
        exact ih.erase uri
      · rw [if_neg hpolicy]
        refine ih.keep (fun uri' hremoves => ?_) fun uri' value' heq => ?_
        · cases hremoves
          exact hpolicy rfl
        · cases heq
    | clear =>
      show Follows _ _ ((empty : UriMap V).table policy)
      rw [table_empty]
      exact follows_clear

/-! ## The list of entries -/

/-- The entries of a policy, in their order, are those of its table. -/
theorem filter_entries (m : UriMap V) (policy : MatchPolicy) :
    m.entries.filter (·.matching = policy) = (m.table policy).map (Entry.ofPair policy) := by
  obtain ⟨A, B, hentries, hA, hB⟩ := m.entries_eq policy
  have hnone {l : List (Entry V)} (h : ∀ e ∈ l, e.matching ≠ policy) :
      l.filter (·.matching = policy) = [] :=
    List.filter_eq_nil_iff.mpr fun e he => by simpa using h e he
  have hall : ((m.table policy).map (Entry.ofPair policy)).filter (·.matching = policy) =
      (m.table policy).map (Entry.ofPair policy) := by
    refine List.filter_eq_self.mpr fun e he => ?_
    obtain ⟨pair, -, rfl⟩ := List.mem_map.mp he
    exact decide_eq_true rfl
  rw [hentries, List.filter_append, List.filter_append, hnone hA, hnone hB, hall, List.append_nil,
    List.nil_append]

/-- A URI has an entry under a match policy exactly when it is a key of the table. -/
theorem exists_mem_entries_iff {m : UriMap V} {uri : String} {policy : MatchPolicy} :
    (∃ value, ⟨uri, policy, value⟩ ∈ m.entries) ↔ uri ∈ (m.table policy).keys := by
  simp only [mem_entries, Assoc.keys, List.mem_map, Prod.exists, exists_and_right, exists_eq_right]

/-- The number of entries is the size of the map. -/
theorem size_eq_length (m : UriMap V) : m.size = m.entries.length := by
  simp only [size, entries, MatchPolicy.all, List.flatMap_cons, List.flatMap_nil, List.length_append,
    List.length_map, List.length_nil, table]
  omega

/-- A registration for a URI and match policy that has an entry replaces the value of the entry in
its place. -/
theorem Distinct.entries_insert {m : UriMap V} (h : m.Distinct) {uri : String}
    {policy : MatchPolicy} (value : V) (hmem : uri ∈ (m.table policy).keys) :
    (m.insert uri value policy).entries = m.entries.map fun e =>
      if e.uri = uri ∧ e.matching = policy then ⟨uri, policy, value⟩ else e := by
  unfold entries
  rw [List.map_flatMap]
  refine List.flatMap_congr fun other _ => ?_
  rw [insert, table_modify, List.map_map]
  by_cases hpolicy : policy = other
  · subst hpolicy
    rw [if_pos rfl, Assoc.put_of_mem value (h policy) hmem, List.map_map]
    refine List.map_congr_left fun pair _ => ?_
    by_cases huri : pair.1 = uri
    · simp [huri]
    · simp [huri]
  · rw [if_neg hpolicy]
    refine List.map_congr_left fun pair _ => ?_
    simp [Ne.symm hpolicy]

/-- A registration for a URI and match policy that has no entry adds one behind the others of the
policy. -/
theorem filter_entries_insert {m : UriMap V} {uri : String} {policy : MatchPolicy} (value : V)
    (h : uri ∉ (m.table policy).keys) :
    (m.insert uri value policy).entries.filter (·.matching = policy) =
      m.entries.filter (·.matching = policy) ++ [⟨uri, policy, value⟩] := by
  rw [filter_entries, filter_entries, insert, table_modify, if_pos rfl,
    Assoc.put_of_notMem value h, List.map_append]
  rfl

/-- The map is what its history says, and its operations treat its list of entries as such. -/
structure Bookkept (edits : List (Edit V)) (m : UriMap V) : Prop where
  /-- Exact entries come first, then prefixes, then wildcard patterns. -/
  grouped : m.entries = m.entries.filter (·.matching = .exact) ++
    (m.entries.filter (·.matching = .prefixed) ++ m.entries.filter (·.matching = .wildcard))
  /-- Under one policy, each entry has the place of its first registration since it was last
  removed. -/
  ordered : m.entries.Pairwise fun e e' =>
    e.matching = e'.matching → Precedes edits e.matching e.uri e'.uri
  /-- No URI is listed twice under one policy. -/
  once : m.entries.Pairwise fun e e' => ¬ (e.uri = e'.uri ∧ e.matching = e'.matching)
  /-- What is listed was registered and not removed since. -/
  listed : ∀ uri policy,
    (∃ value, ⟨uri, policy, value⟩ ∈ m.entries) ↔ ∃ i, StandsAt edits uri policy i
  /-- What is listed has the value that was registered last. -/
  value : ∀ e ∈ m.entries, LastValue edits e.uri e.matching e.value
  /-- The size is the number of entries. -/
  size : m.size = m.entries.length
  /-- A registration returns the value of the entry that it replaces. -/
  returned : ∀ uri value policy old,
    (m.register uri value policy).2 = some old ↔ ⟨uri, policy, old⟩ ∈ m.entries
  /-- A registration replaces an entry in its place. -/
  replaced : ∀ uri value policy old, ⟨uri, policy, old⟩ ∈ m.entries →
    (m.register uri value policy).1.entries = m.entries.map fun e =>
      if e.uri = uri ∧ e.matching = policy then ⟨uri, policy, value⟩ else e
  /-- A registration of something that is not listed adds an entry behind the others of its
  policy. -/
  added : ∀ uri value policy, (∀ old, ⟨uri, policy, old⟩ ∉ m.entries) →
    (m.register uri value policy).1.entries.filter (·.matching = policy) =
      m.entries.filter (·.matching = policy) ++ [⟨uri, policy, value⟩]
  /-- A removal tells whether there was an entry to remove. -/
  removed : ∀ uri policy,
    (m.remove uri policy).2 = true ↔ ∃ value, ⟨uri, policy, value⟩ ∈ m.entries
  /-- A removal leaves all other entries, in their order. -/
  left : ∀ uri policy, (m.remove uri policy).1.entries =
    m.entries.filter fun e => ¬ (e.uri = uri ∧ e.matching = policy)

/-- Whatever the history of a map, its list of entries is what the history says, and registrations
and removals treat it as an ordered list of entries. -/
theorem bookkept_ofEdits (edits : List (Edit V)) : Bookkept edits (ofEdits edits) := by
  have hfollows := follows_ofEdits edits
  have hdistinct := distinct_ofEdits edits
  refine ⟨?grouped, ?ordered, ?once, ?listed, ?value, size_eq_length _, ?returned, ?replaced,
    ?added, ?removed, fun uri policy => entries_erase _ uri policy⟩
  case grouped =>
    rw [filter_entries, filter_entries, filter_entries]
    exact congrArg (_ ++ ·) (congrArg (_ ++ ·) (List.append_nil _))
  case ordered => exact pairwise_entries fun policy => (hfollows policy).order
  case once => exact hdistinct.pairwise_entries.imp fun hne heq => hne heq.2 heq.1
  case listed =>
    intro uri policy
    rw [exists_mem_entries_iff]
    exact (hfollows policy).keys uri
  case value =>
    rintro ⟨uri, policy, value⟩ he
    exact (hfollows policy).value uri value (hdistinct.registered?_eq_some_iff.mpr he)
  case returned => exact fun uri value policy old => hdistinct.registered?_eq_some_iff
  case replaced =>
    intro uri value policy old hold
    exact hdistinct.entries_insert value (exists_mem_entries_iff.mp ⟨old, hold⟩)
  case added =>
    intro uri value policy hnone
    refine filter_entries_insert value fun hmem => ?_
    obtain ⟨old, hold⟩ := exists_mem_entries_iff.mpr hmem
    exact hnone old hold
  case removed =>
    intro uri policy
    rw [remove, Option.isSome_iff_exists]
    exact exists_congr fun value => hdistinct.registered?_eq_some_iff

example : (ofEdits [.register "a" 1 .wildcard, .register "b" 2 .wildcard, .register "c" 3 .wildcard,
      .register "a" 4 .wildcard, .delete "b" .wildcard, .register "b" 5 .wildcard,
      .register "a" 6 .exact]).entries =
    [⟨"a", .exact, 6⟩, ⟨"a", .wildcard, 4⟩, ⟨"c", .wildcard, 3⟩, ⟨"b", .wildcard, 5⟩] := rfl

end UriMap

end Wamp
