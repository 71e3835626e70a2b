import Wamp.Proofs.Uri.Resolution

/-!
# The entry that wins a URI

The documented order of resolution names one entry for each URI that some entry applies to: its
winner (`Wins`). All three kinds of entries are put on one scale here, `Entry.merit`, on which an
exact entry stands above every prefix and a prefix above every wildcard pattern, so that the winner
is the first of greatest merit among the entries that apply (`FirstBest.wins`). What a change to a
list of entries does to the winner then is a question about a single scan: it is left alone when
others are dropped (`Scanned.filter`), when an entry of no greater merit is added
(`Scanned.concat_of_le`), and when the order changes between entries of different policies only
(`Scanned.regroup`). A map resolves a URI to the value of its winner
(`Distinct.resolve_eq_resultOf`).
-/

namespace Wamp

namespace UriMap

/-! ## The best element of a changed list -/

section Scan

variable {α : Type _} {P : α → Prop} {rank : α → Nat} {l : List α} {a b : α}
  {best? : Option α} {keep : α → Bool}

/-- The first best element stands in the list. -/
theorem FirstBest.mem (h : FirstBest P rank l a) : a ∈ l := by
  obtain ⟨-, before, after, rfl, -⟩ := h
  exact List.mem_append_right before List.mem_cons_self

/-- Nothing with the property ranks higher than the first best element. -/
theorem FirstBest.rank_le (h : FirstBest P rank l a) {x : α} (hx : x ∈ l) (hPx : P x) :
    rank x ≤ rank a := by
  obtain ⟨-, before, after, rfl, hbefore, hafter⟩ := h
  rcases List.mem_append.mp hx with hx | hx
  · exact Nat.le_of_lt (hbefore x hx hPx)
  · rcases List.mem_cons.mp hx with rfl | hx
    · exact Nat.le_refl _
    · exact hafter x hx hPx

/-- A list has only one first best element. -/
theorem FirstBest.unique (ha : FirstBest P rank l a) (hb : FirstBest P rank l b) : a = b := by
  have hab := ha.rank_le hb.mem hb.1
  have hba := hb.rank_le ha.mem ha.1
  obtain ⟨hPa, before, after, rfl, hbefore, -⟩ := ha
  obtain ⟨hPb, before', after', heq, hbefore', -⟩ := hb
  -- One that stands before the other would rank lower, and they rank alike.
  rcases List.append_eq_append_iff.mp heq with ⟨between, hsplit, hrest⟩ | ⟨between, hsplit, hrest⟩
  · cases between with
    | nil => exact (List.cons.inj hrest).1
    | cons x between =>
      obtain ⟨rfl, -⟩ := List.cons.inj hrest
      exact absurd (hbefore' a (by simp [hsplit]) hPa) (Nat.not_lt.mpr hab)
  · cases between with
    | nil => exact (List.cons.inj hrest).1.symm
    | cons x between =>
      obtain ⟨rfl, -⟩ := List.cons.inj hrest
      exact absurd (hbefore b (by simp [hsplit]) hPb) (Nat.not_lt.mpr hba)

/-- A scan of any list has something to say. -/
theorem exists_scanned (P : α → Prop) (rank : α → Nat) (l : List α) :
    ∃ best?, Scanned P rank l best? := by
  classical
  exact ⟨_, scanned_firstBest (p := fun a => decide (P a)) (fun a => decide_eq_true_iff) l⟩

/-- A scan finds something in a list where something has the property. -/
theorem Scanned.exists_eq_some (h : Scanned P rank l best?) {x : α} (hx : x ∈ l) (hPx : P x) :
    ∃ a, best? = some a := by
  cases best? with
  | none => exact absurd hPx (h x hx)
  | some a => exact ⟨a, rfl⟩

/-- A further element that ranks no higher than the best one does not affect it. -/
theorem Scanned.concat_of_le (h : Scanned P rank l best?) {x : α}
    (hx : P x → ∃ a, best? = some a ∧ rank x ≤ rank a) : Scanned P rank (l ++ [x]) best? := by
  by_cases hPx : P x
  · obtain ⟨a, rfl, hle⟩ := hx hPx
    have hkept : better rank (some a) x = some a := if_neg (Nat.not_lt.mpr hle)
    rw [← hkept]
    exact h.step hPx
  · exact h.skip hPx

/-- The best element is not affected when others are dropped. -/
theorem Scanned.filter (h : Scanned P rank l best?) (hkeep : ∀ a, best? = some a → keep a = true) :
    Scanned P rank (l.filter keep) best? := by
  cases best? with
  | none => exact fun x hx => h x (List.mem_of_mem_filter hx)
  | some a =>
    obtain ⟨ha, before, after, rfl, hbefore, hafter⟩ := h
    refine ⟨ha, before.filter keep, after.filter keep, ?_, fun x hx => ?_, fun x hx => ?_⟩
    · rw [List.filter_append, List.filter_cons_of_pos (hkeep a rfl)]
    · exact hbefore x (List.mem_of_mem_filter hx)
    · exact hafter x (List.mem_of_mem_filter hx)

/-- The first best element stays the first best among the elements of a smaller property, on any
scale that ranks these in the same way. -/
theorem FirstBest.narrow {Q : α → Prop} {rank' : α → Nat} (h : FirstBest P rank l a) (ha : Q a)
    (hsub : ∀ x, Q x → P x) (hrank : ∀ x y, Q x → Q y → (rank x < rank y ↔ rank' x < rank' y)) :
    FirstBest Q rank' l a := by
  obtain ⟨-, before, after, rfl, hbefore, hafter⟩ := h
  refine ⟨ha, before, after, rfl, fun x hx hQx => ?_, fun x hx hQx => ?_⟩
  · exact (hrank x a hQx ha).mp (hbefore x hx (hsub x hQx))
  · have hnot := Nat.not_lt.mpr (hafter x hx (hsub x hQx))
    rw [hrank a x ha hQx] at hnot
    exact Nat.not_lt.mp hnot

/-- Lists that have the same groups have the same elements. -/
theorem mem_of_regrouped {γ : Type _} [DecidableEq γ] {group : α → γ} {l' : List α}
    (hgroups : ∀ g, l'.filter (group · = g) = l.filter (group · = g)) {x : α} :
    x ∈ l' ↔ x ∈ l := by
  have hgroup (l : List α) : x ∈ l ↔ x ∈ l.filter (group · = group x) := by simp
  rw [hgroup l', hgroups, ← hgroup l]

/-- The first best element stays the first best when the order changes between groups only, where
elements that rank alike are in one group. -/
theorem Scanned.regroup {γ : Type _} [DecidableEq γ] {group : α → γ} {l' : List α}
    (h : Scanned P rank l best?)
    (hgroup : ∀ x y, P x → P y → rank x = rank y → group x = group y)
    (hgroups : ∀ g, l'.filter (group · = g) = l.filter (group · = g)) :
    Scanned P rank l' best? := by
  have hmem {x : α} (hx : x ∈ l') : x ∈ l := (mem_of_regrouped hgroups).mp hx
  cases best? with
  | none => exact fun x hx => h x (hmem hx)
  | some a =>
    have hle {x : α} (hx : x ∈ l') (hPx : P x) : rank x ≤ rank a := h.rank_le (hmem hx) hPx
    obtain ⟨ha, before, after, rfl, hbefore, -⟩ := h
    -- The group of the best element is split at it, and hence so is the other list.
    have hcons : (a :: after).filter (group · = group a) = a :: after.filter (group · = group a) :=
      List.filter_cons_of_pos (decide_eq_true rfl)
    have hsplit := hgroups (group a)
    rw [List.filter_append, hcons, List.filter_eq_append_iff] at hsplit
    obtain ⟨front, back, rfl, hfront, hback⟩ := hsplit
    obtain ⟨others, rest, rfl, hothers, -, -⟩ := List.filter_eq_cons_iff.mp hback
    refine ⟨ha, front ++ others, rest, by simp, fun x hx hPx => ?_, fun x hx => hle (by simp [hx])⟩
    have hxle : rank x ≤ rank a := by
      refine hle ?_ hPx
      rw [← List.append_assoc]
      exact List.mem_append_left _ hx
    refine Nat.lt_of_le_of_ne hxle fun hrank => ?_
    -- What ranks alike belongs to the group, and there it stands before the best element.
    have hxa : decide (group x = group a) = true := decide_eq_true (hgroup x a hPx ha hrank)
    rcases List.mem_append.mp hx with hx | hx
    · have hxfront : x ∈ front.filter (group · = group a) := List.mem_filter.mpr ⟨hx, hxa⟩
      rw [hfront] at hxfront
      exact Nat.ne_of_lt (hbefore x (List.mem_of_mem_filter hxfront) hPx) hrank
    · exact hothers x hx hxa

end Scan

variable {V : Type _}

/-! ## The merit of an entry -/

/-- The rank of a match policy in the order of resolution. -/
def precedence : MatchPolicy → Nat
  | .exact => 2
  | .prefixed => 1
  | .wildcard => 0

/-- A match policy is known by its rank. -/
theorem precedence_injective {p q : MatchPolicy} (h : precedence p = precedence q) : p = q := by
  cases p <;> cases q <;> simp [precedence] at h ⊢

namespace Entry

/-- What an entry is registered under. -/
def key (e : Entry V) : String × MatchPolicy := (e.uri, e.matching)

/-- An entry applies to the URIs that it may be the answer for. -/
def Applies (uri : String) (e : Entry V) : Prop := e.IsFor uri ∨ e.Leads uri ∨ e.Fits uri

instance (uri : String) (e : Entry V) : Decidable (e.IsFor uri) :=
  inferInstanceAs (Decidable (_ ∧ _))

instance (uri : String) (e : Entry V) : Decidable (e.Leads uri) :=
  inferInstanceAs (Decidable (_ ∧ _))

instance (uri : String) (e : Entry V) : Decidable (e.Fits uri) :=
  decidable_of_iff
    (e.matching = .wildcard ∧
      Uri.matchesWildcard (Uri.segments e.uri) (Uri.segments uri) = true)
    (and_congr_right fun _ => Uri.matchesWildcard_iff)

/-- What decides between entries of one policy: the number of segments of a prefix, the number of
those of a wildcard pattern that hold a character. -/
def reach (e : Entry V) : Nat :=
  match e.matching with
  | .exact => 0
  | .prefixed => e.length
  | .wildcard => e.specificity

/-- The place of an entry among all that apply to a URI: its policy comes first, then its reach,
which is at most the number of segments of the URI. -/
def merit (uri : String) (e : Entry V) : Nat :=
  precedence e.matching * ((Uri.segments uri).length + 1) + e.reach

/-- An entry with another value in the place of its own, if it is the one registered under the given
URI and match policy. -/
def replaced (uri : String) (policy : MatchPolicy) (value : V) (e : Entry V) : Entry V :=
  if e.uri = uri ∧ e.matching = policy then ⟨uri, policy, value⟩ else e

/-- An entry keeps what it is registered under when its value is replaced. -/
theorem key_replaced (uri : String) (policy : MatchPolicy) (value : V) (e : Entry V) :
    (e.replaced uri policy value).key = e.key := by
  unfold replaced
  split
  · next h => rw [key, key, h.1, h.2]
  · rfl

section

variable {uri : String} {e e' : Entry V}

/-- Whether an entry applies depends on what it is registered under. -/
theorem applies_congr (h : e.key = e'.key) : e.Applies uri ↔ e'.Applies uri := by
  obtain ⟨huri, hmatching⟩ := Prod.mk.inj h
  simp only [Applies, IsFor, Leads, Fits, huri, hmatching]

/-- The merit of an entry depends on what it is registered under. -/
theorem merit_congr (h : e.key = e'.key) : e.merit uri = e'.merit uri := by
  obtain ⟨huri, hmatching⟩ := Prod.mk.inj h
  simp only [merit, reach, length, specificity, huri, hmatching]

/-- A prefix reaches as far as it has segments. -/
theorem Leads.reach_eq (h : e.Leads uri) : e.reach = e.length := by
  rw [reach, h.1]

/-- A wildcard pattern reaches as far as it is specific. -/
theorem Fits.reach_eq (h : e.Fits uri) : e.reach = e.specificity := by
  rw [reach, h.1]

/-- No entry that applies reaches further than the URI. -/
theorem Applies.reach_le (h : e.Applies uri) : e.reach ≤ (Uri.segments uri).length := by
  rcases h with hfor | hleads | hfits
  · rw [reach, hfor.1]
    exact Nat.zero_le _
  · rw [hleads.reach_eq]
    exact hleads.2.length_le
  · rw [hfits.reach_eq]
    calc e.specificity ≤ (Uri.segments e.uri).length := List.countP_le_length
      _ = (Uri.segments uri).length := hfits.2.1

/-- An entry whose policy comes later has less merit. -/
theorem Applies.merit_lt (h : e.Applies uri)
    (hlater : precedence e.matching < precedence e'.matching) : e.merit uri < e'.merit uri := by
  have hreach := h.reach_le
  have hstep := Nat.mul_le_mul_right ((Uri.segments uri).length + 1) (Nat.succ_le_of_lt hlater)
  rw [Nat.succ_mul] at hstep
  unfold merit
  omega

/-- Entries of different policies have different merits. -/
theorem Applies.matching_eq (h : e.Applies uri) (h' : e'.Applies uri)
    (hmerit : e.merit uri = e'.merit uri) : e.matching = e'.matching := by
  rcases Nat.lt_trichotomy (precedence e.matching) (precedence e'.matching) with hlt | heq | hgt
  · exact absurd hmerit (Nat.ne_of_lt (h.merit_lt hlt))
  · exact precedence_injective heq
  · exact absurd hmerit (Nat.ne_of_gt (h'.merit_lt hgt))

/-- Among entries of one policy, merit goes by reach. -/
theorem merit_lt_iff (hmatching : e.matching = e'.matching) :
    e.merit uri < e'.merit uri ↔ e.reach < e'.reach := by
  rw [merit, merit, hmatching, Nat.add_lt_add_iff_left]

end

end Entry

/-- A map with distinct keys registers each of its entries under another key. -/
theorem Distinct.nodup_keys {m : UriMap V} (h : m.Distinct) : (m.entries.map Entry.key).Nodup := by
  refine List.pairwise_map.mpr (h.pairwise_entries.imp fun hne hkey => ?_)
  obtain ⟨huri, hmatching⟩ := Prod.mk.inj hkey
  exact hne hmatching huri

/-! ## The winner -/

/-- An entry wins a URI: it is exact; or there is no exact one, and it is the longest prefix; or
there is no prefix either, and it is the first of the most specific wildcard patterns. -/
inductive Wins (entries : List (Entry V)) (uri : String) (e : Entry V) : Prop
  | exact (hmem : e ∈ entries) (hfor : e.IsFor uri)
  | leading (hexact : ∀ x ∈ entries, ¬ x.IsFor uri)
      (hbest : FirstBest (Entry.Leads uri) Entry.length entries e)
  | wildcard (hnone : ∀ x ∈ entries, ¬ x.IsFor uri ∧ ¬ x.Leads uri)
      (hbest : FirstBest (Entry.Fits uri) Entry.specificity entries e)

section

variable {entries : List (Entry V)} {uri : String} {e e' : Entry V} {best? : Option (Entry V)}

/-- The winner is one of the entries. -/
theorem Wins.mem (h : Wins entries uri e) : e ∈ entries := by
  cases h with
  | exact hmem => exact hmem
  | leading _ hbest | wildcard _ hbest => exact hbest.mem

/-- The winner applies. -/
theorem Wins.applies (h : Wins entries uri e) : e.Applies uri := by
  cases h with
  | exact _ hfor => exact .inl hfor
  | leading _ hbest => exact .inr (.inl hbest.1)
  | wildcard _ hbest => exact .inr (.inr hbest.1)

/-- When entries are changed but not what they are registered under, the best one is the same but
for the change. -/
theorem Scanned.map_of_key {f : Entry V → Entry V} (hf : ∀ e, (f e).key = e.key)
    (h : Scanned (Entry.Applies uri) (Entry.merit uri) entries best?) :
    Scanned (Entry.Applies uri) (Entry.merit uri) (entries.map f) (best?.map f) := by
  have happlies : (fun e => (f e).Applies uri) = Entry.Applies uri :=
    funext fun e => propext (Entry.applies_congr (hf e))
  have hmerit : (fun e => (f e).merit uri) = Entry.merit uri :=
    funext fun e => Entry.merit_congr (hf e)
  rw [← happlies, ← hmerit] at h
  have hwhole := h.of_part (A := []) (B := []) nofun nofun
  rwa [List.nil_append, List.append_nil] at hwhole

/-- Winners of lists with the same entries win in the same way. -/
theorem Wins.alike {entries' : List (Entry V)} (hmem : ∀ x, x ∈ entries ↔ x ∈ entries')
    (h : Wins entries uri e) (h' : Wins entries' uri e') :
    (e.IsFor uri ∧ e'.IsFor uri) ∨
      (FirstBest (Entry.Leads uri) Entry.length entries e ∧
        FirstBest (Entry.Leads uri) Entry.length entries' e') ∨
      (∀ x ∈ entries, ¬ x.IsFor uri ∧ ¬ x.Leads uri) ∧
        FirstBest (Entry.Fits uri) Entry.specificity entries e ∧
        FirstBest (Entry.Fits uri) Entry.specificity entries' e' := by
  have he := (hmem e).mp h.mem
  have he' := (hmem e').mpr h'.mem
  cases h with
  | exact _ hfor =>
    cases h' with
    | exact _ hfor' => exact .inl ⟨hfor, hfor'⟩
    | leading hexact' => exact absurd hfor (hexact' e he)
    | wildcard hnone' => exact absurd hfor (hnone' e he).1
  | leading hexact hbest =>
    cases h' with
    | exact _ hfor' => exact absurd hfor' (hexact e' he')
    | leading _ hbest' => exact .inr (.inl ⟨hbest, hbest'⟩)
    | wildcard hnone' => exact absurd hbest.1 (hnone' e he).2
  | wildcard hnone hbest =>
    cases h' with
    | exact _ hfor' => exact absurd hfor' (hnone e' he').1
    | leading _ hbest' => exact absurd hbest'.1 (hnone e' he').2
    | wildcard _ hbest' => exact .inr (.inr ⟨hnone, hbest, hbest'⟩)

/-- All that win a URI are registered under the same. -/
theorem Wins.key_eq (h : Wins entries uri e) (h' : Wins entries uri e') : e.key = e'.key := by
  rcases h.alike (fun _ => Iff.rfl) h' with ⟨hfor, hfor'⟩ | ⟨hbest, hbest'⟩ | ⟨-, hbest, hbest'⟩
  · exact Prod.ext (hfor.2.trans hfor'.2.symm) (hfor.1.trans hfor'.1.symm)
  · rw [hbest.unique hbest']
  · rw [hbest.unique hbest']

/-- The first entry of greatest merit among those that apply is the winner. -/
theorem FirstBest.wins (h : FirstBest (Entry.Applies uri) (Entry.merit uri) entries e) :
    Wins entries uri e := by
  -- What applies has no policy that comes before the one of the best entry.
  have hpolicy : ∀ x ∈ entries, x.Applies uri → precedence x.matching ≤ precedence e.matching := by
    intro x hx happlies
    refine Nat.not_lt.mp fun hlt => ?_
    exact Nat.not_le.mpr (h.1.merit_lt hlt) (h.rank_le hx happlies)
  rcases h.1 with hfor | hleads | hfits
  · exact .exact h.mem hfor
  · refine .leading (fun x hx hfor => ?_) ?_
    · have hle := hpolicy x hx (.inl hfor)
      rw [hfor.1, hleads.1] at hle
      exact absurd hle (by decide)
    · refine h.narrow hleads (fun x hx => .inr (.inl hx)) fun x y hx hy => ?_
      rw [Entry.merit_lt_iff (hx.1.trans hy.1.symm), hx.reach_eq, hy.reach_eq]
  · refine .wildcard (fun x hx => ⟨fun hfor => ?_, fun hleads => ?_⟩) ?_
    · have hle := hpolicy x hx (.inl hfor)
      rw [hfor.1, hfits.1] at hle
      exact absurd hle (by decide)
    · have hle := hpolicy x hx (.inr (.inl hleads))
      rw [hleads.1, hfits.1] at hle
      exact absurd hle (by decide)
    · refine h.narrow hfits (fun x hx => .inr (.inr hx)) fun x y hx hy => ?_
      rw [Entry.merit_lt_iff (hx.1.trans hy.1.symm), hx.reach_eq, hy.reach_eq]

/-- In a map with distinct keys, the first entry of greatest merit is the only winner. -/
theorem Distinct.wins_iff {m : UriMap V} (h : m.Distinct)
    (hbest : FirstBest (Entry.Applies uri) (Entry.merit uri) m.entries e) :
    Wins m.entries uri e' ↔ e' = e := by
  constructor
  · intro he'
    exact List.inj_on_of_nodup_map h.nodup_keys he'.mem hbest.mem (he'.key_eq hbest.wins)
  · rintro rfl
    exact hbest.wins

end

/-! ## Resolution by the winner -/

/-- What a URI resolves to when it has the given winner. -/
def resultOf (uri : String) : Option (Entry V) → Except Fault V
  | some e => .ok e.value
  | none => .error (.noEntry uri)

section

variable {entries : List (Entry V)} {uri : String} {e e' : Entry V} {best? : Option (Entry V)}

/-- Resolution in the documented order returns the value of the winner. -/
theorem ResolvesTo.eq_ok {result : Except Fault V} (h : ResolvesTo entries uri result)
    (he : Wins entries uri e) : result = .ok e.value := by
  cases he with
  | exact hmem hfor => exact h.exact e hmem hfor
  | leading hexact hbest =>
    obtain ⟨before, x, after, hsplit, hx, hlongest, hresult⟩ :=
      h.leading hexact ⟨e, hbest.mem, hbest.1⟩
    have hfirst : FirstBest (Entry.Leads uri) Entry.length entries x :=
      ⟨hx, before, after, hsplit, fun y hy => hlongest y (List.mem_append_left after hy),
        fun y hy hleads => Nat.le_of_lt (hlongest y (List.mem_append_right before hy) hleads)⟩
    rw [hbest.unique hfirst, hresult]
  | wildcard hnone hbest =>
    obtain ⟨before, x, after, hsplit, hx, hbefore, hafter, hresult⟩ :=
      h.wildcard hnone ⟨e, hbest.mem, hbest.1⟩
    rw [hbest.unique ⟨hx, before, after, hsplit, hbefore, hafter⟩, hresult]

/-- A map with distinct keys resolves a URI to the value of its winner. -/
theorem Distinct.resolve_eq_resultOf {m : UriMap V} (h : m.Distinct)
    (hbest : Scanned (Entry.Applies uri) (Entry.merit uri) m.entries best?) :
    m.resolve uri = resultOf uri best? := by
  cases best? with
  | none =>
    refine (h.resolvesTo uri).missing fun e he => ⟨fun hfor => ?exact, fun hleads => ?leading,
      fun hfits => ?wildcard⟩
    case exact => exact hbest e he (.inl hfor)
    case leading => exact hbest e he (.inr (.inl hleads))
    case wildcard => exact hbest e he (.inr (.inr hfits))
  | some e => exact (h.resolvesTo uri).eq_ok hbest.wins

end

end UriMap

end Wamp
