import Wamp.Assoc
import Wamp.Fault

/-!
# Maps from URIs to values

A map holds one table of entries for each match policy. A URI is resolved by the exact entry for it;
failing that, by the registered prefix with the most segments; failing that, by the wildcard pattern
with the most segments that hold a character, where the one that stands first in its table wins a
tie. The keys of a map are any strings: it validates none.
-/

namespace Wamp

/-- A map from URIs to values. -/
structure UriMap (V : Type _) where
  /-- The entries for one URI each. -/
  exact : Assoc String V
  /-- The entries for every URI that their segments lead. -/
  leading : Assoc String V
  /-- The entries for every URI that their pattern fits. -/
  wildcard : Assoc String V

namespace UriMap

variable {V : Type _}

/-- The map without entries. -/
def empty : UriMap V := ⟨[], [], []⟩

/-- An entry as it was registered. -/
structure Entry (V : Type _) where
  uri : String
  matching : MatchPolicy
  value : V

/-- The table of a match policy. -/
def table (m : UriMap V) : MatchPolicy → Assoc String V
  | .exact => m.exact
  | .prefixed => m.leading
  | .wildcard => m.wildcard

/-- The map with one of its tables changed. -/
def modify (m : UriMap V) (policy : MatchPolicy) (f : Assoc String V → Assoc String V) : UriMap V :=
  match policy with
  | .exact => { m with exact := f m.exact }
  | .prefixed => { m with leading := f m.leading }
  | .wildcard => { m with wildcard := f m.wildcard }

/-- The value registered for exactly this URI and match policy. -/
def registered? (m : UriMap V) (uri : String) (policy : MatchPolicy) : Option V :=
  (m.table policy).get? uri

/-- The map with a value put in the place of any value registered for the same URI and match
policy. -/
def insert (m : UriMap V) (uri : String) (value : V) (policy : MatchPolicy) : UriMap V :=
  m.modify policy (Assoc.put uri value)

/-- The map without the entry of a URI and match policy. -/
def erase (m : UriMap V) (uri : String) (policy : MatchPolicy) : UriMap V :=
  m.modify policy (Assoc.erase uri)

/-- Registers a value and returns the one that it replaces. -/
def register (m : UriMap V) (uri : String) (value : V) (policy : MatchPolicy) :
    UriMap V × Option V :=
  (m.insert uri value policy, m.registered? uri policy)

/-- Removes an entry and tells whether it was there. -/
def remove (m : UriMap V) (uri : String) (policy : MatchPolicy) : UriMap V × Bool :=
  (m.erase uri policy, (m.registered? uri policy).isSome)

/-- The number of entries. -/
def size (m : UriMap V) : Nat := m.exact.length + m.leading.length + m.wildcard.length

/-- The entries: exact ones, then prefixes, then wildcard patterns, each in the order of their
table. -/
def entries (m : UriMap V) : List (Entry V) :=
  MatchPolicy.all.flatMap fun policy =>
    (m.table policy).map fun (uri, value) => ⟨uri, policy, value⟩

/-- The best element once one more has been seen, which takes the place of the best so far only when
it ranks higher. -/
def better {α : Type _} (rank : α → Nat) (best? : Option α) (a : α) : Option α :=
  match best? with
  | none => some a
  | some b => if rank b < rank a then some a else some b

/-- The first of the elements of greatest rank, found in one scan from the front. -/
def firstBest {α : Type _} (rank : α → Nat) (l : List α) : Option α := l.foldl (better rank) none

/-- The longest registered prefix of the segments. -/
def bestLeading? (m : UriMap V) (segments : List String) : Option (String × V) :=
  firstBest (fun (uri, _) => (Uri.segments uri).length)
    (m.leading.filter fun (uri, _) => Uri.matchesLeading (Uri.segments uri) segments)

/-- The most specific wildcard pattern that fits the segments. -/
def bestWildcard? (m : UriMap V) (segments : List String) : Option (String × V) :=
  firstBest (fun (uri, _) => Uri.specificity (Uri.segments uri))
    (m.wildcard.filter fun (uri, _) => Uri.matchesWildcard (Uri.segments uri) segments)

/-- The value that a URI resolves to. -/
def get? (m : UriMap V) (uri : String) : Option V :=
  let segments := Uri.segments uri
  ((m.exact.get? uri).or ((m.bestLeading? segments).map (·.2))).or
    ((m.bestWildcard? segments).map (·.2))

/-- The value that a URI resolves to; a URI that no entry applies to is a fault. -/
def resolve (m : UriMap V) (uri : String) : Except Fault V :=
  match m.get? uri with
  | some value => .ok value
  | none => .error (.noEntry uri)

/-- Whether some entry applies to a URI. -/
def contains (m : UriMap V) (uri : String) : Bool := (m.get? uri).isSome

end UriMap

end Wamp
