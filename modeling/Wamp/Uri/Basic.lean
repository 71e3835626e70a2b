import Wamp.Field
import Wamp.Uri.Blank

/-!
# URIs

A URI is a string of segments separated by dots. A strict segment consists of lower case letters,
digits and underscores; a loose one of any characters other than the hash sign and blanks. Every
segment holds a character, except that under the wildcard policy a segment may be empty; the empty
string is never a URI. Acceptance is decided in one pass that remembers only whether the current
segment has begun, and `segments` splits a URI for the comparison of patterns.
-/

namespace Wamp

/-- How a registered URI is compared with the URIs that are looked up. -/
inductive MatchPolicy where
  | exact
  | prefixed
  | wildcard
  deriving DecidableEq

/-- The word for a match policy. -/
def MatchPolicy.word : MatchPolicy → String
  | .exact => "exact"
  | .prefixed => "prefix"
  | .wildcard => "wildcard"

/-- The match policy of a registration that may leave it out. -/
def MatchPolicy.orExact (matching : Option MatchPolicy) : MatchPolicy := matching.getD .exact

/-- The match policies. -/
def MatchPolicy.all : List MatchPolicy := [.exact, .prefixed, .wildcard]

namespace Uri

/-- The rules that a URI is held to. A rule that is left undefined is neither strict nor
wildcard. -/
structure Policy where
  /-- Whether segments are strict. -/
  strict : Option Bool := some false
  /-- Whether segments may be empty, which only wildcard patterns allow. -/
  matching : Option MatchPolicy := some .exact
  deriving DecidableEq

namespace Policy

/-- Loose and exact. -/
def default : Policy := {}

/-- The default policy under the fields that a caller gives. -/
def ofFields (strict : Field Bool) (matching : Field MatchPolicy) : Policy :=
  ⟨strict.overlay default.strict, matching.overlay default.matching⟩

/-- Whether segments are held to the strict alphabet. -/
def isStrict (p : Policy) : Bool := p.strict.getD false

/-- Whether a segment may be empty. -/
def allowsEmpty (p : Policy) : Bool := p.matching = some .wildcard

/-- The word for a policy's strictness. -/
def strictness (p : Policy) : String := if p.isStrict then "strict" else "loose"

/-- The word for how a policy compares. -/
def matchWord (p : Policy) : String := (p.matching.map MatchPolicy.word).getD "undefined"

end Policy

/-- Whether a character may stand in a strict segment. -/
def isStrictChar (c : Char) : Bool := c.isLower || c.isDigit || c = '_'

/-- Whether a character may stand in a loose segment. -/
def isLooseChar (c : Char) : Bool := !(c = '.' || c = '#' || isBlank c)

/-- Whether a character may stand in a segment. -/
def isSegmentChar (strict : Bool) (c : Char) : Bool :=
  if strict then isStrictChar c else isLooseChar c

/-- Reads the characters that follow; `begun` tells whether the current segment has one. -/
def accepts (strict allowsEmpty : Bool) (begun : Bool) : List Char → Bool
  | [] => begun || allowsEmpty
  | c :: cs =>
    if c = '.' then (begun || allowsEmpty) && accepts strict allowsEmpty false cs
    else isSegmentChar strict c && accepts strict allowsEmpty true cs

/-- Whether a string is a URI under a policy. -/
def isUri (policy : Policy) (s : String) : Bool :=
  !s.toList.isEmpty && accepts policy.isStrict policy.allowsEmpty false s.toList

/-- Puts a character in front of the first part. -/
def consFirst (c : Char) : List (List Char) → List (List Char)
  | [] => [[c]]
  | part :: parts => (c :: part) :: parts

/-- The parts between dots; there is one more than there are dots. -/
def splitDots : List Char → List (List Char)
  | [] => [[]]
  | c :: cs => if c = '.' then [] :: splitDots cs else consFirst c (splitDots cs)

/-- The segments of a URI. -/
def segments (uri : String) : List String := (splitDots uri.toList).map String.ofList

/-- The number of segments that hold a character. -/
def specificity (segments : List String) : Nat := (segments.filter (· ≠ "")).length

/-- Whether each segment of a pattern is empty or equal to the segment at its place, with none left
over on either side. -/
def matchesWildcard : List String → List String → Bool
  | [], [] => true
  | p :: ps, s :: ss => (p = "" || p = s) && matchesWildcard ps ss
  | _, _ => false

/-- Whether the segments of a pattern lead the given segments. -/
def matchesLeading : List String → List String → Bool
  | [], _ => true
  | p :: ps, s :: ss => p = s && matchesLeading ps ss
  | _ :: _, [] => false

end Uri

end Wamp
