import Tabletop.Text.Basic

/-!
# Patterns

A pattern describes the texts that one kind of token can have. Its meaning is the list of
ways to read it from a spot in a text, in order of preference: a repetition prefers more
characters, an optional part prefers to be there, and of two alternatives the one written
first is preferred. The first entry is the match; so the match is the leftmost one and, among
those, the most preferred one, which need not be the longest.

A pattern sees the character before the spot only for `edge` and `start`.
-/

namespace Tabletop

/-- The small letter that a character counts as where case does not matter. Two characters
outside ASCII fold to ASCII letters: the Kelvin sign and the long s. -/
def foldCase (c : Char) : Char :=
  if c = '\u212a' then 'k' else if c = '\u017f' then 's' else c.toLower

inductive CharSet where
  /-- One of the given characters. -/
  | exactly (members : List Char)
  /-- One of the given small letters in either case. -/
  | anyCase (members : List Char)
  /-- A decimal digit of any script. -/
  | digit
  /-- A blank. -/
  | blank
  deriving DecidableEq, Repr

def CharSet.has : CharSet → Char → Bool
  | .exactly members, c => members.contains c
  | .anyCase members, c => members.contains (foldCase c)
  | .digit, c => isDigit c
  | .blank, c => isBlank c

inductive Pattern where
  /-- Nothing at all, which is always there. -/
  | empty
  /-- One character of a set. -/
  | one (set : CharSet)
  /-- At least `least` characters of a set, as many as possible. -/
  | many (set : CharSet) (least : Nat)
  /-- The pattern, or else nothing. -/
  | maybe (p : Pattern)
  | seq (p q : Pattern)
  | alt (p q : Pattern)
  /-- The pattern, whose text is remembered under a number. -/
  | group (number : Nat) (p : Pattern)
  /-- Nothing, at the beginning or end of a word. -/
  | edge
  /-- Nothing, at the beginning of the text. -/
  | start
  deriving DecidableEq, Repr

/-- A remembered part of a match: the text from its first character on, and its length. -/
structure Capture where
  group : Nat
  text : Text
  length : Nat
  deriving DecidableEq, Repr

def Capture.content (c : Capture) : Text := c.text.take c.length

/-- Where the reading of a pattern stands: the character just before, the text still ahead,
the number of characters used so far and the captures made, latest first. -/
structure Spot where
  before : Option Char
  rest : Text
  used : Nat
  captures : List Capture
  deriving DecidableEq, Repr

namespace Spot

def ofText (before : Option Char) (s : Text) : Spot := ⟨before, s, 0, []⟩

/-- The spot behind one more character, where `rest` lies ahead. -/
def past (s : Spot) (c : Char) (rest : Text) : Spot := ⟨some c, rest, s.used + 1, s.captures⟩

def capture (number : Nat) (opened s : Spot) : Spot :=
  { s with captures := ⟨number, opened.rest, s.used - opened.used⟩ :: s.captures }

end Spot

/-- The spots behind `least` or more members of a set, the farthest first, ahead of those in
`nearer`. The text is what lies ahead of the spot. -/
def CharSet.sweep (set : CharSet) : Text → Nat → Spot → List Spot → List Spot
  | [], least, s, nearer => if least = 0 then s :: nearer else nearer
  | c :: rest, least, s, nearer =>
    let reached := if least = 0 then s :: nearer else nearer
    if set.has c then set.sweep rest (least - 1) (s.past c rest) reached else reached

namespace Pattern

/-- Every way to read a pattern from a spot, by where it ends, the preferred one first. -/
def runs : Pattern → Spot → List Spot
  | .empty, s => [s]
  | .one set, s =>
    match s.rest with
    | [] => []
    | c :: rest => if set.has c then [s.past c rest] else []
  | .many set least, s => set.sweep s.rest least s []
  | .maybe p, s => runs p s ++ [s]
  | .seq p q, s => (runs p s).flatMap (runs q)
  | .alt p q, s => runs p s ++ runs q s
  | .group number p, s => (runs p s).map (Spot.capture number s)
  | .edge, s => if atWordEdge s.before s.rest.head? then [s] else []
  | .start, s => if s.before.isNone then [s] else []

def here? (p : Pattern) (before : Option Char) (s : Text) : Option Spot :=
  (p.runs (.ofText before s)).head?

/-- The number of the last capture group; groups are numbered from 1. -/
def groups : Pattern → Nat
  | .maybe p => groups p
  | .seq p q => max (groups p) (groups q)
  | .alt p q => max (groups p) (groups q)
  | .group number p => max number (groups p)
  | _ => 0

def never : Pattern := .one (.exactly [])

def concat : List Pattern → Pattern
  | [] => .empty
  | [p] => p
  | p :: rest => .seq p (concat rest)

def anyOf : List Pattern → Pattern
  | [] => never
  | [p] => p
  | p :: rest => .alt p (anyOf rest)

def chars (s : String) : List Pattern := s.toList.map fun c => .one (.exactly [c])

/-- The given small letters, each to stand in this order in either case. -/
def letters (s : String) : List Pattern := s.toList.map fun c => .one (.anyCase [c])

def word (s : String) : Pattern := concat (letters s)

end Pattern

/-- The leftmost match in a text: how many characters stand before it, its length and its
captures. -/
structure Found where
  skipped : Nat
  length : Nat
  captures : List Capture
  deriving DecidableEq, Repr

namespace Found

def atOnce (s : Spot) : Found := ⟨0, s.used, s.captures⟩

/-- A match as it is seen from one character earlier. -/
def later (f : Found) : Found := { f with skipped := f.skipped + 1 }

/-- The text of each group from the first to the last; a group that took no part or holds no
character has none. -/
def groupTexts (f : Found) (groups : Nat) : List (Option Text) :=
  (List.range groups).map fun i =>
    ((f.captures.find? (·.group == i + 1)).map Capture.content).filter fun s => !s.isEmpty

end Found

namespace Pattern

/-- The leftmost match at or behind a spot, the end of the text included. -/
def search (p : Pattern) : Option Char → Text → Option Found
  | before, [] => (p.here? before []).map .atOnce
  | before, c :: rest =>
    match p.here? before (c :: rest) with
    | some s => some (.atOnce s)
    | none => (p.search (some c) rest).map .later

def occursIn (p : Pattern) (s : Text) : Bool := (p.search none s).isSome

end Pattern

/-- What tokens are found by: patterns of any language. A pattern is tried where a text begins, or
looked for in the whole text; these are two matches, and nothing is said of how they are found. -/
class Matcher (μ : Type) where
  /-- The match that is found where the text begins. -/
  here? : μ → Text → Option Found
  /-- The match that is found in the text. -/
  search? : μ → Text → Option Found
  /-- The number of the last capture group. -/
  groups : μ → Nat

instance : Matcher Pattern where
  here? p s := (p.here? none s).map .atOnce
  search? p := p.search none
  groups := Pattern.groups

@[simp] theorem Pattern.matcher_here? (p : Pattern) (s : Text) :
    Matcher.here? p s = (p.here? none s).map .atOnce := rfl

@[simp] theorem Pattern.matcher_search? (p : Pattern) (s : Text) :
    Matcher.search? p s = p.search none s := rfl

@[simp] theorem Pattern.matcher_groups (p : Pattern) : Matcher.groups p = p.groups := rfl

namespace Matcher

variable {μ : Type} [Matcher μ]

def occursIn (p : μ) (s : Text) : Bool := (search? p s).isSome

/-- The matches of a pattern lie within the text that is read. They begin and end between
characters, as characters are what is counted. -/
structure StaysWithin (p : μ) : Prop where
  here {s : Text} {found : Found} :
    here? p s = some found → found.skipped + found.length ≤ s.length
  search {s : Text} {found : Found} :
    search? p s = some found → found.skipped + found.length ≤ s.length

end Matcher

end Tabletop
