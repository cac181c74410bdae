import Tabletop.Pattern.Basic

/-!
# Written patterns

Patterns have a written form: characters stand for themselves, `\d` for a digit, `\s` for a
blank, `\b` for a word edge, `^` for the start, `[...]` for one of the listed characters,
`(...)` for a numbered group, `(?:...)` for a group without a number, `|` between
alternatives, and `*`, `+` or `?` behind what may be repeated or left out. From `(?i)` on, to
the end of the group that holds it, the case of letters does not matter.

The reader goes through the text once with a stack of open groups. Whatever else it meets has
no meaning here: counted repetition, repetition of anything but a single character, a sign of
repetition with nothing before it, and brackets that do not pair up.
-/

namespace Tabletop

namespace Pattern

/-- A group whose closing bracket is still to come. -/
structure Level where
  /-- The number of the group, if it has one. -/
  number : Option Nat
  /-- Whether case matters from here on. -/
  foldsCase : Bool
  /-- The finished alternatives, latest first. -/
  choices : List Pattern
  /-- The parts of the current alternative, latest first. -/
  items : List Pattern
  /-- Whether the latest part can be repeated or left out. -/
  repeatable : Bool

namespace Level

def opened (number : Option Nat) (foldsCase : Bool) : Level := ⟨number, foldsCase, [], [], false⟩

def add (l : Level) (p : Pattern) (repeatable : Bool) : Level :=
  { l with items := p :: l.items, repeatable }

/-- The listed characters; case is ignored only where there is a letter among them. -/
def set (l : Level) (members : List Char) : CharSet :=
  if l.foldsCase && members.any Char.isAlpha then .anyCase (members.map foldCase)
  else .exactly members

def addSet (l : Level) (members : List Char) : Level := l.add (.one (l.set members)) true

def split (l : Level) : Level :=
  { l with choices := concat l.items.reverse :: l.choices, items := [], repeatable := false }

/-- Repeats the latest part at least `least` times, if it is a single character. -/
def repeated? (l : Level) (least : Nat) : Option Level :=
  match l.repeatable, l.items with
  | true, .one set :: items =>
    some { l with items := .many set least :: items, repeatable := false }
  | _, _ => none

def optional? (l : Level) : Option Level :=
  match l.repeatable, l.items with
  | true, p :: items => some { l with items := .maybe p :: items, repeatable := false }
  | _, _ => none

def close (l : Level) : Pattern :=
  let p := anyOf l.split.choices.reverse
  match l.number with
  | some number => .group number p
  | none => p

end Level

def escaped? (c : Char) : Option Pattern :=
  if c = 'd' then some (.one .digit)
  else if c = 's' then some (.one .blank)
  else if c = 'b' then some .edge
  else if c.isAlphanum then none
  else some (.one (.exactly [c]))

/-- Reads on, with the innermost open group first, those around it, the count of numbered
groups, and the members of a bracketed set that is still open, latest first. -/
def readOn : Text → Level → List Level → Nat → Option (List Char) → Option Pattern
  | [], here, [], _, none => some here.close
  | [], _, _, _, _ => none
  | c :: rest, here, outer, count, some members =>
    if c = ']' then
      if members.isEmpty then none else readOn rest (here.addSet members.reverse) outer count none
    else if c = '[' ∨ c = '\\' ∨ c = '^' ∨ c = '-' ∧ members ≠ [] then none
    else readOn rest here outer count (some (c :: members))
  | '[' :: rest, here, outer, count, none => readOn rest here outer count (some [])
  | '\\' :: c :: rest, here, outer, count, none => do
    let p ← escaped? c
    readOn rest (here.add p (p != .edge)) outer count none
  | '(' :: '?' :: ':' :: rest, here, outer, count, none =>
    readOn rest (.opened none here.foldsCase) (here :: outer) count none
  | '(' :: '?' :: 'i' :: ')' :: rest, here, outer, count, none =>
    readOn rest { here with foldsCase := true, repeatable := false } outer count none
  | '(' :: '?' :: _, _, _, _, none => none
  | '(' :: rest, here, outer, count, none =>
    readOn rest (.opened (some (count + 1)) here.foldsCase) (here :: outer) (count + 1) none
  | ')' :: rest, here, around :: outer, count, none =>
    readOn rest (around.add here.close true) outer count none
  | '|' :: rest, here, outer, count, none => readOn rest here.split outer count none
  | '*' :: rest, here, outer, count, none => do
    let here ← here.repeated? 0
    readOn rest here outer count none
  | '+' :: rest, here, outer, count, none => do
    let here ← here.repeated? 1
    readOn rest here outer count none
  | '?' :: rest, here, outer, count, none => do
    let here ← here.optional?
    readOn rest here outer count none
  | '^' :: rest, here, outer, count, none => readOn rest (here.add .start false) outer count none
  | c :: rest, here, outer, count, none =>
    if c = ')' ∨ c = '\\' ∨ c = '\x7b' ∨ c = '.' ∨ c = '$' then none
    else readOn rest (here.addSet [c]) outer count none

def read? (s : Text) : Option Pattern := readOn s (.opened none false) [] 0 none

theorem read?_digits : read? r"\d+".toList = some (.many .digit 1) := by decide

end Pattern

end Tabletop
