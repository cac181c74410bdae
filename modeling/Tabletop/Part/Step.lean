import Tabletop.Part.Basic

/-!
# Building parts

A part can be built step by step. Some steps start over, most change one property, and a step
that would make a part nobody can roll fails and leaves the part as it was.
-/

namespace Tabletop

inductive DefinitionError where
  | negativeSides (sides : Int)
  | negativeCount (count : Int)
  | tooManyDice (count : Int)
  | fixedRollCount (expected found : Nat)
  | fixedRollOutOfRange (value sides : Nat)
  | multipleTests
  deriving DecidableEq, Repr

def DefinitionError.message : DefinitionError → String
  | .negativeSides sides => s!"dice cannot have a negative number of sides ({sides})"
  | .negativeCount count => s!"cannot roll a negative number of dice ({count})"
  | .tooManyDice count => s!"too many dice in one part: {count} (the limit is {maxDice})"
  | .fixedRollCount expected found => s!"expected {expected} fixed rolls, found {found}"
  | .fixedRollOutOfRange value sides => s!"fixed roll {value} is outside 1..={sides}"
  | .multipleTests => "a dice expression can carry only one test"

namespace Part

/-- Some dice; more sides than a die can have count as the most it can have. -/
def dice (count sides : Int) : Except DefinitionError Part :=
  if sides < 0 then .error (.negativeSides sides)
  else if count < 0 then .error (.negativeCount count)
  else if maxDice < count then .error (.tooManyDice count)
  else .ok { count := count.toNat, sides := min maxCount sides.toNat }

/-- Puts faces in the place of a roll: one for each die, all within range. -/
def fix (p : Part) (faces : List Nat) : Except DefinitionError Part :=
  if faces.length ≠ p.count then .error (.fixedRollCount p.count faces.length)
  else
    match faces.find? fun face => face == 0 || p.sides < face with
    | some face => .error (.fixedRollOutOfRange face p.sides)
    | none => .ok { p with fixed := some faces }

inductive Step where
  | empty
  | dice (count sides : Int)
  | flat (sign : Sign) (modifier : Int)
  | sign (sign : Sign)
  | modifier (modifier : Int)
  | dropKeep (rule : DropKeep)
  | test (test : Test)
  | description (text : Text)
  | unsorted (unsorted : Bool)
  | hunger (number : Nat)
  | critThreshold (natural : Nat)
  | save (save : Bool)
  | fixed (faces : List Nat)
  deriving DecidableEq, Repr

def Step.apply (p : Part) : Step → Except DefinitionError Part
  | .empty => .ok Part.empty
  | .dice count sides => Part.dice count sides
  | .flat s n => .ok (Part.flat s n)
  | .sign s => .ok { p with sign := s }
  | .modifier n => .ok { p with modifier := n }
  | .dropKeep rule => .ok { p with dropKeep := some rule }
  | .test t => .ok { p with test := some t }
  | .description d => .ok { p with description := d }
  | .unsorted b => .ok { p with unsorted := b }
  | .hunger n => .ok { p with hunger := some n }
  | .critThreshold n => .ok { p with critThreshold := some n }
  | .save b => .ok { p with save := b }
  | .fixed faces => p.fix faces

def Step.after (p : Part) (s : Step) : Part :=
  match s.apply p with
  | .ok q => q
  | .error _ => p

def build (steps : List Step) : Part := steps.foldl Step.after Part.empty

/-- The part that steps build when none of them fails. -/
def build? (steps : List Step) : Except DefinitionError Part :=
  steps.foldlM Step.apply Part.empty

end Part

end Tabletop
