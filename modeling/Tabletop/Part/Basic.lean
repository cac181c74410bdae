import Tabletop.Number
import Tabletop.Test

/-!
# Parts

A part is the smallest thing that can be rolled: some dice of one kind and a flat modifier,
joined to the parts before it by a sign. A part without dice is flat. The written form of a part can
be read back; the written form of several parts puts a sign between them and one test at the end.
-/

namespace Tabletop

/-!
## Dropping and keeping dice

A rule keeps or drops a number of the highest or lowest dice of a roll. Of dice that show the
same face, those rolled earlier are chosen first.
-/

/-- Which end of the faces a rule chooses from. -/
inductive Extremity where
  | highest | lowest
  deriving DecidableEq, Repr

def Extremity.letter : Extremity → Char
  | .highest => 'h'
  | .lowest => 'l'

inductive Choice where
  | keep | drop
  deriving DecidableEq, Repr

def Choice.letter : Choice → Char
  | .keep => 'k'
  | .drop => 'd'

structure DropKeep where
  choice : Choice
  extremity : Extremity
  /-- How many dice are chosen, as far as there are so many. -/
  number : Nat
  deriving DecidableEq, Repr

namespace DropKeep

/-- The rule for a captured letter, an optional captured end and a number. A lone `k` keeps the
highest and a lone `d` drops the lowest. -/
def ofCaptures? (letter : Text) (ending : Option Text) (number : Nat) : Option DropKeep :=
  let extremity : Option Extremity :=
    match ending.map Text.lower with
    | some ['h'] => some .highest
    | some ['l'] => some .lowest
    | _ => none
  match Text.lower letter with
  | ['k'] => some ⟨.keep, extremity.getD .highest, number⟩
  | ['d'] => some ⟨.drop, extremity.getD .lowest, number⟩
  | _ => none

def keptCount (rule : DropKeep) (count : Nat) : Nat :=
  match rule.choice with
  | .keep => min rule.number count
  | .drop => count - rule.number

def scaled (rule : DropKeep) (factor : Nat) : DropKeep :=
  { rule with number := min maxCount (rule.number * factor) }

/-- Whether one die is chosen before another that was rolled later. -/
def before (extremity : Extremity) (a b : Nat) : Bool :=
  match extremity with
  | .highest => b ≤ a
  | .lowest => a ≤ b

/-- The positions of some faces in the order in which a rule chooses them. -/
def order (extremity : Extremity) (faces : List Nat) : List Nat :=
  (faces.zipIdx.mergeSort fun a b => before extremity a.1 b.1).map Prod.snd

def chosen (rule : DropKeep) (faces : List Nat) : List Nat :=
  (order rule.extremity faces).take rule.number

/-- For each face, whether it is left. -/
def select (rule : DropKeep) (faces : List Nat) : List Bool :=
  let chosen := rule.chosen faces
  (List.range faces.length).map fun i => chosen.contains i == (rule.choice == .keep)

@[simp] theorem length_select (rule : DropKeep) (faces : List Nat) :
    (rule.select faces).length = faces.length := by simp [select]

def text (rule : DropKeep) : Text :=
  rule.choice.letter :: rule.extremity.letter :: Decimal.ofNat rule.number

end DropKeep

/-! ## Parts and their written form -/

def maxDice : Nat := 1000

structure Part where
  count : Nat := 0
  sides : Nat := 0
  modifier : Int := 0
  sign : Sign := .plus
  dropKeep : Option DropKeep := none
  /-- Whether the faces are shown in the order in which they were rolled. -/
  unsorted : Bool := false
  description : Text := []
  test : Option Test := none
  /-- The faces that take the place of a roll. -/
  fixed : Option (List Nat) := none
  /-- How many of the dice are hunger dice. -/
  hunger : Option Nat := none
  /-- The natural d20 from which on a hit is critical. -/
  critThreshold : Option Nat := none
  /-- Whether this is a saving throw. -/
  save : Bool := false
  deriving DecidableEq, Repr

namespace Part

def empty : Part := {}

def flat (sign : Sign) (modifier : Int) : Part := { sign, modifier }

def hasDice (p : Part) : Bool := 0 < p.count && 0 < p.sides

def isEmpty (p : Part) : Bool :=
  p.sides == 0 && p.modifier == 0 && p.test.isNone && p.description.isEmpty

/-- How many of the dice count towards the total. -/
def keptCount (p : Part) : Nat :=
  match p.dropKeep with
  | some rule => rule.keptCount p.count
  | none => p.count

def maxDiceValue (p : Part) : Int := p.keptCount * p.sides

def isWritten (p : Part) : Bool :=
  0 < p.sides || p.modifier != 0 || p.hunger.isSome || p.critThreshold.isSome

/-- The sign to write before the part; the sign of a negative flat modifier is part of it. -/
def shownSign (p : Part) : Sign :=
  if p.sides = 0 ∧ p.modifier < 0 then
    match p.sign with
    | .plus => .minus
    | .minus => .plus
    | .times => .times
  else p.sign

def modifierText (n : Int) : Text :=
  if 0 < n then '+' :: Decimal.ofInt n else if n < 0 then Decimal.ofInt n else []

def diceText (p : Part) : Text :=
  Decimal.ofNat p.count ++ 'd' :: Decimal.ofNat p.sides ++
    ((p.dropKeep.map DropKeep.text).getD []) ++ modifierText p.modifier

/-- A number that a game system goes by, behind the mark for it. -/
def markText (mark : String) (n : Option Nat) : Text :=
  (n.map fun n => mark.toList ++ Decimal.ofNat n).getD []

/-- The written form without the sign before it. -/
def text (p : Part) : Text :=
  (if 0 < p.sides then p.diceText
    else if p.modifier ≠ 0 then Decimal.ofNat p.modifier.natAbs
    else []) ++
  markText " h" p.hunger ++ markText " crit" p.critThreshold

def signedText (p : Part) : Text := p.shownSign.symbol :: p.text

/-- The written form of terms; a plus sign before the first one is left out. -/
def termsText : List Part → Text
  | [] => []
  | p :: rest =>
    (if p.shownSign = .plus then p.text else p.signedText) ++ rest.flatMap signedText

def testOf (parts : List Part) : Option Test := parts.findSome? fun p => p.test

/-- The written form of parts that are rolled together. -/
def expressionText (parts : List Part) : Text :=
  let terms := termsText (parts.filter isWritten)
  match testOf parts with
  | none => terms
  | some t => if parts.any isWritten then terms ++ ' ' :: t.text else t.text

def joinedDescription (parts : List Part) : Text :=
  Text.join [' '] ((parts.map fun p => p.description).filter fun d => !d.isEmpty)

end Part

end Tabletop
