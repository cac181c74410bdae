import Tabletop.Roll.Basic
import Tabletop.Roll.Part
import Tabletop.Settings.Basic

/-!
# Reports

A rolled group is shown line by line. From `xs` on every verbosity shows what the one below it
shows and then adds to it: the description, the written form, the breakdown, the details.
-/

namespace Tabletop

/-!
## How dice are shown

A dropped die is struck through. From `xl` on, a one or a highest face is bold. Faces are shown
highest first, except that `xxl` and parts that ask for it keep the order of the roll.
-/

namespace Report

def die (verbosity : Verbosity) (sides : Nat) (d : Die) : Text :=
  let face := Decimal.ofNat d.value
  if !d.kept then "~~".toList ++ face ++ "~~".toList
  else if .xl ≤ verbosity ∧ (d.value = 1 ∨ d.value = sides) then
    "**".toList ++ face ++ "**".toList
  else face

def shownDice (verbosity : Verbosity) (p : PartRoll) : List Die :=
  if verbosity < .xxl ∧ p.part.unsorted = false then
    p.dice.mergeSort fun a b => b.value ≤ a.value
  else p.dice

def faces (verbosity : Verbosity) (p : PartRoll) : Text :=
  Text.join ", ".toList ((shownDice verbosity p).map (die verbosity p.part.sides))

end Report

/-!
## How a total came about

The breakdown is one line on all dice and modifiers; it reads the same wherever it is shown.
The details are further lines: one for each part with dice, or one for each kind of die in a
pool.
-/

namespace Report

def modifier (n : Int) : Text :=
  if 0 < n then " + ".toList ++ Decimal.ofInt n
  else if n < 0 then " - ".toList ++ Decimal.ofNat n.natAbs
  else []

/-- Whether a part takes a place in the breakdown. -/
def isShown (p : PartRoll) : Bool := p.part.hasDice || p.part.modifier != 0

/-- A part in the breakdown, without the sign before it. -/
def term (verbosity : Verbosity) (p : PartRoll) : Text :=
  if p.part.hasDice then '[' :: faces verbosity p ++ ']' :: modifier p.part.modifier
  else Decimal.ofNat p.part.modifier.natAbs

/-- The terms with signs between them; a plus sign before the first one is left out. -/
def terms (verbosity : Verbosity) : List PartRoll → Text
  | [] => []
  | p :: rest =>
    (if p.part.shownSign = .plus then [] else [p.part.shownSign.symbol]) ++ term verbosity p ++
      rest.flatMap fun q => ' ' :: q.part.shownSign.symbol :: ' ' :: term verbosity q

/-- The breakdown of added parts. Dice are listed in it as they are at `l` or below. -/
def plainBreakdownAt (verbosity : Verbosity) (r : Roll) : Text :=
  terms (if verbosity ≤ .l then verbosity else .l) (r.parts.filter isShown)

def plainBreakdown (r : Roll) : Text := plainBreakdownAt .l r

/-- The line for one part with dice. At `xxl` it says whether the roll was the highest or the
lowest possible. -/
def partLine (verbosity : Verbosity) (p : PartRoll) : Text :=
  "  ".toList ++ p.part.text ++ ": ".toList ++ faces verbosity p ++ " = ".toList ++
    Decimal.ofInt p.total ++
    if verbosity < .xxl then []
    else if p.isMax then " (max)".toList
    else if p.isMin then " (min)".toList
    else []

def plainDetails (verbosity : Verbosity) (r : Roll) : List Text :=
  (r.parts.filter fun p => p.part.hasDice).map (partLine verbosity) ++
    match r.critical with
    | some method => ["  critical damage: ".toList ++ method.name.toList]
    | none => []

def poolDie (d : Nat × Bool) : Text :=
  if d.2 then '_' :: Decimal.ofNat d.1 ++ ['_'] else Decimal.ofNat d.1

def poolBreakdown (p : Pool) : Text :=
  '[' :: Text.join ", ".toList (p.sorted.map poolDie) ++ "] ".toList ++
    Decimal.ofNat p.successes ++ " successes".toList ++ modifier p.modifier

/-- The dice of one kind in a pool; at `xxl` in the order of the roll, each with its grade. -/
def poolFaces (verbosity : Verbosity) (grade : Nat → Grade) (dice : List Nat) : Text :=
  Text.join ", ".toList
    (if verbosity < .xxl then (dice.mergeSort fun a b => b ≤ a).map Decimal.ofNat
    else dice.map fun face =>
      Decimal.ofNat face ++ " (".toList ++ (grade face).label.toList ++ [')'])

def poolDetails (verbosity : Verbosity) (p : Pool) : List Text :=
  ("  base: ".toList ++ poolFaces verbosity Pool.baseDieGrade p.base) ::
    if p.hunger.isEmpty then []
    else ["  hunger: ".toList ++ poolFaces verbosity Pool.hungerDieGrade p.hunger]

def breakdownAt (s : System) (verbosity : Verbosity) (r : Roll) : Text :=
  match s with
  | .vampire => poolBreakdown (.ofParts r.parts)
  | _ => plainBreakdownAt verbosity r

def breakdown (s : System) (r : Roll) : Text := breakdownAt s .l r

def details (s : System) (verbosity : Verbosity) (r : Roll) : List Text :=
  match s with
  | .vampire => poolDetails verbosity (.ofParts r.parts)
  | _ => plainDetails verbosity r

end Report

/-!
## The lines of a report

Damage after a missed attack stays out of the report below `xl`; damage after a hit is marked.
-/

namespace Report

def damageMark : Text := "[critical-damage]".toList

def briefRoll (r : Roll) : Text :=
  if r.grade.isGraded then r.grade.glyph.toList else Decimal.ofInt r.total

def outcome (r : Roll) : Text :=
  r.grade.glyph.toList ++ " (".toList ++ Decimal.ofInt r.total ++ [')']

def descriptionPiece (r : Roll) : Text :=
  if r.description.isEmpty then [] else " \"".toList ++ r.description ++ ['"']

def expressionPiece (r : Roll) : Text :=
  if r.expressionText.isEmpty then [] else " ← ".toList ++ r.expressionText

/-- The grade in words and the breakdown behind a bar, as far as there are any. -/
def breakdownPiece (s : System) (verbosity : Verbosity) (r : Roll) : Text :=
  let label := "**".toList ++ r.grade.label.toList ++ "**".toList
  let line := breakdownAt s verbosity r
  match r.grade.isGraded, line.isEmpty with
  | true, true => " | ".toList ++ label
  | true, false => " | ".toList ++ label ++ ' ' :: line
  | false, false => " | ".toList ++ line
  | false, true => []

def detailsPiece (s : System) (verbosity : Verbosity) (r : Roll) : Text :=
  (details s verbosity r).flatMap ('\n' :: ·)

def roll (s : System) (verbosity : Verbosity) (r : Roll) : Text :=
  if verbosity = .xxs then briefRoll r
  else
    outcome r ++
      (if .s ≤ verbosity then descriptionPiece r else []) ++
      (if .m ≤ verbosity then expressionPiece r else []) ++
      (if .l ≤ verbosity then breakdownPiece s verbosity r else []) ++
      (if .xl ≤ verbosity then detailsPiece s verbosity r else [])

/-- The grade of the attack that the roll at a place is the damage of, by the pairs of attacks
and damage. -/
def attackGrade? (g : GroupRoll) (pairs : List (Nat × Nat)) (place : Nat) : Option Grade :=
  (pairs.find? fun pair => pair.2 == place).map fun pair => g.gradeAt pair.1

/-- The report on a roll that follows an attack with a grade; none if it stays out. -/
def member? (s : System) (verbosity : Verbosity) (attack : Option Grade) (r : Roll) :
    Option Text :=
  match attack with
  | some grade =>
    if grade.isFailure ∧ verbosity < .xl then none
    else if grade.isSuccess then some (damageMark ++ ' ' :: roll s verbosity r)
    else some (roll s verbosity r)
  | none => some (roll s verbosity r)

def members (s : System) (verbosity : Verbosity) (g : GroupRoll) : List Text :=
  let pairs := g.pairs
  (g.rolls.mapIdx fun place r => member? s verbosity (attackGrade? g pairs place) r).filterMap id

def group (s : System) (verbosity : Verbosity) (g : GroupRoll) : Text :=
  Text.join ['\n'] (members s verbosity g)

end Report

end Tabletop
