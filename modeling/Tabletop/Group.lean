import Tabletop.Part.Step
import Tabletop.System
import Tabletop.Token.Basic

/-!
# Expressions and groups

An expression is a list of parts that are rolled together, and a group is what one command asks
for: one expression or several. Both are read from runs of tokens.
-/

namespace Tabletop

/-!
## Dice expressions

An expression is a list of parts that are rolled together, at most one of which carries a
test. A test with nothing to roll is a test of a d20: the part that carries it becomes one,
and what it said of a flat modifier goes on as the modifier of that die.
-/

structure Dice where
  /-- The parts, of which there is at least one. -/
  parts : List Part
  deriving DecidableEq, Repr

namespace Dice

def onD20 (p : Part) : Part :=
  { p with
    count := 1
    sides := 20
    sign := .plus
    modifier := if p.sign = .minus then -p.modifier else p.modifier }

/-- The parts with the first one that carries a test turned into a d20. -/
def testOnD20 : List Part → List Part
  | [] => []
  | p :: rest => if p.test.isSome then onD20 p :: rest else p :: testOnD20 rest

def normalized (parts : List Part) : Dice :=
  ⟨if parts.any fun p => 0 < p.sides then parts else testOnD20 parts⟩

def ofParts (parts : List Part) : Except DefinitionError Dice :=
  if 1 < parts.countP fun p => p.test.isSome then .error .multipleTests else .ok (normalized parts)

def single (p : Part) : Dice := normalized [p]

def test? (d : Dice) : Option Test := Part.testOf d.parts

def description (d : Dice) : Text := Part.joinedDescription d.parts

def hasDice (d : Dice) : Bool := d.parts.any Part.hasDice

def text (d : Dice) : Text := Part.expressionText d.parts

@[simp] theorem length_testOnD20 (parts : List Part) :
    (testOnD20 parts).length = parts.length := by
  induction parts with
  | nil => rfl
  | cons p rest ih => by_cases h : p.test.isSome <;> simp [testOnD20, h, ih]

end Dice

/-!
## Reading parts

A part is read from the run of tokens that belongs to it. Text without a meaning of its own
becomes the description, with one space between words. A number out of range counts as absent:
a count or a number of sides becomes zero, a rule for dropping or keeping disappears, and a
test turns back into text.
-/

namespace Token

def count? (t : Token) (group : Nat) : Option Nat := (t.capture group).bind Decimal.readCount?

end Token

namespace Part

def withDice (p : Part) (t : Token) : Part :=
  { p with
    sign := .ofCapture (t.capture 1)
    count :=
      match t.capture 2 with
      | none => 1
      | some _ => ((t.count? 2).filter (· ≤ maxDice)).getD 0
    sides := (t.count? 3).getD 0
    dropKeep := do
      let letter ← t.capture 4
      let number ← t.count? 6
      DropKeep.ofCaptures? letter (t.capture 5) number }

/-- The part with the modifier of a modifier token. Without dice the part is flat; with dice the
modifier is added to what is there, and a multiplier means nothing. -/
def withModifier (p : Part) (t : Token) : Part :=
  let sign := Sign.ofCapture (t.capture 1)
  match (t.capture 2).bind Decimal.readTotal? with
  | none => p
  | some value =>
    if p.sides = 0 then { p with sign, modifier := value }
    else
      match sign with
      | .plus => { p with modifier := Total.add p.modifier value }
      | .minus => { p with modifier := Total.sub p.modifier value }
      | .times => p

/-- A part on the way, and the text found so far that describes it. -/
structure Draft where
  part : Part
  loose : Text
  deriving DecidableEq, Repr

def Draft.add (system : System) (d : Draft) (t : Token) : Draft :=
  match t.kind with
  | .separator => d
  | .dice => { d with part := d.part.withDice t }
  | .modifier => { d with part := d.part.withModifier t }
  | .test =>
    match Test.ofToken? t with
    | some test => { d with part := { d.part with test := some test } }
    | none => { d with loose := d.loose ++ t.raw }
  | _ =>
    match system.absorb? d.part t with
    | some part => { d with part }
    | none => { d with loose := d.loose ++ t.raw }

def ofTokens (system : System) (tokens : List Token) : Part :=
  let d := tokens.foldl (Draft.add system) ⟨empty, []⟩
  system.finish { d.part with description := d.loose.squeeze }

end Part

/-- Reads the expression that a run of tokens describes, one part for each run of its own. -/
def Dice.ofTokens (system : System) (tokens : List Token) : Dice :=
  match (Token.partRuns tokens).map (Part.ofTokens system) with
  | [] => .normalized [Part.empty]
  | parts => .normalized parts

/-!
## Groups

A group is what one command asks for: one expression or several. The tokens of the command are
cut into runs, one for each expression. Runs that hold nothing but blanks are left out; if
nothing is left, the command is one expression without a roll.
-/

def Token.isBlankText (t : Token) : Bool := t.kind == .description && (Text.trim t.raw).isEmpty

structure Group where
  /-- The expressions, of which there is at least one. -/
  dice : List Dice
  /-- How much the report on the rolled group tells. -/
  verbosity : Verbosity := .m
  /-- How critical damage is worked out. -/
  critMethod : CritMethod := .timesTwo
  deriving DecidableEq, Repr

namespace Group

def diceOfTokens (system : System) (tokens : List Token) : List Dice :=
  match (Token.rollRuns tokens).filter fun run => run.any fun t => !t.isBlankText with
  | [] => [.ofTokens system tokens]
  | runs => runs.map (Dice.ofTokens system)

def text (g : Group) : Text := Text.join "; ".toList (g.dice.map Dice.text)

theorem diceOfTokens_ne_nil (system : System) (tokens : List Token) :
    diceOfTokens system tokens ≠ [] := by
  unfold diceOfTokens
  split <;> simp_all

end Group

end Tabletop
