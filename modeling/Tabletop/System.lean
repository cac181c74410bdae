import Tabletop.Part.Basic
import Tabletop.Roll.Pool
import Tabletop.Settings.Basic
import Tabletop.Token.Rule

/-!
# Game systems

Three ways to play: plain dice, d20 rules with degrees of success, and pools of d10 with
hunger dice. A system brings its own token rules, says what their tokens mean for a part, has
the last word on every part that is read, and grades what was rolled.
-/

namespace Tabletop

inductive System where
  /-- Sums, tests and nothing else. -/
  | generic
  /-- A high natural d20 against an armor class is a critical hit, a natural 1 a critical miss. -/
  | pathfinder (critThreshold : Nat) (infersSaves : Bool)
  /-- Dice count successes; the last few of them are hunger dice. -/
  | vampire
  deriving DecidableEq, Repr

/-- The words of a description that make a saving throw. -/
def Pattern.saveWord : Pattern :=
  concat [.edge, anyOf [concat (letters "fort" ++ [.maybe (word "itude")]),
    concat (letters "ref" ++ [.maybe (word "lex")]), word "will", word "save"], .edge]

theorem Pattern.read?_saveWord :
    read? r"(?i)\b(?:fort(?:itude)?|ref(?:lex)?|will|save)\b".toList = some saveWord := by decide

namespace System

def ofSettings (s : Settings) : System :=
  match s.system with
  | .generic => .generic
  | .pathfinder => .pathfinder s.critThreshold s.infersSaves
  | .vampire => .vampire

def kind : System → SystemKind
  | .generic => .generic
  | .pathfinder .. => .pathfinder
  | .vampire => .vampire

def ownRules : System → List Token.Rule
  | .generic => []
  | .pathfinder .. => [.crit]
  | .vampire => [.hunger]

def rules (s : System) : List Token.Rule := Token.Rule.ahead s.ownRules

/-- The part with what a token of the system's own says of it; `none` if the token means
nothing here. -/
def absorb? (s : System) (p : Part) (t : Token) : Option Part :=
  match s, t.kind with
  | .pathfinder .., .crit =>
    some { p with critThreshold := (t.capture 1).bind Decimal.readCount? }
  | .vampire, .hunger => some { p with hunger := (t.capture 1).bind Decimal.readCount? }
  | _, _ => none

/-- The last word on a part that has been read. -/
def finish (s : System) (p : Part) : Part :=
  match s with
  | .pathfinder _ true =>
    if Pattern.saveWord.occursIn p.description then { p with save := true } else p
  | _ => p

/-- The method for critical damage, if the system raises damage after a critical hit. -/
def critMethod? (s : System) (chosen : CritMethod) : Option CritMethod :=
  match s with
  | .pathfinder .. => some chosen
  | _ => none

end System

/-!
## Totals and grades by game system

Plain dice and d20 rules add up the parts, and pools count successes. A natural 1 or a high
natural d20 can raise or lower the grade of an attack or a saving throw under d20 rules.
-/

namespace System

def total (s : System) (parts : List PartRoll) : Int :=
  match s with
  | .vampire => (Pool.ofParts parts).total
  | _ => PartRoll.joinedTotal parts

/-- The grade of a natural d20 against an armor class. -/
def attackGrade (natural threshold : Nat) (plain : Grade) : Grade :=
  if natural = 1 then .criticalFailure
  else if threshold ≤ natural ∧ plain = .success then .criticalSuccess
  else plain

def saveGrade (natural : Nat) (plain : Grade) : Grade :=
  if natural = 1 then .criticalFailure
  else if natural = 20 then .criticalSuccess
  else plain

/-- The natural value of the first part with d20s. -/
def naturalD20? (parts : List PartRoll) : Option Nat :=
  (parts.find? fun p => p.part.sides == 20).bind PartRoll.natural?

def namedThreshold? (parts : List PartRoll) : Option Nat :=
  parts.findSome? fun p => p.part.critThreshold

def degree (threshold : Nat) (parts : List PartRoll) (total : Int) : Grade :=
  let plain := Grade.ofTest (PartRoll.testOf parts) total
  match PartRoll.testOf parts, naturalD20? parts with
  | some test, some natural =>
    if test.target.isArmorClass then
      attackGrade natural ((namedThreshold? parts).getD threshold) plain
    else if parts.any fun p => p.part.save then saveGrade natural plain
    else plain
  | _, _ => plain

def grade (s : System) (parts : List PartRoll) (total : Int) : Grade :=
  match s with
  | .generic => .ofTest (PartRoll.testOf parts) total
  | .pathfinder threshold _ => degree threshold parts total
  | .vampire => (Pool.ofParts parts).grade (PartRoll.testOf parts) total

end System

end Tabletop
