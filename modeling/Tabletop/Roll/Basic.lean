import Tabletop.Group
import Tabletop.System

/-!
# Rolled expressions and groups

An expression after rolling: its rolled parts, the total and the grade under a game system, and
the method by which a critical hit raised it, if one did.
-/

namespace Tabletop

structure Roll where
  parts : List PartRoll
  total : Int
  grade : Grade
  critical : Option CritMethod := none
  deriving DecidableEq, Repr

namespace Roll

def ofParts (system : System) (parts : List PartRoll) : Roll :=
  let total := system.total parts
  { parts, total, grade := system.grade parts total }

def ofDice {ρ : Type} [Roller ρ] (system : System) (d : Dice) (r : ρ) : Roll × ρ :=
  let (parts, r) := Roller.each PartRoll.roll d.parts r
  (ofParts system parts, r)

def definitions (r : Roll) : List Part := r.parts.map PartRoll.part

def test? (r : Roll) : Option Test := PartRoll.testOf r.parts

def description (r : Roll) : Text := Part.joinedDescription r.definitions

def expressionText (r : Roll) : Text := Part.expressionText r.definitions

/-- The first part that rolls d20s. -/
def d20? (r : Roll) : Option PartRoll :=
  r.parts.find? fun p => p.part.sides == 20 && p.part.hasDice

/-- A d20 tested against an armor class. -/
def isAttack (r : Roll) : Bool :=
  r.d20?.isSome && r.test?.any fun t => t.target.isArmorClass

/-- Dice without a test and without a d20 among them. -/
def isDamage (r : Roll) : Bool :=
  r.d20?.isNone && r.test?.isNone && r.parts.any fun p => p.part.hasDice

def maxDiceValue (r : Roll) : Int :=
  (r.definitions.filter Part.hasDice).foldl (fun total p => p.sign.apply total p.maxDiceValue) 0

/-- Raises a damage roll after a critical hit. -/
def raised (system : System) (method : CritMethod) (r : Roll) : Roll :=
  let parts :=
    match method with
    | .timesTwo => r.parts ++ [.ofFaces (.flat .times 2) []]
    | .rollTwice => r.parts.map PartRoll.doubled
    | .addMax => r.parts ++ [.ofFaces (.flat .plus r.maxDiceValue) []]
  { ofParts system parts with critical := some method }

end Roll

/-!
## Rolled groups

The members of a group are rolled in order. Afterwards the game system may raise damage: when
an attack is a critical success, the damage roll right after it is raised by the method of the
group. Nothing is rolled for that.
-/

structure GroupRoll where
  /-- The rolls, of which there is at least one. -/
  rolls : List Roll
  verbosity : Verbosity
  critMethod : CritMethod
  deriving DecidableEq, Repr

namespace GroupRoll

/-- The places of an attack and of the damage right after it, from a place on. A roll belongs
to at most one pair. -/
def pairsFrom (place : Nat) : List Roll → List (Nat × Nat)
  | a :: b :: rest =>
    if a.isAttack && b.isDamage then (place, place + 1) :: pairsFrom (place + 2) rest
    else pairsFrom (place + 1) (b :: rest)
  | _ => []

def pairs (g : GroupRoll) : List (Nat × Nat) := pairsFrom 0 g.rolls

def totals (g : GroupRoll) : List Int := g.rolls.map Roll.total

def gradeAt (g : GroupRoll) (place : Nat) : Grade := (g.rolls[place]?.map Roll.grade).getD .unknown

/-- The members of a group rolled in order, with no damage raised. -/
def pending {ρ : Type} [Roller ρ] (system : System) (g : Group) (r : ρ) : GroupRoll × ρ :=
  let (rolls, r) := Roller.each (Roll.ofDice system) g.dice r
  (⟨rolls, g.verbosity, g.critMethod⟩, r)

def criticalPlaces (g : GroupRoll) : List Nat :=
  (g.pairs.filter fun pair => g.gradeAt pair.1 == .criticalSuccess).map Prod.snd

/-- The group with the damage after each critical hit raised, if the system does that. -/
def finished (system : System) (g : GroupRoll) : GroupRoll :=
  match system.critMethod? g.critMethod with
  | none => g
  | some method =>
    let places := g.criticalPlaces
    { g with
      rolls := g.rolls.mapIdx fun place r =>
        if places.contains place then r.raised system method else r }

def ofGroup {ρ : Type} [Roller ρ] (system : System) (g : Group) (r : ρ) : GroupRoll × ρ :=
  let (pending, r) := pending system g r
  (pending.finished system, r)

@[simp] theorem length_rolls_finished (system : System) (g : GroupRoll) :
    (g.finished system).rolls.length = g.rolls.length := by
  unfold finished
  split <;> simp

end GroupRoll

end Tabletop
