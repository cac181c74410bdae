import Tabletop.Roll.Part
import Tabletop.Test

/-!
# Pools

A pool of d10 splits into regular dice and hunger dice. High faces are successes, and every
pair of tens adds two more. Tens on hunger dice make a critical success messy, and ones on
them make a failure bestial.
-/

namespace Tabletop

def successFace : Nat := 6

def criticalFace : Nat := 10

structure Pool where
  base : List Nat
  hunger : List Nat
  modifier : Int
  deriving DecidableEq, Repr

namespace Pool

def keptDice (parts : List PartRoll) : List Nat :=
  (parts.filter fun p => p.part.hasDice).flatMap PartRoll.keptFaces

def hungerCount (parts : List PartRoll) : Nat :=
  (parts.filterMap fun p => p.part.hunger).foldr (· + ·) 0

/-- The running total of the flat modifiers; a part without dice counts in full. -/
def flatTotal (parts : List PartRoll) : Int :=
  parts.foldl (fun total p =>
    p.part.sign.apply total (if p.part.hasDice then p.part.modifier else p.total)) 0

/-- The pool of some rolled parts: the last dice, as many as the parts ask for and there are,
are hunger dice. -/
def ofParts (parts : List PartRoll) : Pool :=
  let dice := keptDice parts
  let regular := dice.length - hungerCount parts
  ⟨dice.take regular, dice.drop regular, flatTotal parts⟩

def dice (p : Pool) : List Nat := p.base ++ p.hunger

def criticals (p : Pool) : Nat := p.dice.countP fun face => criticalFace ≤ face

def successes (p : Pool) : Nat :=
  p.dice.countP (fun face => successFace ≤ face) + 2 * (p.criticals / 2)

def total (p : Pool) : Int := Total.add p.successes p.modifier

def grade (p : Pool) (test : Option Test) (total : Int) : Grade :=
  match test with
  | none => .unknown
  | some t =>
    if t.passes total then
      if p.criticals < 2 then .success
      else if p.hunger.any fun face => criticalFace ≤ face then .messyCritical
      else .criticalSuccess
    else if p.hunger.contains 1 then .bestialFailure
    else .failure

/-- All dice, highest first, each with whether it is a hunger die; on ties hunger dice come
first. -/
def sorted (p : Pool) : List (Nat × Bool) :=
  (p.hunger.map (·, true) ++ p.base.map (·, false)).mergeSort fun a b => b.1 ≤ a.1

def baseDieGrade (face : Nat) : Grade :=
  if face < successFace then .failure
  else if face < criticalFace then .success
  else .criticalSuccess

def hungerDieGrade (face : Nat) : Grade :=
  if face ≤ 1 then .bestialFailure
  else if face < successFace then .failure
  else if face < criticalFace then .success
  else .messyCritical

theorem grade_of_passes (p : Pool) {t : Test} {total : Int} (h : t.passes total) :
    p.grade (some t) total =
      if p.criticals < 2 then .success
      else if p.hunger.any fun face => criticalFace ≤ face then .messyCritical
      else .criticalSuccess := if_pos h

theorem grade_of_fails (p : Pool) {t : Test} {total : Int} (h : ¬t.passes total) :
    p.grade (some t) total = if p.hunger.contains 1 then .bestialFailure else .failure := if_neg h

theorem dice_ofParts (parts : List PartRoll) : (ofParts parts).dice = keptDice parts := by
  simp [ofParts, dice]

end Pool

end Tabletop
