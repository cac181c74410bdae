import Tabletop.Part.Basic
import Tabletop.Roller.Script

/-!
# Rolled parts

The dice of a part after rolling, in the order in which they were rolled, each marked as kept
or dropped by the part's rule. Totals and extremes look at the kept dice only.
-/

namespace Tabletop

structure Die where
  value : Nat
  kept : Bool
  deriving DecidableEq, Repr

structure PartRoll where
  part : Part
  dice : List Die
  deriving DecidableEq, Repr

namespace PartRoll

/-- Marks faces by the part's rule. -/
def ofFaces (part : Part) (faces : List Nat) : PartRoll :=
  let kept :=
    match part.dropKeep with
    | some rule => rule.select faces
    | none => faces.map fun _ => true
  ⟨part, faces.zipWith Die.mk kept⟩

/-- Rolls a part: the fixed faces if there are any, otherwise one face for each die. -/
def roll {ρ : Type} [Roller ρ] (part : Part) (r : ρ) : PartRoll × ρ :=
  match part.fixed with
  | some faces => (ofFaces part faces, r)
  | none =>
    if part.sides = 0 then (ofFaces part [], r)
    else
      let (faces, r) := Roller.many part.count part.sides r
      (ofFaces part faces, r)

def faces (p : PartRoll) : List Nat := p.dice.map Die.value

def keptFaces (p : PartRoll) : List Nat := (p.dice.filter Die.kept).map Die.value

def keptSum (p : PartRoll) : Nat := p.keptFaces.foldr (· + ·) 0

def total (p : PartRoll) : Int := Total.add p.keptSum p.part.modifier

/-- Whether some dice were kept and every one shows 1. -/
def isMin (p : PartRoll) : Bool := !p.keptFaces.isEmpty && p.keptFaces.all (· == 1)

def isMax (p : PartRoll) : Bool := !p.keptFaces.isEmpty && p.keptFaces.all (· == p.part.sides)

/-- The face of the one die that counts, if exactly one does. -/
def natural? (p : PartRoll) : Option Nat :=
  match p.keptFaces with
  | [face] => some face
  | _ => none

/-- A part rolled twice over with the same faces: twice the dice, the rule scaled to them, and twice
the modifier unless it multiplies. -/
def doubled (p : PartRoll) : PartRoll :=
  ofFaces
    { p.part with
      count := min maxCount (p.part.count * 2)
      dropKeep := p.part.dropKeep.map fun rule => rule.scaled 2
      modifier :=
        if p.part.sign = .times then p.part.modifier else Total.mul p.part.modifier 2
      fixed := none }
    (p.faces ++ p.faces)

def joinedTotal (parts : List PartRoll) : Int :=
  parts.foldl (fun total p => p.part.sign.apply total p.total) 0

def testOf (parts : List PartRoll) : Option Test := parts.findSome? fun p => p.part.test

@[simp] theorem part_ofFaces (part : Part) (faces : List Nat) : (ofFaces part faces).part = part :=
  rfl

@[simp] theorem faces_ofFaces (part : Part) (faces : List Nat) :
    (ofFaces part faces).faces = faces := by
  have zipped (kept : List Bool) (h : kept.length = faces.length) :
      (faces.zipWith Die.mk kept).map Die.value = faces := by
    induction faces generalizing kept with
    | nil => simp
    | cons face rest ih =>
      cases kept with
      | nil => simp at h
      | cons k ks => simpa using ih ks (by simpa using h)
  cases h : part.dropKeep with
  | none => simpa [ofFaces, PartRoll.faces, h] using zipped _ (by simp)
  | some rule => simpa [ofFaces, PartRoll.faces, h] using zipped _ (by simp)

end PartRoll

end Tabletop
