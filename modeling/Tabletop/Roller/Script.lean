import Tabletop.Number

/-!
# Rollers and scripts

A roller is a source of die faces with a state of its own. It rolls one die, or gets ready for
several dice of one kind and rolls them one after the other; the two ways may use up the source
differently.
-/

namespace Tabletop

/-- A source of faces. The number of sides is at least one. -/
class Roller (ρ : Type) where
  /-- Rolls one die with so many sides. -/
  one : (sides : Nat) → ρ → Nat × ρ
  /-- Rolls so many dice with so many sides each, in order. -/
  many : (count sides : Nat) → ρ → List Nat × ρ

namespace Roller

/-- Does something with a roller for each item in order. -/
def each {α β ρ : Type} (f : α → ρ → β × ρ) : List α → ρ → List β × ρ
  | [], r => ([], r)
  | a :: rest, r =>
    let (b, r) := f a r
    let (bs, r) := each f rest r
    (b :: bs, r)

@[simp] theorem length_each {α β ρ : Type} (f : α → ρ → β × ρ) (items : List α) (r : ρ) :
    (each f items r).1.length = items.length := by
  induction items generalizing r with
  | nil => rfl
  | cons a rest ih => simp [each, ih]

def repeated {ρ : Type} (draw : ρ → Nat × ρ) (count : Nat) (r : ρ) : List Nat × ρ :=
  each (fun _ r => draw r) (List.range count) r

@[simp] theorem length_repeated {ρ : Type} (draw : ρ → Nat × ρ) (count : Nat) (r : ρ) :
    (repeated draw count r).1.length = count := by simp [repeated]

end Roller

/-!
## Scripted rolls

A script is a list of faces that is played from the start and starts over at its end. A face
that the die does not have becomes the nearest one that it has. An empty script always shows 1.
-/

structure Script where
  faces : List Nat
  /-- How many faces were played. -/
  played : Nat := 0
  deriving DecidableEq, Repr

namespace Script

def faceAt (s : Script) (i : Nat) : Nat := (s.faces[i % s.faces.length]?).getD 1

def next (sides : Nat) (s : Script) : Nat × Script :=
  (max 1 (min sides (s.faceAt s.played)), { s with played := s.played + 1 })

instance : Roller Script where
  one := next
  many count sides := Roller.repeated (next sides) count

theorem next_bounds {sides : Nat} (h : 1 ≤ sides) (s : Script) :
    1 ≤ (s.next sides).1 ∧ (s.next sides).1 ≤ sides := by
  simp only [next]; omega

end Script

end Tabletop
