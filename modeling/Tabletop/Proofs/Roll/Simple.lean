import Mathlib.Algebra.Order.BigOperators.Group.List
import Mathlib.Algebra.Order.Ring.Nat
import Tabletop.Proofs.Part.Reading
import Tabletop.Roll.Part
import Tabletop.Roller.Script

/-!
# Rolling simple parts

A part that has nothing but dice, a sign and a modifier comes to the sum of its kept dice and the
modifier. By a script, that sum never leaves the range of totals.
-/

namespace Tabletop

namespace Part

/-- A part of which only the dice, the sign and the modifier matter. -/
structure IsSimple (p : Part) : Prop where
  description : p.description = []
  test : p.test = none
  fixed : p.fixed = none
  count : p.count ≤ maxDice
  sides : p.sides ≤ maxCount

theorem IsSimple.withModifier {p : Part} (simple : p.IsSimple) (k : Token) :
    (p.withModifier k).IsSimple := by
  obtain ⟨sign, modifier, h⟩ := exists_withModifier_eq p k
  rw [h]
  exact ⟨simple.description, simple.test, simple.fixed, simple.count, simple.sides⟩

end Part

theorem Total.clamp_natCast {n : Nat} (h : (n : Int) ≤ greatest) : clamp n = n :=
  clamp_of_inRange ⟨Int.le_trans (by decide) (Int.natCast_nonneg n), h⟩

theorem Roller.each_cons {α β ρ : Type} (f : α → ρ → β × ρ) (a : α) (rest : List α) (r : ρ) :
    (each f (a :: rest) r).1 = (f a r).1 :: (each f rest (f a r).2).1 := rfl

theorem Roller.each_append {α β ρ : Type} (f : α → ρ → β × ρ) (items more : List α) (r : ρ) :
    each f (items ++ more) r =
      ((each f items r).1 ++ (each f more (each f items r).2).1,
        (each f more (each f items r).2).2) := by
  induction items generalizing r with
  | nil => rfl
  | cons a rest ih => simp [each, ih]

theorem Roller.each_take {α β ρ : Type} (f : α → ρ → β × ρ) (items : List α) (r : ρ) (k : Nat) :
    (each f (items.take k) r).1 = (each f items r).1.take k := by
  induction items generalizing r k with
  | nil => simp [each]
  | cons a rest ih =>
    cases k with
    | zero => rfl
    | succ k => simp [each, ih]

/-- If each item stands for another one that a roller does as it does the item, then all items stand
for all of these. -/
theorem Roller.each_map {α α' β β' ρ : Type} {stand : α → α'} {f : α → ρ → β × ρ}
    {g : α' → ρ → β' × ρ} {outcome : β → β'}
    (h : ∀ a r, g (stand a) r = (outcome (f a r).1, (f a r).2)) (items : List α) (r : ρ) :
    each g (items.map stand) r = ((each f items r).1.map outcome, (each f items r).2) := by
  induction items generalizing r with
  | nil => rfl
  | cons a rest ih => simp only [List.map_cons, each, h, ih]

/-- If each item stands for several things that a roller does as it does the item, then all items
stand for all of these. -/
theorem Roller.each_flatMap {α β γ δ ρ : Type} {items : α → List β} {f : β → ρ → γ × ρ}
    {g : α → ρ → δ × ρ} {outcomes : δ → List γ} {all : List α}
    (h : ∀ a ∈ all, ∀ r, each f (items a) r = (outcomes (g a r).1, (g a r).2)) (r : ρ) :
    each f (all.flatMap items) r = ((each g all r).1.flatMap outcomes, (each g all r).2) := by
  induction all generalizing r with
  | nil => rfl
  | cons a rest ih =>
    obtain ⟨ha, hrest⟩ := List.forall_mem_cons.mp h
    rw [List.flatMap_cons, each_append, ha, ih hrest]
    rfl

theorem Roller.exists_of_mem_each {α β ρ : Type} {f : α → ρ → β × ρ} {items : List α} {r : ρ}
    {b : β} (h : b ∈ (each f items r).1) : ∃ a ∈ items, ∃ r', b = (f a r').1 := by
  induction items generalizing r with
  | nil => simp [each] at h
  | cons a rest ih =>
    rw [each_cons] at h
    rcases List.mem_cons.mp h with rfl | h
    · exact ⟨a, List.mem_cons_self, r, rfl⟩
    · obtain ⟨a', ha', r', hb⟩ := ih h
      exact ⟨a', List.mem_cons_of_mem _ ha', r', hb⟩

/-- What holds of every face that can be drawn holds of the faces of a series. -/
theorem Roller.forall_mem_repeated {ρ : Type} {draw : ρ → Nat × ρ} (holds : Nat → Prop)
    (h : ∀ r, holds (draw r).1) (count : Nat) (r : ρ) :
    ∀ face ∈ (repeated draw count r).1, holds face := by
  intro face hface
  obtain ⟨_, -, r', rfl⟩ := exists_of_mem_each hface
  exact h r'

namespace PartRoll

variable {ρ : Type} [Roller ρ]

/-- What is rolled depends on the dice of the part alone. -/
theorem roll_eq_of_dice_eq {p q : Part} (count : q.count = p.count) (sides : q.sides = p.sides)
    (dropKeep : q.dropKeep = p.dropKeep) (fixed : q.fixed = p.fixed) (r : ρ) :
    roll q r = (⟨q, (roll p r).1.dice⟩, (roll p r).2) := by
  simp only [roll, ofFaces, count, sides, dropKeep, fixed]
  cases p.fixed with
  | some faces => rfl
  | none =>
    simp only
    split <;> rfl

/-- The dice do not depend on the sign and the modifier of the part. -/
theorem roll_withModifier (p : Part) (sign : Sign) (modifier : Int) (r : ρ) :
    roll { p with sign, modifier } r =
      (⟨{ p with sign, modifier }, (roll p r).1.dice⟩, (roll p r).2) :=
  roll_eq_of_dice_eq (p := p) (q := { p with sign, modifier }) rfl rfl rfl rfl r

theorem snd_roll_withModifier (p : Part) (t : Token) (r : ρ) :
    (roll (p.withModifier t) r).2 = (roll p r).2 := by
  obtain ⟨sign, modifier, h⟩ := p.exists_withModifier_eq t
  rw [h, roll_withModifier]

@[simp] theorem part_roll (p : Part) (r : ρ) : (roll p r).1.part = p := by
  rw [roll]
  cases p.fixed with
  | some faces => rfl
  | none =>
    simp only
    split <;> rfl

/-- Parts that are changed in anything but their dice are rolled as before. -/
theorem each_roll_map {f : Part → Part} (count : ∀ p, (f p).count = p.count)
    (sides : ∀ p, (f p).sides = p.sides) (dropKeep : ∀ p, (f p).dropKeep = p.dropKeep)
    (fixed : ∀ p, (f p).fixed = p.fixed) (parts : List Part) (r : ρ) :
    Roller.each roll (parts.map f) r =
      ((Roller.each roll parts r).1.map fun q => { q with part := f q.part },
        (Roller.each roll parts r).2) := by
  refine Roller.each_map (fun p r => ?_) parts r
  rw [roll_eq_of_dice_eq (count p) (sides p) (dropKeep p) (fixed p), part_roll]

/-- The parts are rolled as they were defined. -/
theorem map_part_each_roll (parts : List Part) (r : ρ) :
    (Roller.each roll parts r).1.map PartRoll.part = parts := by
  induction parts generalizing r with
  | nil => rfl
  | cons p rest ih => rw [Roller.each_cons, List.map_cons, part_roll, ih]

theorem testOf_eq (parts : List PartRoll) :
    testOf parts = Part.testOf (parts.map PartRoll.part) := by
  rw [testOf, Part.testOf, List.findSome?_map]
  rfl

theorem roll_of_sides {p : Part} (simple : p.IsSimple) (sides : p.sides = 0) (r : ρ) :
    roll p r = (ofFaces p [], r) := by
  rw [roll, simple.fixed, sides]
  rfl

theorem keptSum_roll_of_sides {p : Part} (simple : p.IsSimple) (sides : p.sides = 0) (r : ρ) :
    (roll p r).1.keptSum = 0 := by
  rw [roll_of_sides simple sides]
  simp [ofFaces, keptSum, keptFaces]

theorem keptFaces_sublist (p : PartRoll) : p.keptFaces.Sublist p.faces :=
  List.filter_sublist.map Die.value

theorem keptSum_le {p : PartRoll} {bound : Nat} (h : ∀ face ∈ p.faces, face ≤ bound) :
    p.keptSum ≤ p.faces.length * bound := by
  have hkept := p.keptFaces_sublist
  have hsum := List.sum_le_card_nsmul p.keptFaces bound fun face hface => h face (hkept.mem hface)
  exact hsum.trans (Nat.mul_le_mul_right bound hkept.length_le)

theorem keptFaces_ofFaces_sublist (p : Part) (faces : List Nat) :
    (ofFaces p faces).keptFaces.Sublist faces := by
  have hkept := (ofFaces p faces).keptFaces_sublist
  rwa [faces_ofFaces] at hkept

theorem keptSum_ofFaces_le (p : Part) {faces : List Nat} {bound : Nat}
    (h : ∀ face ∈ faces, face ≤ bound) : (ofFaces p faces).keptSum ≤ faces.length * bound := by
  rw [← faces_ofFaces p faces] at h
  have hsum := keptSum_le h
  rwa [faces_ofFaces] at hsum

/-- The kept dice of a simple part come to no more than the highest face on every die. -/
theorem keptSum_roll_le_mul {p : Part} (simple : p.IsSimple) (s : Script) :
    (roll p s).1.keptSum ≤ p.count * p.sides := by
  by_cases hsides : p.sides = 0
  · rw [keptSum_roll_of_sides simple hsides]
    exact Nat.zero_le _
  · have hfaces : ∀ face ∈ (Roller.repeated (Script.next p.sides) p.count s).1, face ≤ p.sides :=
      Roller.forall_mem_repeated (· ≤ p.sides)
        (fun s => (Script.next_bounds (Nat.one_le_iff_ne_zero.mpr hsides) s).2) p.count s
    have hsum := keptSum_ofFaces_le p hfaces
    rw [Roller.length_repeated] at hsum
    rw [roll, simple.fixed, if_neg hsides]
    exact hsum

/-- The dice of a part come to a total within its range. -/
theorem keptSum_roll_le {p : Part} (simple : p.IsSimple) (s : Script) :
    ((roll p s).1.keptSum : Int) ≤ Total.greatest := by
  have hsum := keptSum_roll_le_mul simple s
  have hbound : p.count * p.sides ≤ maxDice * maxCount := Nat.mul_le_mul simple.count simple.sides
  have hgreatest : ((maxDice * maxCount : Nat) : Int) ≤ Total.greatest := by decide
  omega

/-- Whatever else a part says, its kept dice come to a total within its range, and to nothing where
there are no sides. -/
theorem keptSum_roll_bounds {p : Part} (fixed : p.fixed = none) (count : p.count ≤ maxDice)
    (sides : p.sides ≤ maxCount) (s : Script) :
    ((roll p s).1.keptSum : Int) ≤ Total.greatest ∧ (p.sides = 0 → (roll p s).1.keptSum = 0) := by
  let dice : Part := { count := p.count, sides := p.sides, dropKeep := p.dropKeep }
  have simple : dice.IsSimple := ⟨rfl, rfl, rfl, count, sides⟩
  have hsum : (roll p s).1.keptSum = (roll dice s).1.keptSum := by
    rw [roll_eq_of_dice_eq (p := dice) (q := p) rfl rfl rfl fixed]
    rfl
  rw [hsum]
  exact ⟨keptSum_roll_le simple s, fun sides => keptSum_roll_of_sides simple sides s⟩

/-- Dice without a modifier come to the sum of their kept faces. -/
theorem total_roll_of_alone {p : Part} (simple : p.IsSimple) (alone : p.modifier = 0) (s : Script) :
    (roll p s).1.total = (roll p s).1.keptSum := by
  rw [total, part_roll, alone, Total.add, Int.add_zero,
    Total.clamp_natCast (keptSum_roll_le simple s)]

/-- A part without sides comes to its modifier. -/
theorem total_roll_of_sides {p : Part} (simple : p.IsSimple) (sides : p.sides = 0) {n : Nat}
    (modifier : p.modifier = n) (range : (n : Int) ≤ Total.greatest) (r : ρ) :
    (roll p r).1.total = n := by
  rw [total, keptSum_roll_of_sides simple sides, part_roll, modifier, Total.add, Int.natCast_zero,
    Int.zero_add, Total.clamp_natCast range]

end PartRoll

end Tabletop
