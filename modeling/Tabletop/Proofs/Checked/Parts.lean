import Tabletop.Proofs.Checked.Reading
import Tabletop.Proofs.Roll.Extremes
import Tabletop.Proofs.Roll.Fixed

/-!
# Checked parts

A rule for keeping or dropping dice looks up faces at their places and cuts off as many as it
chooses; what is kept is added up, and a greatest value is a product. A part that was read has a
thousand dice at most and twice as many after a critical hit, and with so many no check fails.
-/

namespace Tabletop

open Checked

namespace DropKeep

def order? (extremity : Extremity) (faces : List Nat) : Option (List Nat) := do
  let placed ← (List.range faces.length).mapM fun i => faces[i]?.map (·, i)
  some ((placed.mergeSort fun a b => before extremity a.1 b.1).map Prod.snd)

def select? (rule : DropKeep) (faces : List Nat) : Option (List Bool) := do
  let order ← order? rule.extremity faces
  let chosen ← take? (min rule.number order.length) order
  some ((List.range faces.length).map fun i => chosen.contains i == (rule.choice == .keep))

theorem order?_eq (extremity : Extremity) (faces : List Nat) :
    order? extremity faces = some (order extremity faces) := by
  have hplaced : (List.range faces.length).mapM (fun i => faces[i]?.map (·, i)) =
      some faces.zipIdx := by
    rw [mapM_eq_some (g := fun i => (faces[i]?.getD 0, i)) fun i hi => ?_]
    · congr 1
      refine List.ext_getElem (by simp) fun i hi _ => ?_
      have hlt : i < faces.length := by simpa using hi
      simp [List.getElem?_eq_getElem hlt]
    · rw [List.getElem?_eq_getElem (List.mem_range.mp hi)]
      rfl
  rw [order?, hplaced]
  rfl

/-- A rule for dropping or keeping misses no place and chooses no more dice than there are. -/
theorem select?_eq (rule : DropKeep) (faces : List Nat) :
    rule.select? faces = some (rule.select faces) := by
  have hchosen (order : List Nat) : order.take (min rule.number order.length) =
      order.take rule.number := List.take_eq_take_iff.mpr (by omega)
  rw [select?, order?_eq, Option.bind_eq_bind, Option.bind_some,
    take?_of_le (Nat.min_le_right _ _), hchosen]
  rfl

end DropKeep

namespace Part

def maxDiceValue? (p : Part) : Option Int := total? (p.keptCount * p.sides)

theorem maxDiceValue?_eq {p : Part} (h : p.IsWithin (maxDice * 2)) :
    p.maxDiceValue? = some p.maxDiceValue := by
  have hnonneg : 0 ≤ p.maxDiceValue :=
    Int.mul_nonneg (Int.natCast_nonneg _) (Int.natCast_nonneg _)
  exact total?_of_inRange
    ⟨le_trans (by decide) hnonneg, maxDiceValue_le_greatest h.count h.sides⟩

end Part

namespace PartRoll

def total? (p : PartRoll) : Option Int := do
  let sum ← sumUpTo? Total.greatest.toNat p.keptFaces
  some (Total.add sum p.part.modifier)

/-- For each face, whether the part keeps it. -/
def kept? (part : Part) (faces : List Nat) : Option (List Bool) :=
  match part.dropKeep with
  | some rule => rule.select? faces
  | none => some (faces.map fun _ => true)

/-- The rolled part, if it has a total. -/
def added? (p : PartRoll) : Option PartRoll := p.total?.map fun _ => p

/-- Marks faces by the part's rule and adds up what is kept. -/
def ofFaces? (part : Part) (faces : List Nat) : Option PartRoll := do
  let kept ← kept? part faces
  added? ⟨part, faces.zipWith Die.mk kept⟩

def roll? {ρ : Type} [Roller ρ] (part : Part) (r : ρ) : Option (PartRoll × ρ) :=
  match part.fixed with
  | some faces => (ofFaces? part faces).map (·, r)
  | none =>
    if part.sides = 0 then (ofFaces? part []).map (·, r)
    else
      let (faces, r) := Roller.many part.count part.sides r
      (ofFaces? part faces).map (·, r)

def doubled? (p : PartRoll) : Option PartRoll := ofFaces? p.doubled.part (p.faces ++ p.faces)

/-- A rolled part with at most `most` dice, none of which shows more than a count. -/
structure IsWithin (most : Nat) (p : PartRoll) : Prop where
  part : p.part.IsWithin most
  length : p.faces.length ≤ most
  faces : ∀ face ∈ p.faces, face ≤ maxCount

variable {most : Nat}

theorem IsWithin.mono {more : Nat} {p : PartRoll} (h : p.IsWithin most) (le : most ≤ more) :
    p.IsWithin more := ⟨h.part.mono le, h.length.trans le, h.faces⟩

theorem isWithin_ofFaces {part : Part} {faces : List Nat} (within : part.IsWithin most)
    (length : faces.length ≤ most) (range : ∀ face ∈ faces, face ≤ maxCount) :
    (ofFaces part faces).IsWithin most := by
  refine ⟨within, ?_, ?_⟩ <;> rw [faces_ofFaces]
  · exact length
  · exact range

theorem isWithin_flat (most : Nat) (sign : Sign) (n : Int) :
    (ofFaces (.flat sign n) []).IsWithin most :=
  isWithin_ofFaces (Part.isWithin_flat most sign n) (Nat.zero_le _) nofun

theorem IsWithin.doubled {p : PartRoll} (h : p.IsWithin most) : p.doubled.IsWithin (most * 2) := by
  refine isWithin_ofFaces ⟨?_, h.part.sides, h.part.hunger⟩ ?_ ?_
  · exact (Nat.min_le_right _ _).trans (Nat.mul_le_mul_right 2 h.part.count)
  · have hlength := h.length
    rw [List.length_append]
    omega
  · exact List.forall_mem_append.mpr ⟨h.faces, h.faces⟩

/-- A part with at most two thousand dice has a total that can be counted. -/
theorem total?_eq {p : PartRoll} (h : p.IsWithin (maxDice * 2)) : p.total? = some p.total := by
  have hsum : p.keptFaces.sum ≤ Total.greatest.toNat :=
    calc p.keptSum ≤ p.faces.length * maxCount := keptSum_le h.faces
      _ ≤ maxDice * 2 * maxCount := Nat.mul_le_mul_right maxCount h.length
      _ ≤ Total.greatest.toNat := by decide
  rw [total?, sumUpTo?_of_le hsum]
  rfl

theorem added?_eq {p : PartRoll} (h : p.IsWithin (maxDice * 2)) : p.added? = some p := by
  rw [added?, total?_eq h, Option.map_some]

theorem kept?_eq (part : Part) (faces : List Nat) :
    kept? part faces = some (match part.dropKeep with
      | some rule => rule.select faces
      | none => faces.map fun _ => true) := by
  rw [kept?]
  cases part.dropKeep with
  | none => rfl
  | some rule => exact rule.select?_eq faces

theorem ofFaces?_eq {part : Part} {faces : List Nat} (within : part.IsWithin (maxDice * 2))
    (length : faces.length ≤ maxDice * 2) (range : ∀ face ∈ faces, face ≤ maxCount) :
    ofFaces? part faces = some (ofFaces part faces) := by
  rw [ofFaces?, kept?_eq, Option.bind_eq_bind, Option.bind_some]
  exact added?_eq (isWithin_ofFaces within length range)

/-- A part with at most a thousand dice can be counted twice over. -/
theorem doubled?_eq {p : PartRoll} (h : p.IsWithin maxDice) : p.doubled? = some p.doubled := by
  have hlength := h.doubled.length
  have hfaces := h.doubled.faces
  rw [PartRoll.doubled, faces_ofFaces] at hlength hfaces
  exact ofFaces?_eq h.doubled.part hlength hfaces

section

variable {ρ : Type} [Roller ρ] {sound : ρ → Prop}

/-- A part of a command is rolled with a thousand dice at most. -/
theorem roll?_eq (lawful : Roller.Lawful sound) {p : Part} (within : p.IsWithin maxDice)
    (fixed : p.fixed = none) {r : ρ} (h : sound r) :
    roll? p r = some (roll p r) ∧ (roll p r).1.IsWithin maxDice := by
  have checked (faces : List Nat) (length : faces.length ≤ maxDice)
      (range : ∀ face ∈ faces, face ≤ maxCount) :
      ofFaces? p faces = some (ofFaces p faces) ∧ (ofFaces p faces).IsWithin maxDice :=
    ⟨ofFaces?_eq (within.mono (by decide)) (length.trans (by decide)) range,
      isWithin_ofFaces within length range⟩
  rw [roll?, roll, fixed]
  dsimp only
  split
  · obtain ⟨hexact, hwithin⟩ := checked [] (Nat.zero_le _) (List.forall_mem_nil _)
    exact ⟨by rw [hexact]; rfl, hwithin⟩
  · next hsides =>
    have hlength := lawful.length h p.count p.sides
    have hrange := lawful.face h p.count (Nat.pos_of_ne_zero hsides)
    obtain ⟨hexact, hwithin⟩ := checked _ (hlength.le.trans within.count) fun face hface =>
      (hrange face hface).2.trans within.sides
    exact ⟨by rw [hexact]; rfl, hwithin⟩

end

/-- At most `limit` parts with at most `most` dice each. -/
structure Counted (limit most : Nat) (parts : List PartRoll) : Prop where
  length : parts.length ≤ limit
  parts : ∀ p ∈ parts, p.IsWithin most

theorem Counted.mono {limit more further : Nat} {parts : List PartRoll}
    (h : Counted limit most parts) (le : limit ≤ further) (le' : most ≤ more) :
    Counted further more parts := ⟨h.length.trans le, fun p hp => (h.parts p hp).mono le'⟩

end PartRoll

end Tabletop
