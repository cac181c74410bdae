import Mathlib.Tactic.Ring
import Tabletop.Proofs.Roll.Fixed
import Tabletop.Proofs.Roll.Printed
import Tabletop.Proofs.Roll.Selected

/-!
# Doubled damage

Two of the ways to raise damage are meant to double it: one appends a factor of two, the other
rolls all dice twice over and doubles what is added to them. The second one doubles the kept dice of
each part, because a rule for twice the dice keeps twice as many of each face. A number that
multiplies is left alone, so that the total is doubled once; dice that multiply are doubled as well,
and then the total is more than doubled unless there was nothing to multiply.
-/

namespace Tabletop

namespace PartRoll

open DropKeep

/-- A rolled part with at most `most` dice, which are marked by the rule of the part. -/
structure AtMost (most : Nat) (p : PartRoll) : Prop where
  marks : ofFaces p.part p.faces = p
  length : p.faces.length ≤ most

theorem atMost_ofFaces {most : Nat} {faces : List Nat} (length : faces.length ≤ most)
    (part : Part) : (ofFaces part faces).AtMost most := by
  refine ⟨?_, ?_⟩ <;> rw [faces_ofFaces]
  · rfl
  · exact length

theorem AtMost.mono {most more : Nat} {p : PartRoll} (h : p.AtMost most) (le : most ≤ more) :
    p.AtMost more := ⟨h.marks, h.length.trans le⟩

theorem AtMost.doubled {most : Nat} {p : PartRoll} (h : p.AtMost most) :
    p.doubled.AtMost (most * 2) := by
  refine atMost_ofFaces ?_ _
  rw [List.length_append, ← Nat.mul_two]
  exact Nat.mul_le_mul_right 2 h.length

/-- No part has more than a thousand dice when it is rolled. -/
theorem atMost_roll {ρ : Type} [Roller ρ] {sound : ρ → Prop} (lawful : Roller.Lawful sound)
    {p : Part} (fixed : p.fixed = none) (limited : p.IsLimited) {r : ρ} (h : sound r) :
    (roll p r).1.AtMost maxDice := by
  rw [roll, fixed]
  dsimp only
  split
  · exact atMost_ofFaces (Nat.zero_le _) p
  · exact atMost_ofFaces ((lawful.length h _ _).le.trans limited.count) p

/-- Rolling all dice twice over keeps every kept die twice. -/
theorem keptFaces_doubled_perm {most : Nat} {p : PartRoll} (h : p.AtMost most)
    (room : most * 2 ≤ maxCount) : p.doubled.keptFaces.Perm (p.keptFaces ++ p.keptFaces) := by
  have hkept := keptFaces_ofFaces p.part p.faces
  rw [h.marks] at hkept
  rw [hkept, PartRoll.doubled, keptFaces_ofFaces]
  cases p.part.dropKeep with
  | some rule => exact marked_scaled_perm (.inr ((Nat.mul_le_mul_right 2 h.length).trans room))
  | none => exact .refl _

theorem keptSum_doubled {most : Nat} {p : PartRoll} (h : p.AtMost most)
    (room : most * 2 ≤ maxCount) : p.doubled.keptSum = p.keptSum * 2 := by
  have hsum : p.doubled.keptFaces.sum = p.keptFaces.sum * 2 := by
    rw [(keptFaces_doubled_perm h room).sum_eq, List.sum_append, Nat.mul_two]
  exact hsum

/-- The kept dice and the flat modifier together, where nothing is limited. -/
def exactTotal (p : PartRoll) : Int := p.keptSum + p.part.modifier

def exactJoined (parts : List PartRoll) : Int :=
  parts.foldl (fun total p => p.part.sign.exactly total p.exactTotal) 0

theorem exactJoined_concat (before : List PartRoll) (p : PartRoll) :
    exactJoined (before ++ [p]) = p.part.sign.exactly (exactJoined before) p.exactTotal := by
  simp [exactJoined]

/-- No value on the way to the total leaves the range of totals. -/
structure Within (parts : List PartRoll) : Prop where
  value : ∀ p ∈ parts, Total.InRange p.exactTotal
  total : ∀ k ≤ parts.length, Total.InRange (exactJoined (parts.take k))

instance (parts : List PartRoll) : Decidable (Within parts) :=
  decidable_of_iff (_ ∧ _) ⟨fun h => ⟨h.1, h.2⟩, fun h => ⟨h.value, h.total⟩⟩

/-- Where nothing leaves the range, the limits make no difference. -/
theorem Within.joinedTotal_take {parts : List PartRoll} (h : Within parts) (k : Nat) :
    joinedTotal (parts.take k) = exactJoined (parts.take k) := by
  refine (forall_take_iff_of_step (f := PartRoll.joinedTotal) (g := exactJoined)
    (p := fun _ _ => True) rfl fun k hk same => ?_).mpr (fun _ _ => trivial) k
  have hvalue : parts[k].total = parts[k].exactTotal :=
    Total.clamp_of_inRange (h.value _ (List.getElem_mem hk))
  have htotal := h.total (k + 1) hk
  rw [← List.take_concat_get' parts k hk, exactJoined_concat] at htotal
  rw [joinedTotal_concat, exactJoined_concat, same, hvalue, Sign.apply_eq_clamp,
    Total.clamp_of_inRange htotal]
  exact iff_of_true rfl trivial

theorem Within.joinedTotal {parts : List PartRoll} (h : Within parts) :
    joinedTotal parts = exactJoined parts := by
  have hall := h.joinedTotal_take parts.length
  rwa [List.take_length] at hall

/-- What rolling twice makes of the value of a part: twice the value, except that the modifier of
dice that multiply, or a number that multiplies, counts only once. -/
theorem exactTotal_doubled {p : PartRoll} (kept : p.doubled.keptSum = p.keptSum * 2)
    (modifier : p.part.sign ≠ .times → Total.InRange (p.part.modifier * 2)) :
    p.doubled.exactTotal =
      if p.part.sign = .times then p.exactTotal + p.keptSum else p.exactTotal * 2 := by
  have hmodifier : p.doubled.part.modifier =
      if p.part.sign = .times then p.part.modifier else Total.mul p.part.modifier 2 := rfl
  rw [exactTotal, exactTotal, kept, hmodifier]
  split
  · push_cast
    omega
  · next hsign =>
    rw [Total.mul, Total.clamp_of_inRange (modifier hsign)]
    push_cast
    omega

/-- Dice that count multiply nothing but a total of zero. -/
def FactorsFlat (parts : List PartRoll) : Prop :=
  ∀ k (hk : k < parts.length), parts[k].part.sign = .times →
    parts[k].keptSum = 0 ∨ joinedTotal (parts.take k) = 0

instance (parts : List PartRoll) : Decidable (FactorsFlat parts) := by
  delta FactorsFlat
  infer_instance

/-- A term that is rolled twice doubles a doubled total once more exactly if dice multiply it. -/
theorem exactly_doubled_iff {p : PartRoll} (kept : p.doubled.keptSum = p.keptSum * 2)
    (modifier : p.part.sign ≠ .times → Total.InRange (p.part.modifier * 2)) (total : Int) :
    p.part.sign.exactly (total * 2) p.doubled.exactTotal =
        p.part.sign.exactly total p.exactTotal * 2 ↔
      (p.part.sign = .times → p.keptSum = 0 ∨ total = 0) := by
  rw [exactTotal_doubled kept modifier]
  cases p.part.sign with
  | plus | minus =>
    refine iff_of_true ?_ (by simp)
    simp only [reduceCtorEq, if_false, Sign.exactly_plus, Sign.exactly_minus]
    omega
  | times =>
    have hsplit : total * 2 * (p.exactTotal + p.keptSum) =
        total * p.exactTotal * 2 + total * p.keptSum * 2 := by ring
    rw [if_pos rfl, Sign.exactly_times, Sign.exactly_times, hsplit, add_eq_left]
    simp [or_comm]

/-- Rolling all dice twice over doubles the total of an expression and of all its beginnings exactly
where dice multiply nothing. -/
theorem joinedTotal_doubled_take_iff {parts : List PartRoll}
    (kept : ∀ p ∈ parts, p.doubled.keptSum = p.keptSum * 2)
    (modifier : ∀ p ∈ parts, p.part.sign ≠ .times → Total.InRange (p.part.modifier * 2))
    (before : Within parts) (after : Within (parts.map doubled)) :
    (∀ k, joinedTotal ((parts.map doubled).take k) = joinedTotal (parts.take k) * 2) ↔
      FactorsFlat parts := by
  have hafter (k : Nat) :
      joinedTotal ((parts.map doubled).take k) = exactJoined ((parts.take k).map doubled) := by
    rw [after.joinedTotal_take, List.map_take]
  simp only [FactorsFlat, hafter, before.joinedTotal_take]
  refine forall_take_iff_of_step (f := fun l => exactJoined (l.map doubled))
    (g := fun l => exactJoined l * 2)
    (p := fun before p => p.part.sign = .times → p.keptSum = 0 ∨ exactJoined before = 0) rfl
    fun k hk same => ?_
  have hp := List.getElem_mem hk
  rw [List.map_append, List.map_singleton, exactJoined_concat, exactJoined_concat, same]
  exact exactly_doubled_iff (kept _ hp) (modifier _ hp) _

end PartRoll

namespace Roll

open PartRoll

/-- No value leaves the range of totals, neither on the way to the total nor on the way to that of
the raised roll. -/
structure RaisesWithin (system : System) (method : CritMethod) (r : Roll) : Prop where
  before : Within r.parts
  raised : Within (r.raised system method).parts
  /-- Rolling twice doubles the modifiers that do not multiply. -/
  modifier : method = .rollTwice →
    ∀ p ∈ r.parts, p.part.sign ≠ .times → Total.InRange (p.part.modifier * 2)

instance (system : System) (method : CritMethod) (r : Roll) :
    Decidable (RaisesWithin system method r) :=
  decidable_of_iff (_ ∧ _ ∧ _)
    ⟨fun h => ⟨h.1, h.2.1, h.2.2⟩, fun h => ⟨h.before, h.raised, h.modifier⟩⟩

/-- A roll under d20 rules, with at most `most` dice in each part. -/
structure Sums (most : Nat) (r : Roll) : Prop where
  total : r.total = joinedTotal r.parts
  parts : ∀ p ∈ r.parts, p.AtMost most

theorem Sums.mono {most more : Nat} {r : Roll} (h : r.Sums most) (le : most ≤ more) : r.Sums more :=
  ⟨h.total, fun p hp => (h.parts p hp).mono le⟩

variable {threshold : Nat} {infers : Bool}

/-- Raising a roll doubles the dice of each part at most. -/
theorem Sums.raised {most : Nat} {r : Roll} (h : r.Sums most) (method : CritMethod) :
    (r.raised (.pathfinder threshold infers) method).Sums (most * 2) := by
  have hparts : ∀ p ∈ r.parts, p.AtMost (most * 2) := fun p hp =>
    (h.parts p hp).mono (Nat.le_mul_of_pos_right most (by decide))
  have hflat (sign : Sign) (n : Int) : (ofFaces (.flat sign n) []).AtMost (most * 2) :=
    atMost_ofFaces (Nat.zero_le _) _
  refine ⟨rfl, ?_⟩
  cases method with
  | timesTwo | addMax =>
    exact List.forall_mem_append.mpr ⟨hparts, List.forall_mem_singleton.mpr (hflat _ _)⟩
  | rollTwice => exact List.forall_mem_map.mpr fun p hp => (h.parts p hp).doubled

/-- A factor of two doubles the total. -/
theorem Sums.total_timesTwo {most : Nat} {r : Roll} (h : r.Sums most)
    (within : r.RaisesWithin (.pathfinder threshold infers) .timesTwo) :
    (r.raised (.pathfinder threshold infers) .timesTwo).total = r.total * 2 := by
  have htotal : (r.raised (.pathfinder threshold infers) .timesTwo).total =
      joinedTotal (r.raised (.pathfinder threshold infers) .timesTwo).parts := rfl
  have hparts : (r.raised (.pathfinder threshold infers) .timesTwo).parts =
      r.parts ++ [ofFaces (.flat .times 2) []] := rfl
  rw [htotal, within.raised.joinedTotal, hparts, exactJoined_concat, h.total,
    within.before.joinedTotal]
  rfl

/-- Rolling twice doubles the total where dice multiply nothing, and there only all totals on the
way to it. -/
theorem Sums.total_rollTwice {most : Nat} {r : Roll} (h : r.Sums most)
    (room : most * 2 ≤ maxCount)
    (within : r.RaisesWithin (.pathfinder threshold infers) .rollTwice) :
    (FactorsFlat r.parts →
      (r.raised (.pathfinder threshold infers) .rollTwice).total = r.total * 2) ∧
    ((∀ k, joinedTotal ((r.raised (.pathfinder threshold infers) .rollTwice).parts.take k) =
      joinedTotal (r.parts.take k) * 2) ↔ FactorsFlat r.parts) := by
  have hkept : ∀ p ∈ r.parts, p.doubled.keptSum = p.keptSum * 2 := fun p hp =>
    keptSum_doubled (h.parts p hp) room
  have hiff :=
    joinedTotal_doubled_take_iff hkept (within.modifier rfl) within.before within.raised
  refine ⟨fun flat => ?_, hiff⟩
  have hall := hiff.mpr flat r.parts.length
  rw [List.take_length, ← h.total, List.take_of_length_le (by simp)] at hall
  exact hall

end Roll

end Tabletop
