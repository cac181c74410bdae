import Mathlib
import Tabletop.Proofs.Roll.Selected
import Tabletop.Proofs.Roll.Simple

/-!
# Extremes of a rolled part

How many dice a part keeps and the most that they can come to are worked out from the part alone.
A roll of all its dice keeps as many, comes to at least one for each of them and to at most that
much, and says that it is the lowest or the highest possible exactly if it comes to one of these
bounds. Where nothing is kept there is nothing lowest or highest.
-/

namespace Tabletop

namespace DropKeep

variable {e : Extremity} {n : Nat} {faces : List Nat}

/-- Faces that all lie on one side of a number come to a sum on that side of as many times the
number. -/
theorem before_sum (h : ∀ face ∈ faces, before e face n = true) :
    before e faces.sum (faces.length * n) = true := by
  cases e with
  | highest =>
    exact decide_eq_true
      (List.card_nsmul_le_sum faces n fun face hface => of_decide_eq_true (h face hface))
  | lowest =>
    exact decide_eq_true
      (List.sum_le_card_nsmul faces n fun face hface => of_decide_eq_true (h face hface))

/-- Faces that all lie on one side of a number come to as many times the number exactly if each of
them is the number. -/
theorem sum_eq_length_mul_iff (h : ∀ face ∈ faces, before e face n = true) :
    faces.sum = faces.length * n ↔ ∀ face ∈ faces, face = n := by
  induction faces with
  | nil => simp
  | cons face rest ih =>
    obtain ⟨hface, hrest⟩ := List.forall_mem_cons.mp h
    have hsum := before_sum hrest
    have hsplit : face + rest.sum = n + rest.length * n ↔
        face = n ∧ rest.sum = rest.length * n := by
      cases e <;> simp only [before, decide_eq_true_eq] at hface hsum <;> omega
    rw [List.sum_cons, List.length_cons, Nat.succ_mul, Nat.add_comm (rest.length * n), hsplit,
      List.forall_mem_cons, ih hrest]

end DropKeep

namespace Part

theorem keptCount_le (p : Part) : p.keptCount ≤ p.count := by
  rw [keptCount]
  cases p.dropKeep with
  | none => exact Nat.le_refl _
  | some rule => exact rule.keptCount_le p.count

/-- No part that is rolled, even twice, has a greatest value beyond the range of totals. -/
theorem maxDiceValue_le_greatest {p : Part} (count : p.count ≤ maxDice * 2)
    (sides : p.sides ≤ maxCount) : p.maxDiceValue ≤ Total.greatest := by
  have hproduct : p.keptCount * p.sides ≤ maxDice * 2 * maxCount :=
    Nat.mul_le_mul (p.keptCount_le.trans count) sides
  have hbound : ((maxDice * 2 * maxCount : Nat) : Int) ≤ Total.greatest := by decide
  rw [maxDiceValue]
  exact (Int.ofNat_le.mpr hproduct).trans hbound

end Part

namespace PartRoll

open DropKeep

/-- The kept dice all show one face exactly if there are some and they come to as many times it. -/
theorem all_keptFaces_iff {p : PartRoll} {e : Extremity} {n : Nat}
    (h : ∀ face ∈ p.keptFaces, before e face n = true) :
    (!p.keptFaces.isEmpty && p.keptFaces.all (· == n)) = true ↔
      0 < p.keptFaces.length ∧ p.keptSum = p.keptFaces.length * n := by
  have hsum : p.keptSum = p.keptFaces.sum := rfl
  rw [hsum, sum_eq_length_mul_iff h, List.length_pos_iff]
  simp

/-- A single kept die is told by its face. -/
theorem natural?_eq_some_iff {p : PartRoll} {face : Nat} :
    p.natural? = some face ↔ p.keptFaces = [face] := by
  rw [natural?]
  split
  · next h => simp [h]
  · next h => simpa using h face

variable {p : Part} {faces : List Nat}

/-- A roll of all dice keeps as many as the part says. -/
theorem length_keptFaces_ofFaces (length : faces.length = p.count) :
    (ofFaces p faces).keptFaces.length = p.keptCount := by
  rw [keptFaces_ofFaces, Part.keptCount, ← length]
  cases p.dropKeep with
  | none => rfl
  | some rule => exact (length_marked (length_select rule faces)).trans (count_select rule faces)

/-- A roll of all dice keeps as many as the part says. What these come to lies between one for each
of them and the greatest value of the part, and the total adds the modifier to it as far as totals
reach. The roll is the lowest possible exactly if it keeps dice and they come to one each, the
highest possible exactly if it keeps dice and they come to the greatest value, and has a natural
value exactly if it keeps one die, which then is what it comes to. No part that is rolled, even
twice, has a greatest value beyond the range of totals. -/
theorem extremes_ofFaces (length : faces.length = p.count)
    (range : ∀ face ∈ faces, 1 ≤ face ∧ face ≤ p.sides) :
    let rolled := ofFaces p faces
    let kept :=
      match p.dropKeep with
      | some rule => rule.keptCount p.count
      | none => p.count
    let sum := rolled.keptSum
    rolled.dice.countP Die.kept = kept ∧ (kept ≤ sum ∧ (sum : Int) ≤ p.maxDiceValue) ∧
    rolled.total = Total.clamp (sum + p.modifier) ∧
    (rolled.isMin = true ↔ 0 < kept ∧ sum = kept) ∧
    (rolled.isMax = true ↔ 0 < kept ∧ (sum : Int) = p.maxDiceValue) ∧
    (rolled.natural?.isSome ↔ kept = 1) ∧ (∀ face ∈ rolled.natural?, face = sum) ∧
    (p.count ≤ maxDice * 2 → p.sides ≤ maxCount → p.maxDiceValue ≤ Total.greatest) := by
  intro rolled kept sum
  have hlength : rolled.keptFaces.length = kept := length_keptFaces_ofFaces length
  have hrange : ∀ face ∈ rolled.keptFaces, 1 ≤ face ∧ face ≤ p.sides := fun face hface =>
    range face ((keptFaces_ofFaces_sublist p faces).mem hface)
  have low : ∀ face ∈ rolled.keptFaces, before .highest face 1 = true := fun face hface =>
    decide_eq_true (hrange face hface).1
  have high : ∀ face ∈ rolled.keptFaces, before .lowest face p.sides = true := fun face hface =>
    decide_eq_true (hrange face hface).2
  have hmin := all_keptFaces_iff low
  have hmax := all_keptFaces_iff high
  have hleast := of_decide_eq_true (before_sum low)
  have hgreatest := of_decide_eq_true (before_sum high)
  rw [hlength] at hmin hmax hleast hgreatest
  rw [Nat.mul_one] at hmin hleast
  have hdefined : p.maxDiceValue = kept * p.sides := rfl
  have hvalue (n : Nat) : (n : Int) = p.maxDiceValue ↔ n = kept * p.sides := by
    rw [hdefined]
    norm_cast
  refine ⟨?_, ⟨hleast, ?_⟩, rfl, hmin, ?_, ?_, fun face hface => ?_,
    Part.maxDiceValue_le_greatest⟩
  · rw [List.countP_eq_length_filter, ← hlength]
    exact (List.length_map _).symm
  · rw [hdefined]
    exact_mod_cast hgreatest
  · rw [hvalue]
    exact hmax
  · rw [← hlength, List.length_eq_one_iff, Option.isSome_iff_exists]
    exact exists_congr fun face => natural?_eq_some_iff
  · have hone : rolled.keptFaces = [face] := natural?_eq_some_iff.mp hface
    change face = rolled.keptFaces.sum
    rw [hone, List.sum_singleton]

/-- Dropping the lowest two of 4, 6 and 1 leaves the six, which is the highest possible value. -/
theorem extremes_ofFaces_one_left :
    let p : Part := { count := 3, sides := 6, modifier := 2, dropKeep := some ⟨.drop, .lowest, 2⟩ }
    let faces := [4, 6, 1]
    let rolled := ofFaces p faces
    (faces.length = p.count ∧ ∀ face ∈ faces, 1 ≤ face ∧ face ≤ p.sides) ∧
      rolled.dice.countP Die.kept = 1 ∧ rolled.keptSum = 6 ∧ rolled.total = 8 ∧
      rolled.isMin = false ∧ rolled.isMax = true ∧ rolled.natural? = some 6 := by
  intro p faces rolled
  have length : faces.length = p.count := rfl
  have range : ∀ face ∈ faces, 1 ≤ face ∧ face ≤ p.sides := by decide
  have hsum : rolled.keptSum = 6 := by cbv
  obtain ⟨count, -, total, lowest, highest, isSome, natural, -⟩ := extremes_ofFaces length range
  rw [hsum] at total lowest highest
  obtain ⟨face, hface⟩ := Option.isSome_iff_exists.mp (isSome.mpr rfl)
  have hsix : face = 6 := (natural face hface).trans hsum
  refine ⟨⟨length, range⟩, count, hsum, total, ?_, highest.mpr (by decide), hsix ▸ hface⟩
  exact Bool.eq_false_iff.mpr fun h => absurd (lowest.mp h).2 (by decide)

end PartRoll

end Tabletop
