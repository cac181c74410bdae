import Tabletop.Proofs.Roll.Better

/-!
# Grades rise with totals

Under every game system a lower target or a higher total is graded no worse when the rolled parts
stay as they are. The system looks at the test for whether it is passed and for its kind, and all
else that it looks at stays as it is. Under d20 rules a single d20 with a higher face is graded no
worse either: the face raises the total, and the extremes lie at the ends of the die.
-/

namespace Tabletop

namespace PartRoll

def untested (p : PartRoll) : PartRoll := p.withTest fun _ => none

/-- Rolled parts whose first test asks for another value. -/
def aimed (value : Int) : List PartRoll → List PartRoll
  | [] => []
  | p :: rest =>
    if p.part.test.isSome then p.withTest (Option.map fun t => { t with value }) :: rest
    else p :: aimed value rest

theorem testOf_aimed {parts : List PartRoll} {t : Test} (first : testOf parts = some t)
    (value : Int) : testOf (aimed value parts) = some { t with value } := by
  induction parts with
  | nil => cases first
  | cons p rest ih =>
    rw [aimed]
    cases htest : p.part.test with
    | some u =>
      obtain rfl : u = t := by simpa [testOf, htest] using first
      simp [testOf, withTest, htest]
    | none =>
      have hrest : testOf rest = some t := by simpa [testOf, htest] using first
      simpa [testOf, htest] using ih hrest

/-- Aiming a test at another value changes nothing but the test. -/
theorem map_untested_aimed (value : Int) (parts : List PartRoll) :
    (aimed value parts).map untested = parts.map untested := by
  induction parts with
  | nil => rfl
  | cons p rest ih =>
    rw [aimed]
    split
    · rfl
    · rw [List.map_cons, ih, List.map_cons]

theorem aimed_self {parts : List PartRoll} {t : Test} (first : testOf parts = some t) :
    aimed t.value parts = parts := by
  induction parts with
  | nil => rfl
  | cons p rest ih =>
    rw [aimed]
    cases htest : p.part.test with
    | some u =>
      obtain rfl : u = t := by simpa [testOf, htest] using first
      rw [Option.isSome_some, if_pos rfl, withTest, htest, Option.map_some, ← htest]
    | none =>
      have hrest : testOf rest = some t := by simpa [testOf, htest] using first
      simp [ih hrest]

end PartRoll

namespace Grade

theorem ofTest_eq_success_iff {t : Test} {total : Int} :
    ofTest (some t) total = .success ↔ t.passes total := by
  rw [ofTest]
  split
  · next h => exact iff_of_true rfl h
  · next h => exact iff_of_false (by decide) h

theorem ofTest_atMost_criticalSuccess (t : Test) (total : Int) :
    (ofTest (some t) total).AtMost .criticalSuccess := by
  rw [ofTest]
  split <;> decide

theorem criticalFailure_atMost_ofTest (t : Test) (total : Int) :
    criticalFailure.AtMost (ofTest (some t) total) := by
  rw [ofTest]
  split <;> decide

end Grade

namespace System

open PartRoll

/-- One natural value is no higher than another, a 1 if the other one is, and a 20 only with it. -/
structure NaturalAtMost (n n' : Nat) : Prop where
  le : n ≤ n'
  one : n' = 1 → n = 1
  twenty : n = 20 → n' = 20

theorem naturalAtMost_refl (n : Nat) : NaturalAtMost n n := ⟨Nat.le_refl n, id, id⟩

/-- Of two faces of a d20, the lower one is at most the higher one as a natural value. -/
theorem naturalAtMost_of_le {n n' : Nat} (low : 1 ≤ n) (le : n ≤ n') (high : n' ≤ 20) :
    NaturalAtMost n n' :=
  ⟨le, fun _ => by omega, fun _ => by omega⟩

section

variable {t t' : Test} {total total' : Int} {n n' : Nat}

/-- A grade that is the worst under one condition, the best under another and otherwise that of the
test is no worse where the first condition is no weaker, the second no stronger and the test
passed. -/
theorem overruled_mono {worst worst' best best' : Prop} [Decidable worst] [Decidable worst']
    [Decidable best] [Decidable best'] (lowers : worst' → worst) (raises : best → best')
    (passes : t.passes total → t'.passes total') :
    Grade.AtMost
      (if worst then .criticalFailure else if best then .criticalSuccess
        else .ofTest (some t) total)
      (if worst' then .criticalFailure else if best' then .criticalSuccess
        else .ofTest (some t') total') := by
  by_cases hworst : worst
  · rw [if_pos hworst]
    split
    · decide
    · split
      · decide
      · exact Grade.criticalFailure_atMost_ofTest t' total'
  · rw [if_neg hworst, if_neg fun h => hworst (lowers h)]
    by_cases hbest : best
    · rw [if_pos hbest, if_pos (raises hbest)]
      decide
    · rw [if_neg hbest]
      split
      · exact Grade.ofTest_atMost_criticalSuccess t total
      · exact Grade.ofTest_mono passes

theorem attackGrade_mono (natural : NaturalAtMost n n') (threshold : Nat)
    (passes : t.passes total → t'.passes total') :
    (attackGrade n threshold (.ofTest (some t) total)).AtMost
      (attackGrade n' threshold (.ofTest (some t') total')) := by
  rw [attackGrade, attackGrade]
  refine overruled_mono natural.one (fun ⟨hthreshold, hsuccess⟩ => ?_) passes
  exact ⟨hthreshold.trans natural.le,
    Grade.ofTest_eq_success_iff.mpr (passes (Grade.ofTest_eq_success_iff.mp hsuccess))⟩

theorem saveGrade_mono (natural : NaturalAtMost n n')
    (passes : t.passes total → t'.passes total') :
    (saveGrade n (.ofTest (some t) total)).AtMost (saveGrade n' (.ofTest (some t') total')) := by
  rw [saveGrade, saveGrade]
  exact overruled_mono natural.one natural.twenty passes

/-- The grade under d20 rules goes by the test, the natural value, the named threshold and whether a
part is a saving throw: it is no worse for a higher total or natural value where the rest is the
same. -/
theorem degree_mono (threshold : Nat) {parts parts' : List PartRoll}
    (first : testOf parts = some t) (first' : testOf parts' = some t')
    (target : t'.target = t.target) (passes : t.passes total → t'.passes total')
    (naturals : Option.Rel NaturalAtMost (naturalD20? parts) (naturalD20? parts'))
    (named : namedThreshold? parts' = namedThreshold? parts)
    (saves : (parts'.any fun p => p.part.save) = parts.any fun p => p.part.save) :
    (degree threshold parts total).AtMost (degree threshold parts' total') := by
  rw [degree, degree, first, first', named, saves]
  revert naturals
  generalize naturalD20? parts = natural
  generalize naturalD20? parts' = natural'
  intro naturals
  cases naturals with
  | none => exact Grade.ofTest_mono passes
  | some h =>
    dsimp only
    rw [target]
    split
    · exact attackGrade_mono h _ passes
    · split
      · exact saveGrade_mono h passes
      · exact Grade.ofTest_mono passes

/-- Rolled parts that differ in their tests at most are graded no worse if the first test is of the
same kind and is passed where the other one is. -/
theorem grade_mono (s : System) {parts parts' : List PartRoll}
    (alike : parts'.map untested = parts.map untested)
    (first : testOf parts = some t) (first' : testOf parts' = some t')
    (target : t'.target = t.target) (passes : t.passes total → t'.passes total') :
    (s.grade parts total).AtMost (s.grade parts' total') := by
  have same {α : Type} (f : List PartRoll → α) (h : ∀ parts, f (parts.map untested) = f parts) :
      f parts' = f parts := by rw [← h parts', alike, h]
  cases s with
  | generic =>
    rw [grade, grade, first, first']
    exact Grade.ofTest_mono passes
  | pathfinder threshold infers =>
    have hnatural := same naturalD20? fun parts => by
      rw [naturalD20?, List.find?_map, Option.bind_map]
      rfl
    have hnamed := same namedThreshold? fun parts => List.findSome?_map
    have hsaves := same (fun parts => parts.any fun p => p.part.save) fun parts => List.any_map
    refine degree_mono threshold first first' target passes ?_ hnamed hsaves
    rw [hnatural]
    cases naturalD20? parts with
    | none => exact .none
    | some n => exact .some (naturalAtMost_refl n)
  | vampire =>
    have hpool := same Pool.ofParts (Pool.ofParts_map_withTest fun _ => none)
    rw [grade, grade, first, first', hpool]
    exact Pool.grade_mono (Nat.le_refl _) id id passes

end

/-- A single added d20 with a higher face is graded no worse, whatever else its part says. -/
theorem degree_ofFaces_mono (threshold : Nat) {p : Part} {t : Test} (one : p.count = 1)
    (d20 : p.sides = 20) (added : p.sign = .plus) (tested : p.test = some t)
    (upward : t.IsUpward) {n n' : Nat} (low : 1 ≤ n) (le : n ≤ n') (high : n' ≤ 20) :
    (degree threshold [ofFaces p [n]] (joinedTotal [ofFaces p [n]])).AtMost
      (degree threshold [ofFaces p [n']] (joinedTotal [ofFaces p [n']])) := by
  have first (face : Nat) : testOf [ofFaces p [face]] = some t := by
    rw [testOf, List.findSome?_singleton, part_ofFaces, tested]
  have hnatural (face : Nat) : naturalD20? [ofFaces p [face]] = (ofFaces p [face]).natural? := by
    simp [naturalD20?, d20]
  have htotal (face : Nat) : joinedTotal [ofFaces p [face]] =
      Total.add 0 (Total.add (ofFaces p [face]).keptSum p.modifier) := by
    simp [joinedTotal, added, Sign.apply, PartRoll.total]
  have hsum : (ofFaces p [n]).keptSum ≤ (ofFaces p [n']).keptSum := by
    rw [keptSum, keptSum, keptFaces_ofFaces_singleton one, keptFaces_ofFaces_singleton one]
    cases p.keptCount with
    | zero => exact Nat.le_refl _
    | succ k => simpa using le
  refine degree_mono threshold (first n) (first n') rfl
    (upward.passes_mono (Int.le_refl _) ?_) ?_ rfl rfl
  · rw [htotal, htotal]
    have hvalue := Total.clamp_mono
      (Int.add_le_add_right (Int.ofNat_le.mpr hsum) p.modifier)
    exact Total.clamp_mono (Int.add_le_add_left hvalue 0)
  · rw [hnatural, hnatural, natural?, natural?, keptFaces_ofFaces_singleton one,
      keptFaces_ofFaces_singleton one]
    cases p.keptCount with
    | zero => exact .none
    | succ k =>
      rw [List.take_succ_cons, List.take_succ_cons, List.take_nil]
      exact .some (naturalAtMost_of_le low le high)

/-- A grade never falls when the target of the first test is lowered or the total raised while the
rolled parts stay as they are, if that test asks for high totals. Under d20 rules, a single added
d20 with such a test is graded no worse when a higher face is rolled. -/
theorem grade_monotone :
    (∀ (s : System) {parts : List PartRoll} {t : Test}, testOf parts = some t → t.IsUpward →
      ∀ {value total total' : Int}, value ≤ t.value → total ≤ total' →
        (s.grade parts total).AtMost (s.grade (aimed value parts) total')) ∧
    ∀ (threshold : Nat) (infers : Bool) {d : Dice} {p : Part} {t : Test}, d.parts = [p] →
      p.count = 1 → p.sides = 20 → p.sign = .plus → p.test = some t → t.IsUpward →
      let rolled (face : Nat) :=
        (Roll.ofDice (.pathfinder threshold infers) d (⟨[face], 0⟩ : Script)).1
      ∀ {face face' : Nat}, face ≤ face' → (rolled face).grade.AtMost (rolled face').grade := by
  constructor
  · intro s parts t first upward value total total' lower higher
    exact s.grade_mono (map_untested_aimed value parts) first (testOf_aimed first value) rfl
      (upward.passes_mono lower higher)
  · intro threshold infers d p t parts one d20 added tested upward rolled face face' le
    have hgrade (face : Nat) : (rolled face).grade =
        degree threshold [(roll p (⟨[face], 0⟩ : Script)).1]
          (joinedTotal [(roll p (⟨[face], 0⟩ : Script)).1]) := by
      change (Roll.ofDice _ d _).1.grade = _
      rw [Roll.ofDice, parts]
      rfl
    rw [hgrade, hgrade]
    cases hfixed : p.fixed with
    | some faces =>
      have hsame (face : Nat) : (roll p (⟨[face], 0⟩ : Script)).1 = ofFaces p faces := by
        rw [roll, hfixed]
      have first : testOf [ofFaces p faces] = some t := by
        rw [testOf, List.findSome?_singleton, part_ofFaces, tested]
      rw [hsame, hsame]
      exact grade_mono (.pathfinder threshold infers) rfl first first rfl id
    | none =>
      have hshown (face : Nat) : (roll p (⟨[face], 0⟩ : Script)).1 =
          ofFaces p [max 1 (min 20 face)] := by
        rw [roll, hfixed]
        simp [one, d20, Script.many_eq, Script.shown, Script.faceAt]
      rw [hshown, hshown]
      exact degree_ofFaces_mono threshold one d20 added tested upward (by omega) (by omega)
        (by omega)

/-- A miss with a 19 becomes a critical hit with a higher total or a lower armor class, and a 1 that
misses critically becomes a critical hit with a 20. -/
theorem grade_monotone_critical_hit :
    let t : Test := ⟨.ac, .ge, 25, false⟩
    let p : Part := { count := 1, sides := 20, modifier := 5, test := t, critThreshold := some 19 }
    let parts := [ofFaces p [19], ofFaces (.flat .minus 2) []]
    let graded := grade (.pathfinder 20 true)
    let rolled (face : Nat) :=
      (Roll.ofDice (.pathfinder 20 true) ⟨[p]⟩ (⟨[face], 0⟩ : Script)).1
    (testOf parts = some t ∧ t.IsUpward) ∧
      (graded parts 22 = .failure ∧ graded parts 25 = .criticalSuccess ∧
        (graded parts 22).AtMost (graded parts 25)) ∧
      (graded (aimed 22 parts) 22 = .criticalSuccess ∧
        (graded parts 22).AtMost (graded (aimed 22 parts) 22)) ∧
      (rolled 1).grade = .criticalFailure ∧ (rolled 20).grade = .criticalSuccess ∧
        (rolled 1).grade.AtMost (rolled 20).grade := by
  intro t p parts graded rolled
  have first : testOf parts = some t := rfl
  have upward : t.IsUpward := .inl rfl
  refine ⟨⟨first, upward⟩, ⟨by decide, by decide, ?_⟩, ⟨by decide, ?_⟩, by decide, by decide, ?_⟩
  · have hhigher : (graded parts 22).AtMost (graded (aimed t.value parts) 25) :=
      grade_monotone.1 (.pathfinder 20 true) first upward (Int.le_refl _) (by decide)
    rwa [aimed_self first] at hhigher
  · exact grade_monotone.1 (.pathfinder 20 true) first upward (by decide) (Int.le_refl _)
  · exact grade_monotone.2 20 true rfl rfl rfl rfl rfl upward (by decide)

end System

end Tabletop
