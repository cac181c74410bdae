import Tabletop.Proofs.Group.CriticalDamage

/-!
# Hidden values and rolls

The value of a hidden test is veiled: every hidden value is replaced by the same one. Two
expressions that look alike behind the veil differ in hidden values at most. A roll uses the value
of its test for the grade alone, so two such expressions are rolled alike in all but their grades.
Damage has no test, so rolls of damage that look alike are the same roll.
-/

namespace Tabletop

namespace Test

/-- The test without its value if that is hidden. -/
def veiled (t : Test) : Test := if t.hidden then { t with value := 0 } else t

@[simp] theorem target_veiled (t : Test) : t.veiled.target = t.target := by
  rw [veiled]
  split <;> rfl

@[simp] theorem text_veiled (t : Test) : t.veiled.text = t.text := by
  rw [veiled]
  split
  · next h => exact (text_of_hidden h rfl).symm
  · rfl

end Test

def Part.veiled (p : Part) : Part := { p with test := p.test.map Test.veiled }

def Dice.veiled (d : Dice) : Dice := ⟨d.parts.map Part.veiled⟩

def PartRoll.veiled (p : PartRoll) : PartRoll := { p with part := p.part.veiled }

def Roll.veiled (r : Roll) : Roll := { r with parts := r.parts.map PartRoll.veiled }

namespace Part

/-- Without a test there is nothing to veil. -/
theorem veiled_of_test_eq_none {p : Part} (h : p.test = none) : p.veiled = p := by
  rw [veiled, h, Option.map_none, ← h]

theorem testOf_map_veiled (parts : List Part) :
    testOf (parts.map veiled) = (testOf parts).map Test.veiled := by
  induction parts with
  | nil => rfl
  | cons p rest ih =>
    rw [testOf] at ih
    cases h : p.test with
    | none => simp [testOf, veiled, h, ih]
    | some t => simp [testOf, veiled, h]

theorem termsText_map_veiled (parts : List Part) :
    termsText (parts.map veiled) = termsText parts := by
  cases parts with
  | nil => rfl
  | cons p rest =>
    rw [List.map_cons, termsText, List.flatMap_map]
    rfl

/-- The written form of an expression does not show a hidden value. -/
theorem expressionText_map_veiled (parts : List Part) :
    expressionText (parts.map veiled) = expressionText parts := by
  have hfilter : (parts.map veiled).filter isWritten = (parts.filter isWritten).map veiled :=
    List.filter_map
  have hany : (parts.map veiled).any isWritten = parts.any isWritten := List.any_map
  rw [expressionText, expressionText, hfilter, termsText_map_veiled, testOf_map_veiled, hany]
  cases testOf parts <;> simp

theorem joinedDescription_map_veiled (parts : List Part) :
    joinedDescription (parts.map veiled) = joinedDescription parts := by
  rw [joinedDescription, List.map_map]
  rfl

end Part

namespace PartRoll

theorem definitions_map_veiled (parts : List PartRoll) :
    (parts.map veiled).map PartRoll.part = (parts.map PartRoll.part).map Part.veiled := by
  rw [List.map_map, List.map_map]
  rfl

theorem joinedTotal_map_veiled (parts : List PartRoll) :
    joinedTotal (parts.map veiled) = joinedTotal parts := List.foldl_map

variable {ρ : Type} [Roller ρ]

/-- The value of a test has no part in what is rolled. -/
theorem each_roll_veiled (parts : List Part) (r : ρ) :
    Roller.each roll (parts.map Part.veiled) r =
      ((Roller.each roll parts r).1.map veiled, (Roller.each roll parts r).2) :=
  each_roll_map (f := Part.veiled) (fun _ => rfl) (fun _ => rfl) (fun _ => rfl) (fun _ => rfl)
    parts r

end PartRoll

def PartRoll.withTest (f : Option Test → Option Test) (p : PartRoll) : PartRoll :=
  { p with part := { p.part with test := f p.part.test } }

/-- A pool is made of the dice and the modifiers alone. -/
theorem Pool.ofParts_map_withTest (f : Option Test → Option Test) (parts : List PartRoll) :
    ofParts (parts.map (PartRoll.withTest f)) = ofParts parts := by
  have hdice : keptDice (parts.map (PartRoll.withTest f)) = keptDice parts := by
    rw [keptDice, List.filter_map, List.flatMap_map]
    rfl
  have hhunger : hungerCount (parts.map (PartRoll.withTest f)) = hungerCount parts := by
    rw [hungerCount, List.filterMap_map]
    rfl
  have hflat : flatTotal (parts.map (PartRoll.withTest f)) = flatTotal parts := List.foldl_map
  rw [ofParts, ofParts, hdice, hhunger, hflat]

theorem Pool.ofParts_map_veiled (parts : List PartRoll) :
    ofParts (parts.map PartRoll.veiled) = ofParts parts :=
  ofParts_map_withTest (Option.map Test.veiled) parts

namespace System

theorem total_map_veiled (s : System) (parts : List PartRoll) :
    s.total (parts.map PartRoll.veiled) = s.total parts := by
  cases s with
  | vampire => exact congrArg Pool.total (Pool.ofParts_map_veiled parts)
  | generic | pathfinder => exact PartRoll.joinedTotal_map_veiled parts

/-- Without a test there is no grade. -/
theorem grade_of_testOf_eq_none (s : System) {parts : List PartRoll}
    (h : PartRoll.testOf parts = none) (total : Int) : s.grade parts total = .unknown := by
  cases s <;> simp [grade, degree, Pool.grade, h]

end System

namespace Roll

theorem definitions_veiled (r : Roll) : r.veiled.definitions = r.definitions.map Part.veiled :=
  PartRoll.definitions_map_veiled r.parts

/-- An attack and damage are known by the target of the test, not by its value. -/
theorem kind_veiled (r : Roll) : r.veiled.kind = r.kind := by
  have hd20 : rollsD20 (r.definitions.map Part.veiled) = rollsD20 r.definitions := List.any_map
  have hdice : (r.definitions.map Part.veiled).any Part.hasDice = r.definitions.any Part.hasDice :=
    List.any_map
  rw [kind, kind, isAttack_eq, isAttack_eq, isDamage_eq, isDamage_eq, definitions_veiled, hd20,
    hdice, Part.testOf_map_veiled]
  cases Part.testOf r.definitions <;> simp

theorem test?_of_isDamage {r : Roll} (h : r.isDamage = true) : r.test? = none := by
  rw [isDamage] at h
  simp_all

/-- Damage has nothing to veil. -/
theorem veiled_of_isDamage {r : Roll} (h : r.isDamage = true) : r.veiled = r := by
  have htests : ∀ p ∈ r.parts, p.part.test = none :=
    List.findSome?_eq_none_iff.mp (test?_of_isDamage h)
  have hparts : r.parts.map PartRoll.veiled = r.parts :=
    (List.map_congr_left fun p hp => by
      rw [PartRoll.veiled, Part.veiled_of_test_eq_none (htests p hp)]).trans (List.map_id' _)
  rw [veiled, hparts]

/-- Rolls of damage that look alike behind the veil are the same. -/
theorem eq_of_isDamage {r r' : Roll} (alike : r.veiled = r'.veiled) (h : r.isDamage = true) :
    r = r' := by
  have hkind : r'.kind = r.kind := by rw [← kind_veiled r', ← alike, kind_veiled]
  have h' : r'.isDamage = true := (Prod.mk.inj hkind).2.trans h
  rwa [veiled_of_isDamage h, veiled_of_isDamage h'] at alike

variable {ρ : Type} [Roller ρ]

/-- Expressions that look alike behind the veil are rolled alike, and so are their rolls as far as
they are graded alike. -/
theorem ofDice_of_veiled_eq (system : System) {d d' : Dice} (alike : d.veiled = d'.veiled) (r : ρ) :
    (ofDice system d r).2 = (ofDice system d' r).2 ∧
      ((ofDice system d r).1.grade = (ofDice system d' r).1.grade →
        (ofDice system d r).1.veiled = (ofDice system d' r).1.veiled) := by
  have hdefined : d.parts.map Part.veiled = d'.parts.map Part.veiled := congrArg Dice.parts alike
  have hrolled := PartRoll.each_roll_veiled d.parts r
  rw [hdefined, PartRoll.each_roll_veiled] at hrolled
  obtain ⟨hparts, hstate⟩ := Prod.mk.inj hrolled.symm
  refine ⟨hstate, fun hgrade => ?_⟩
  have htotal : (ofDice system d r).1.total = (ofDice system d' r).1.total := by
    have h := congrArg system.total hparts
    rwa [System.total_map_veiled, System.total_map_veiled] at h
  rw [veiled, veiled, Roll.mk.injEq]
  exact ⟨hparts, htotal, hgrade, rfl⟩

/-- Raising leaves damage ungraded. -/
theorem grade_raised_of_isDamage (system : System) (method : CritMethod) {r : Roll}
    (h : r.isDamage = true) : (r.raised system method).grade = .unknown := by
  have hdamage : (r.raised system method).isDamage = true :=
    (Prod.mk.inj (kind_raised system method r)).2.trans h
  exact System.grade_of_testOf_eq_none _ (test?_of_isDamage hdamage) _

theorem grade_ofDice_of_isDamage {system : System} {d : Dice} {r : ρ}
    (h : (ofDice system d r).1.isDamage = true) : (ofDice system d r).1.grade = .unknown :=
  System.grade_of_testOf_eq_none _ (test?_of_isDamage h) _

end Roll

end Tabletop
