import Mathlib
import Tabletop.Engine
import Tabletop.Proofs.Group.CriticalDamage
import Tabletop.Proofs.Roll.Fixed

/-!
# Graded attacks

An attack rolls a d20 against an armor class, and the natural value of a d20 can make it a critical
success or failure. The roll is an attack by the first part that has dice with 20 sides; it is
graded by the first part that has 20 sides, be it with zero dice. That is the same part unless zero
dice of 20 sides stand before the d20: they show no natural value, and the attack is then graded as
if it had none.
-/

namespace Tabletop

namespace PartRoll

/-- A part without dice shows no face. -/
def Bare (p : PartRoll) : Prop := p.part.count = 0 → p.dice = []

theorem bare_ofFaces {part : Part} {faces : List Nat} (h : part.count = 0 → faces = []) :
    (ofFaces part faces).Bare := fun hcount => by simp [ofFaces, h hcount]

theorem Bare.natural?_eq_none {p : PartRoll} (h : p.Bare) (sides : p.part.sides = 20)
    (dice : p.part.hasDice = false) : p.natural? = none := by
  have hcount : p.part.count = 0 := by simpa [Part.hasDice, sides] using dice
  simp [natural?, keptFaces, h hcount]

theorem Bare.doubled {p : PartRoll} (h : p.Bare) : p.doubled.Bare := by
  refine bare_ofFaces fun hcount => ?_
  have hzero : p.part.count = 0 := by
    simp only [maxCount] at hcount
    omega
  simp [faces, h hzero]

/-- A lawful roller gives no face where no die is asked for. -/
theorem bare_roll {ρ : Type} [Roller ρ] {sound : ρ → Prop} (lawful : Roller.Lawful sound) {p : Part}
    (fixed : p.count = 0 → p.Fits) {r : ρ} (h : sound r) : (roll p r).1.Bare := by
  rw [roll]
  cases hfixed : p.fixed with
  | some faces =>
    refine bare_ofFaces fun hcount => List.length_eq_zero_iff.mp ?_
    rw [(fixed hcount faces hfixed).1, hcount]
  | none =>
    dsimp only
    split
    · exact bare_ofFaces fun _ => rfl
    · refine bare_ofFaces fun hcount => List.length_eq_zero_iff.mp ?_
      rw [lawful.length h, hcount]

end PartRoll

namespace Dice

/-- Only the d20 of a test, which is one die, can have unfit fixed faces. -/
theorem IsDefined.fits_of_count {parts : List Part} {d : Dice} (h : IsDefined parts d) :
    ∀ p ∈ d.parts, p.count = 0 → p.Fits := by
  obtain ⟨given, rfl, hfits, -⟩ := h.exists_normalized
  exact forall_mem_normalized (fun p hp _ => hfits p hp) fun p _ hcount => by simp [onD20] at hcount

end Dice

namespace Roll

open PartRoll

/-- An expression that was asked for and rolled by a lawful roller, however often it was raised
afterwards. -/
inductive IsRolled (system : System) : Roll → Prop
  | ofDice {parts : List Part} {d : Dice} (defined : Dice.IsDefined parts d) {ρ : Type} [Roller ρ]
    {sound : ρ → Prop} (lawful : Roller.Lawful sound) {r : ρ} (h : sound r) :
    IsRolled system (Roll.ofDice system d r).1
  | raised {r : Roll} (h : IsRolled system r) (method : CritMethod) :
    IsRolled system (r.raised system method)

theorem IsRolled.bare {system : System} {r : Roll} (h : r.IsRolled system) :
    ∀ p ∈ r.parts, p.Bare := by
  induction h with
  | ofDice defined lawful h =>
    exact Roller.forall_mem_each_of (fun p _ _ hr => sound_roll lawful p hr)
      (fun p hp r hr => bare_roll lawful (defined.fits_of_count p hp) hr) h
  | raised h method ih =>
    cases method with
    | timesTwo | addMax =>
      exact List.forall_mem_append.mpr
        ⟨ih, List.forall_mem_singleton.mpr (bare_ofFaces fun _ => rfl)⟩
    | rollTwice => exact List.forall_mem_map.mpr fun p hp => (ih p hp).doubled

theorem IsRolled.grade_eq {system : System} {r : Roll} (h : r.IsRolled system) :
    r.grade = system.grade r.parts r.total := by
  cases h <;> rfl

/-- The first part with 20 sides, with or without dice. -/
def firstD20? (r : Roll) : Option PartRoll := r.parts.find? fun p => p.part.sides == 20

/-- How an attack is graded by the natural value of a d20, if it has one: a natural 1 is a critical
failure, a natural value from the limit on that passes the test a critical success, and otherwise
only the test counts. -/
def gradeByNatural (test : Test) (limit : Nat) (natural : Option Nat) (total : Int) : Grade :=
  match natural with
  | none => .ofTest (some test) total
  | some n =>
    if n = 1 then .criticalFailure
    else if limit ≤ n ∧ test.passes total then .criticalSuccess
    else .ofTest (some test) total

/-- A natural value makes no difference exactly if it is neither a 1 nor a hit from the limit on. -/
theorem gradeByNatural_eq_iff (test : Test) (limit : Nat) (natural : Option Nat) (total : Int) :
    Grade.ofTest (some test) total = gradeByNatural test limit natural total ↔
      ∀ n ∈ natural, n ≠ 1 ∧ ¬(limit ≤ n ∧ test.passes total) := by
  have hplain : Grade.ofTest (some test) total ≠ .criticalFailure ∧
      Grade.ofTest (some test) total ≠ .criticalSuccess := by
    rw [Grade.ofTest]
    split <;> simp
  cases natural with
  | none => simp [gradeByNatural]
  | some n =>
    rw [gradeByNatural]
    split
    · next hone => exact iff_of_false hplain.1 (by simp [hone])
    · next hone =>
      split
      · next hhit => exact iff_of_false hplain.2 (by simp [hhit])
      · next hhit =>
        refine iff_of_true rfl fun m hm => ?_
        obtain rfl := Option.some.inj hm
        exact ⟨hone, hhit⟩

theorem degree_eq_gradeByNatural (threshold : Nat) {r : Roll} {test : Test}
    (tested : r.test? = some test) (target : test.target.isArmorClass = true) :
    System.degree threshold r.parts r.total =
      gradeByNatural test ((System.namedThreshold? r.parts).getD threshold)
        (r.firstD20?.bind PartRoll.natural?) r.total := by
  have htest : PartRoll.testOf r.parts = some test := tested
  have hnatural : System.naturalD20? r.parts = r.firstD20?.bind PartRoll.natural? := rfl
  rw [System.degree, htest, hnatural]
  cases r.firstD20?.bind PartRoll.natural? with
  | none => rfl
  | some n =>
    dsimp only
    rw [if_pos target, gradeByNatural, System.attackGrade, Grade.ofTest]
    cases test.passes r.total <;> simp

/-- The d20 that makes a roll an attack is the first part with 20 sides if that one has dice. -/
theorem firstD20?_eq_d20?_or {r : Roll} {d20 : PartRoll} (h : r.d20? = some d20) :
    r.firstD20? = some d20 ∨
      ∃ p, r.firstD20? = some p ∧ p ∈ r.parts ∧ p.part.sides = 20 ∧ p.part.hasDice = false := by
  have hboth := List.find?_some h
  cases hfirst : r.firstD20? with
  | none =>
    have hnone := List.find?_eq_none.mp hfirst d20 (List.mem_of_find?_eq_some h)
    simp_all
  | some p =>
    have hsides : p.part.sides = 20 := by simpa using List.find?_some hfirst
    cases hdice : p.part.hasDice with
    | false => exact .inr ⟨p, rfl, List.mem_of_find?_eq_some hfirst, hsides, hdice⟩
    | true =>
      obtain ⟨-, before, after, hparts, hbefore⟩ := List.find?_eq_some_iff_append.mp hfirst
      have hsame : r.d20? = some p := by
        refine List.find?_eq_some_iff_append.mpr
          ⟨by simp [hsides, hdice], before, after, hparts, ?_⟩
        intro q hq
        have hq := hbefore q hq
        simp_all
      exact .inl (by rw [← hsame, h])

/-- Under d20 rules an attack is graded by the natural value of the d20 that makes it an attack if
that one is the first part with 20 sides. Otherwise only the test counts, and that comes to the same
exactly if the natural value of the d20 is neither a 1 nor a hit from the limit on. -/
theorem grade_of_isAttack {threshold : Nat} {infers : Bool} {r : Roll}
    (rolled : r.IsRolled (.pathfinder threshold infers)) (attack : r.isAttack = true) :
    ∃ test d20, r.test? = some test ∧ test.target.isArmorClass ∧ r.d20? = some d20 ∧
      let limit := (System.namedThreshold? r.parts).getD threshold
      (r.grade = gradeByNatural test limit d20.natural? r.total ↔
        r.firstD20? = some d20 ∨
          ∀ n ∈ d20.natural?, n ≠ 1 ∧ ¬(limit ≤ n ∧ test.passes r.total)) ∧
      (r.firstD20? ≠ some d20 → r.grade = .ofTest (some test) r.total) := by
  obtain ⟨hd20, htest⟩ := Bool.and_eq_true_iff.mp attack
  obtain ⟨d20, hd20⟩ := Option.isSome_iff_exists.mp hd20
  obtain ⟨test, htest, target⟩ := (Option.any_eq_true _ _).mp htest
  have hgrade : r.grade = _ :=
    rolled.grade_eq.trans (degree_eq_gradeByNatural threshold htest target)
  refine ⟨test, d20, htest, target, hd20, ?_⟩
  rcases firstD20?_eq_d20?_or hd20 with hsame | ⟨p, hfirst, hmem, hsides, hdice⟩
  · rw [hgrade, hsame]
    exact ⟨iff_of_true rfl (.inl rfl), fun hne => absurd rfl hne⟩
  · have hother : r.firstD20? ≠ some d20 := by
      rw [hfirst]
      rintro ⟨⟩
      have hboth := List.find?_some hd20
      simp [hdice] at hboth
    have hnone := (rolled.bare p hmem).natural?_eq_none hsides hdice
    have hplain : r.grade = .ofTest (some test) r.total := by
      rw [hgrade, hfirst, Option.bind_some, hnone]
      rfl
    refine ⟨?_, fun _ => hplain⟩
    rw [hplain, gradeByNatural_eq_iff, or_iff_right hother]

/-- The better of two d20s behind other dice, with a limit that the roll names. -/
theorem grade_of_isAttack_advantage :
    let recipes : List (List Part.Step) := [[.dice 1 4],
      [.dice 2 20, .dropKeep ⟨.keep, .highest, 1⟩, .modifier 5, .critThreshold 18,
        .test ⟨.kac, .ge, 15, false⟩]]
    let d : Dice := ⟨recipes.map Part.build⟩
    let roll := (Roll.ofDice (.pathfinder 20 true) d (⟨[3, 7, 18], 0⟩ : Script)).1
    (roll.IsRolled (.pathfinder 20 true) ∧ roll.isAttack = true) ∧
      (roll.d20?.bind PartRoll.natural? = some 18 ∧ roll.firstD20? = roll.d20?) ∧
      roll.grade = .criticalSuccess := by
  intro recipes d roll
  have accepted : Dice.ofParts (recipes.map Part.build) = .ok d := rfl
  have rolled : roll.IsRolled (.pathfinder 20 true) :=
    .ofDice (.ofParts accepted) Script.lawful trivial
  have attack : roll.isAttack = true := by cbv
  have hfirst : roll.firstD20? = roll.d20? := by cbv
  have hnatural : roll.d20?.bind PartRoll.natural? = some 18 := by cbv
  have htest : roll.test? = some ⟨.kac, .ge, 15, false⟩ := by cbv
  have hgraded : gradeByNatural ⟨.kac, .ge, 15, false⟩
      ((System.namedThreshold? roll.parts).getD 20) (some 18) roll.total = .criticalSuccess := by
    cbv
  obtain ⟨test, d20, htested, -, hd20, hiff, -⟩ := grade_of_isAttack rolled attack
  obtain rfl := Option.some.inj (htested.symm.trans htest)
  have hvalue : d20.natural? = some 18 := by rwa [hd20, Option.bind_some] at hnatural
  refine ⟨⟨rolled, attack⟩, ⟨hnatural, hfirst⟩, ?_⟩
  rw [hiff.mpr (.inl (hfirst.trans hd20)), hvalue, hgraded]

/-- Behind zero dice of 20 sides, the natural 1 of a d20 is no critical failure. -/
theorem grade_of_isAttack_behind_none :
    let e := Engine.ofSettings (.forSystem .pathfinder)
    let rolled := (GroupRoll.pending e.system (e.parse "0d20+1d20 ac 1".toList)
      (⟨[1], 0⟩ : Script)).1
    ∃ roll, rolled.rolls = [roll] ∧ roll.isAttack = true ∧
      roll.d20?.bind PartRoll.natural? = some 1 ∧ roll.grade = .success := by
  intro e rolled
  let d : Dice := ⟨[{ count := 0, sides := 20 },
    { count := 1, sides := 20, test := some ⟨.ac, .ge, 1, false⟩ }]⟩
  have hdice : (e.parse "0d20+1d20 ac 1".toList).dice = [d] := by decide +kernel
  exact ⟨_, GroupRoll.rolls_pending_singleton hdice e.system _, by decide⟩

end Roll

end Tabletop
