import Tabletop.Proofs.Roll.Veiled
import Tabletop.Report
import Tabletop.Roller.Script

/-!
# What a hidden value gives away

A report does not depend on hidden values, nor do the totals of a rolled group, its attacks with
their damage, and what was raised. So groups that look alike behind the veil and are rolled with
equal grades are rolled, raised and shown alike: of a hidden value, nothing shows but the grade.
-/

namespace Tabletop

def Group.veiled (g : Group) : Group := { g with dice := g.dice.map Dice.veiled }

def GroupRoll.veiled (g : GroupRoll) : GroupRoll := { g with rolls := g.rolls.map Roll.veiled }

namespace Report

theorem plainBreakdownAt_veiled (verbosity : Verbosity) (r : Roll) :
    plainBreakdownAt verbosity r.veiled = plainBreakdownAt verbosity r := by
  have hterms (verbosity : Verbosity) (parts : List PartRoll) :
      terms verbosity (parts.map PartRoll.veiled) = terms verbosity parts := by
    cases parts with
    | nil => rfl
    | cons p rest =>
      rw [List.map_cons, terms, List.flatMap_map]
      rfl
  rw [plainBreakdownAt, Roll.veiled, List.filter_map, hterms]
  rfl

theorem plainDetails_veiled (verbosity : Verbosity) (r : Roll) :
    plainDetails verbosity r.veiled = plainDetails verbosity r := by
  rw [plainDetails, Roll.veiled, List.filter_map, List.map_map]
  rfl

theorem breakdownAt_veiled (s : System) (verbosity : Verbosity) (r : Roll) :
    breakdownAt s verbosity r.veiled = breakdownAt s verbosity r := by
  cases s with
  | vampire => exact congrArg poolBreakdown (Pool.ofParts_map_veiled r.parts)
  | generic | pathfinder => exact plainBreakdownAt_veiled verbosity r

theorem details_veiled (s : System) (verbosity : Verbosity) (r : Roll) :
    details s verbosity r.veiled = details s verbosity r := by
  cases s with
  | vampire => exact congrArg (poolDetails verbosity) (Pool.ofParts_map_veiled r.parts)
  | generic | pathfinder => exact plainDetails_veiled verbosity r

/-- The report on a roll does not show a hidden value. -/
theorem roll_veiled (s : System) (verbosity : Verbosity) (r : Roll) :
    roll s verbosity r.veiled = roll s verbosity r := by
  have hdescription : r.veiled.description = r.description := by
    rw [Roll.description, Roll.definitions_veiled, Part.joinedDescription_map_veiled]
    rfl
  have hexpression : r.veiled.expressionText = r.expressionText := by
    rw [Roll.expressionText, Roll.definitions_veiled, Part.expressionText_map_veiled]
    rfl
  have hgrade : r.veiled.grade = r.grade := rfl
  have htotal : r.veiled.total = r.total := rfl
  simp only [roll, briefRoll, outcome, descriptionPiece, expressionPiece, breakdownPiece,
    detailsPiece, hdescription, hexpression, hgrade, htotal, breakdownAt_veiled, details_veiled]

theorem member?_veiled (s : System) (verbosity : Verbosity) (attack : Option Grade) (r : Roll) :
    member? s verbosity attack r.veiled = member? s verbosity attack r := by
  simp only [member?, roll_veiled]

end Report

namespace GroupRoll

theorem pairs_veiled (g : GroupRoll) : g.veiled.pairs = g.pairs := by
  refine pairsFrom_congr ?_ 0
  rw [veiled, List.map_map]
  exact List.map_congr_left fun r _ => r.kind_veiled

theorem gradeAt_veiled (g : GroupRoll) (place : Nat) :
    g.veiled.gradeAt place = g.gradeAt place := by
  rw [gradeAt, veiled, List.getElem?_map, Option.map_map]
  rfl

theorem isCriticalDamage_veiled (g : GroupRoll) (place : Nat) :
    g.veiled.isCriticalDamage place = g.isCriticalDamage place := by
  rw [Bool.eq_iff_iff, ← mem_criticalPlaces, ← mem_criticalPlaces, criticalPlaces, criticalPlaces,
    pairs_veiled]
  simp only [gradeAt_veiled]

end GroupRoll

/-- The report on a rolled group does not show hidden values. -/
theorem Report.group_veiled (s : System) (verbosity : Verbosity) (g : GroupRoll) :
    group s verbosity g.veiled = group s verbosity g := by
  have hmember (place : Nat) (r : Roll) :
      member? s verbosity (attackGrade? g.veiled g.veiled.pairs place) r.veiled =
        member? s verbosity (attackGrade? g g.pairs place) r := by
    simp only [member?_veiled, attackGrade?, GroupRoll.pairs_veiled, GroupRoll.gradeAt_veiled]
  have hmembers : members s verbosity g.veiled = members s verbosity g := by
    refine congrArg (List.filterMap id) (List.mapIdx_eq_iff.mpr fun place => ?_)
    have hplace : g.veiled.rolls[place]? = g.rolls[place]?.map Roll.veiled := List.getElem?_map ..
    rw [List.getElem?_mapIdx, hplace, Option.map_map]
    exact Option.map_congr fun r _ => (hmember place r).symm
  rw [group, hmembers, group]

namespace GroupRoll

/-- A roll that is raised is damage. -/
theorem isDamage_of_isCriticalDamage {g : GroupRoll} {place : Nat} {r : Roll}
    (h : g.isCriticalDamage place = true) (hr : g.rolls[place]? = some r) : r.isDamage = true := by
  cases place with
  | zero => simp [isCriticalDamage] at h
  | succ i =>
    rw [isCriticalDamage, hr] at h
    exact (Bool.and_eq_true_iff.mp h).2

/-- Groups that are rolled alike are raised alike. -/
theorem veiled_finished (system : System) {g g' : GroupRoll} (alike : g.veiled = g'.veiled) :
    (g.finished system).veiled = (g'.finished system).veiled := by
  have hmethods : g.critMethod = g'.critMethod :=
    show g.veiled.critMethod = g'.veiled.critMethod by rw [alike]
  have hverbosity : g.verbosity = g'.verbosity :=
    show g.veiled.verbosity = g'.veiled.verbosity by rw [alike]
  cases hmethod : system.critMethod? g.critMethod with
  | none =>
    have hmethod' : system.critMethod? g'.critMethod = none := hmethods ▸ hmethod
    simp only [finished, hmethod, hmethod']
    exact alike
  | some method =>
    have hmethod' : system.critMethod? g'.critMethod = some method := hmethods ▸ hmethod
    have hrolls : (g.finished system).rolls.map Roll.veiled =
        (g'.finished system).rolls.map Roll.veiled := by
      refine List.ext_getElem? fun place => ?_
      have hplace : g.rolls[place]?.map Roll.veiled = g'.rolls[place]?.map Roll.veiled := by
        rw [← List.getElem?_map, ← List.getElem?_map]
        exact congrArg (·.rolls[place]?) alike
      have hcritical : g'.isCriticalDamage place = g.isCriticalDamage place := by
        rw [← isCriticalDamage_veiled g', ← alike, isCriticalDamage_veiled]
      rw [List.getElem?_map, List.getElem?_map, getElem?_rolls_finished hmethod,
        getElem?_rolls_finished hmethod', hcritical]
      cases hr : g.rolls[place]? with
      | none =>
        rw [hr, Option.map_none, eq_comm, Option.map_eq_none_iff] at hplace
        rw [hplace]
      | some r =>
        rw [hr, Option.map_some, eq_comm, Option.map_eq_some_iff] at hplace
        obtain ⟨r', hr', hveiled⟩ := hplace
        rw [hr', Option.map_some, Option.map_some, Option.map_some, Option.map_some]
        split
        -- what is raised is damage, of which nothing is veiled
        · next hraised =>
          rw [Roll.eq_of_isDamage hveiled.symm (isDamage_of_isCriticalDamage hraised hr)]
        · rw [hveiled]
    rw [veiled, veiled, GroupRoll.mk.injEq]
    refine ⟨hrolls, ?_, ?_⟩
    · simpa only [finished, hmethod, hmethod'] using hverbosity
    · simpa only [finished, hmethod, hmethod'] using hmethods

variable {ρ : Type} [Roller ρ]

/-- Raising changes no grade. -/
theorem grades_finished (system : System) (g : Group) (r : ρ) :
    ((pending system g r).1.finished system).rolls.map Roll.grade =
      (pending system g r).1.rolls.map Roll.grade := by
  cases hmethod : system.critMethod? (pending system g r).1.critMethod with
  | none => simp only [finished, hmethod]
  | some method =>
    refine List.ext_getElem? fun place => ?_
    rw [List.getElem?_map, List.getElem?_map, getElem?_rolls_finished hmethod, Option.map_map]
    refine Option.map_congr fun before hbefore => ?_
    rw [Function.comp_apply]
    split
    · next hraised =>
      have hdamage := isDamage_of_isCriticalDamage hraised hbefore
      obtain ⟨d, -, r', rfl⟩ := Roller.exists_of_mem_each (List.mem_of_getElem? hbefore)
      rw [Roll.grade_raised_of_isDamage system method hdamage,
        Roll.grade_ofDice_of_isDamage hdamage]
    · rfl

/-- Members that look alike behind the veil are rolled alike as far as they are graded alike. -/
theorem map_veiled_each_ofDice (system : System) {dice dice' : List Dice}
    (alike : dice.map Dice.veiled = dice'.map Dice.veiled) (r : ρ) :
    (Roller.each (Roll.ofDice system) dice r).2 = (Roller.each (Roll.ofDice system) dice' r).2 ∧
      ((Roller.each (Roll.ofDice system) dice r).1.map Roll.grade =
          (Roller.each (Roll.ofDice system) dice' r).1.map Roll.grade →
        (Roller.each (Roll.ofDice system) dice r).1.map Roll.veiled =
          (Roller.each (Roll.ofDice system) dice' r).1.map Roll.veiled) := by
  induction dice generalizing dice' r with
  | nil =>
    obtain rfl : [] = dice' := by simpa using alike
    exact ⟨rfl, fun _ => rfl⟩
  | cons d rest ih =>
    cases dice' with
    | nil => simp at alike
    | cons d' rest' =>
      obtain ⟨hd, hrest⟩ := List.cons.inj alike
      obtain ⟨hstate, hroll⟩ := Roll.ofDice_of_veiled_eq system hd r
      obtain ⟨hstates, hrolls⟩ := ih hrest (Roll.ofDice system d r).2
      have hcons (d : Dice) (rest : List Dice) :
          (Roller.each (Roll.ofDice system) (d :: rest) r).2 =
            (Roller.each (Roll.ofDice system) rest (Roll.ofDice system d r).2).2 := rfl
      rw [Roller.each_cons, Roller.each_cons, hcons, hcons, ← hstate]
      refine ⟨hstates, fun hgrades => ?_⟩
      rw [List.map_cons, List.map_cons] at hgrades
      obtain ⟨hgrade, hgrades⟩ := List.cons.inj hgrades
      rw [List.map_cons, List.map_cons, hroll hgrade, hrolls hgrades]

/-- Two groups that differ in the values of hidden tests at most, rolled under one game system from
one state of the roller. If all members are graded alike, then the dice, the totals, the attacks
with their damage and what was raised are the same, the roller ends in the same state, and the
reports are the same at every verbosity. -/
theorem report_eq_of_veiled_eq {g g' : Group} (alike : g.veiled = g'.veiled) (system : System)
    (r : ρ)
    (graded : (ofGroup system g r).1.rolls.map Roll.grade =
      (ofGroup system g' r).1.rolls.map Roll.grade) :
    let first := ofGroup system g r
    let second := ofGroup system g' r
    (first.1.rolls.map fun roll => roll.parts.map PartRoll.dice) =
        (second.1.rolls.map fun roll => roll.parts.map PartRoll.dice) ∧
      first.1.totals = second.1.totals ∧ first.1.pairs = second.1.pairs ∧
      first.1.rolls.map Roll.critical = second.1.rolls.map Roll.critical ∧ first.2 = second.2 ∧
      ∀ verbosity,
        Report.group system verbosity first.1 = Report.group system verbosity second.1 := by
  intro first second
  obtain ⟨hstate, hrolls⟩ := map_veiled_each_ofDice system (congrArg Group.dice alike) r
  have hpending : (pending system g r).1.veiled = (pending system g' r).1.veiled := by
    rw [veiled, veiled, GroupRoll.mk.injEq]
    have hverbosity : g.verbosity = g'.verbosity :=
      show g.veiled.verbosity = g'.veiled.verbosity by rw [alike]
    have hmethods : g.critMethod = g'.critMethod :=
      show g.veiled.critMethod = g'.veiled.critMethod by rw [alike]
    refine ⟨hrolls ?_, hverbosity, hmethods⟩
    exact (grades_finished system g r).symm.trans (graded.trans (grades_finished system g' r))
  have hfirst : first.1.veiled = second.1.veiled := veiled_finished system hpending
  have hfield {α : Type} (f : Roll → α) (h : ∀ roll : Roll, f roll.veiled = f roll) :
      first.1.rolls.map f = second.1.rolls.map f := by
    have hmap (g : GroupRoll) : g.veiled.rolls.map f = g.rolls.map f := by
      rw [veiled, List.map_map]
      exact List.map_congr_left fun roll _ => h roll
    rw [← hmap, hfirst, hmap]
  refine ⟨hfield _ fun roll => List.map_map, hfield _ fun _ => rfl, ?_, hfield _ fun _ => rfl,
    hstate, fun verbosity => ?_⟩
  · rw [← pairs_veiled, hfirst, pairs_veiled]
  · rw [← Report.group_veiled, hfirst, Report.group_veiled]

/-- An attack on a hidden armor class of 18 or of 20, with its damage: a critical hit on either. -/
theorem report_eq_of_veiled_eq_attack :
    let attack (value : Int) : Part :=
      { count := 1, sides := 20, modifier := 7, test := some ⟨.ac, .ge, value, true⟩ }
    let damage : Part := { count := 2, sides := 6, modifier := 4 }
    let g (value : Int) : Group := { dice := [⟨[attack value]⟩, ⟨[damage]⟩] }
    let system : System := .pathfinder 20 true
    let s : Script := ⟨[20, 3, 5], 0⟩
    let rolled (value : Int) := ofGroup system (g value) s
    (g 18 ≠ g 20 ∧ (g 18).veiled = (g 20).veiled ∧
      (rolled 18).1.rolls.map Roll.grade = [.criticalSuccess, .unknown] ∧
      (rolled 20).1.rolls.map Roll.grade = [.criticalSuccess, .unknown]) ∧
      (rolled 18).1.totals = (rolled 20).1.totals ∧
      ∀ verbosity, Report.group system verbosity (rolled 18).1 =
        Report.group system verbosity (rolled 20).1 := by
  intro attack damage g system s rolled
  have differ : g 18 ≠ g 20 := by decide
  have alike : (g 18).veiled = (g 20).veiled := rfl
  have hfirst : (rolled 18).1.rolls.map Roll.grade = [.criticalSuccess, .unknown] := by decide
  have hsecond : (rolled 20).1.rolls.map Roll.grade = [.criticalSuccess, .unknown] := by decide
  obtain ⟨-, htotals, -, -, -, hreports⟩ :=
    report_eq_of_veiled_eq alike system s (hfirst.trans hsecond.symm)
  exact ⟨⟨differ, alike, hfirst, hsecond⟩, htotals, hreports⟩

end GroupRoll

end Tabletop
