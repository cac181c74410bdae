import Mathlib
import Tabletop.Engine
import Tabletop.Proofs.Group.CriticalDamage
import Tabletop.Proofs.Group.Reading
import Tabletop.Proofs.Roll.Doubled

/-!
# Doubled damage in a command

Whatever damage a text asks for, a factor of two doubles its total. All dice rolled twice over
double it as well, but dice that multiply a total are doubled along with it and then count twice.
-/

namespace Tabletop

namespace Roll

variable {ρ : Type} [Roller ρ] {sound : ρ → Prop}

theorem sums_ofDice (lawful : Roller.Lawful sound) {threshold : Nat} {infers : Bool} {d : Dice}
    (fixed : ∀ p ∈ d.parts, p.fixed = none) (limited : ∀ p ∈ d.parts, p.IsLimited) {r : ρ}
    (h : sound r) : (ofDice (.pathfinder threshold infers) d r).1.Sums maxDice := by
  exact ⟨rfl, Roller.forall_mem_each_of (fun p _ _ hr => PartRoll.sound_roll lawful p hr)
    (fun p hp r hr => PartRoll.atMost_roll lawful (fixed p hp) (limited p hp) hr) h⟩

end Roll

namespace GroupRoll

open PartRoll

variable {ρ : Type} [Roller ρ] {sound : ρ → Prop}

theorem sums_of_mem_pending (lawful : Roller.Lawful sound) {threshold : Nat} {infers : Bool}
    {group : Group} {tokens : List Token}
    (read : group.dice = Group.diceOfTokens (.pathfinder threshold infers) tokens) {r : ρ}
    (h : sound r) :
    ∀ roll ∈ (pending (.pathfinder threshold infers) group r).1.rolls, roll.Sums maxDice := by
  refine Roller.forall_mem_each_of (fun d _ _ hr => Roll.sound_ofDice lawful _ d hr)
    (fun d hd r hr => ?_) h
  rw [read] at hd
  obtain ⟨run, rfl⟩ := Group.exists_ofTokens_of_mem hd
  exact Roll.sums_ofDice lawful (Dice.fixed_ofTokens _ run)
    (Dice.IsDefined.ofTokens _ run).isLimited hr

theorem sums_of_mem_finished {threshold : Nat} {infers : Bool} {g : GroupRoll} {most : Nat}
    (h : ∀ roll ∈ g.rolls, roll.Sums most) :
    ∀ roll ∈ (g.finished (.pathfinder threshold infers)).rolls, roll.Sums (most * 2) :=
  forall_mem_finished h (fun _ hroll => hroll.mono (Nat.le_mul_of_pos_right most (by decide)))
    fun _ method hroll => hroll.raised method

/-- Under d20 rules, damage that is read from a text and rolled is doubled by a factor of two.
Rolling all dice twice over doubles it as well, provided that dice multiply nothing but a total of
zero; the totals on the way to it are all doubled exactly then. Nothing must leave the range of
totals. This holds of every roll, also of damage that was raised before. -/
theorem totals_doubled (lawful : Roller.Lawful sound) {settings : Settings}
    (pathfinder : settings.system = .pathfinder) (text : Text) {r : ρ} (h : sound r) :
    let e := Engine.ofSettings settings
    let rolled := (pending e.system (e.parse text) r).1
    ∀ roll, roll ∈ rolled.rolls ∨ roll ∈ (e.roll (e.parse text) r).1.rolls →
      (roll.RaisesWithin e.system .timesTwo →
        (roll.raised e.system .timesTwo).total = roll.total * 2) ∧
      (roll.RaisesWithin e.system .rollTwice →
        (FactorsFlat roll.parts → (roll.raised e.system .rollTwice).total = roll.total * 2) ∧
        ((∀ k, joinedTotal ((roll.raised e.system .rollTwice).parts.take k) =
          joinedTotal (roll.parts.take k) * 2) ↔ FactorsFlat roll.parts)) := by
  obtain ⟨system, verbosity, critMethod, threshold, infers⟩ := settings
  obtain rfl : system = .pathfinder := pathfinder
  intro e rolled roll hroll
  have hrolled : ∀ roll ∈ rolled.rolls, roll.Sums maxDice := sums_of_mem_pending lawful rfl h
  have hsums : roll.Sums (maxDice * 2) := by
    rcases hroll with hroll | hroll
    · exact (hrolled roll hroll).mono (Nat.le_mul_of_pos_right maxDice (by decide))
    · exact sums_of_mem_finished hrolled roll hroll
  exact ⟨hsums.total_timesTwo, hsums.total_rollTwice (by decide)⟩

/-- Kept dice with a modifier, subtracted dice, and a number that multiplies. -/
theorem totals_doubled_by_number :
    let e := Engine.ofSettings (.forSystem .pathfinder)
    let s : Script := ⟨[4, 1, 6, 4, 3], 0⟩
    let text := "4d6k3+2-1d4*3 fire".toList
    let rolled := (pending e.system (e.parse text) s).1
    (Settings.forSystem .pathfinder).system = .pathfinder ∧ Roller.Lawful (fun _ : Script => True) ∧
      ∃ roll, rolled.rolls = [roll] ∧ roll.isDamage ∧ roll.RaisesWithin e.system .timesTwo ∧
        roll.RaisesWithin e.system .rollTwice ∧ FactorsFlat roll.parts ∧ roll.total = 39 ∧
        (roll.raised e.system .timesTwo).total = roll.total * 2 ∧
        (roll.raised e.system .rollTwice).total = roll.total * 2 := by
  intro e s text rolled
  let d : Dice := ⟨[
    { count := 4, sides := 6, modifier := 2, dropKeep := some ⟨.keep, .highest, 3⟩ },
    { count := 1, sides := 4, sign := .minus },
    { sign := .times, modifier := 3, description := "fire".toList }]⟩
  have hdice : (e.parse text).dice = [d] := by decide +kernel
  have hrolls := rolls_pending_singleton hdice e.system s
  have hroll : let roll := (Roll.ofDice e.system d s).1
      roll.isDamage ∧ roll.RaisesWithin e.system .timesTwo ∧ roll.RaisesWithin e.system .rollTwice ∧
        FactorsFlat roll.parts ∧ roll.total = 39 :=
    of_decide_eq_true (by cbv)
  obtain ⟨damage, within, within', flat, total⟩ := hroll
  obtain ⟨htwo, htwice⟩ := totals_doubled Script.lawful rfl text trivial _
    (.inl (hrolls ▸ List.mem_singleton_self _))
  exact ⟨rfl, Script.lawful, _, hrolls, damage, within, within', flat, total, htwo within,
    (htwice within').1 flat⟩

/-- Dice that multiply dice are doubled along with them. -/
theorem totals_doubled_by_dice :
    let e := Engine.ofSettings (.forSystem .pathfinder)
    let rolled := (pending e.system (e.parse "1d6*1d4".toList) (⟨[3, 2], 0⟩ : Script)).1
    ∃ roll, rolled.rolls = [roll] ∧ roll.isDamage ∧ roll.RaisesWithin e.system .timesTwo ∧
      roll.RaisesWithin e.system .rollTwice ∧ roll.total = 6 ∧
      (roll.raised e.system .timesTwo).total = 12 ∧
      (roll.raised e.system .rollTwice).total = 24 := by
  intro e rolled
  let d : Dice := ⟨[{ count := 1, sides := 6 }, { count := 1, sides := 4, sign := .times }]⟩
  have hdice : (e.parse "1d6*1d4".toList).dice = [d] := by decide +kernel
  exact ⟨_, rolls_pending_singleton hdice e.system _, by decide⟩

end GroupRoll

end Tabletop
