import Tabletop.Proofs.Roll.Simple
import Tabletop.Roll.Basic

/-!
# Critical damage

Damage is raised right behind an attack that is a critical success, and nowhere else. An attack
rolls a d20 and damage does not, so of two neighbouring pairs of rolls at most one is an attack
with its damage, and the pairs can be read off place by place. Raising damage leaves it what it
was: the raised group has the same pairs.
-/

namespace Tabletop

namespace Roll

def kind (r : Roll) : Bool × Bool := (r.isAttack, r.isDamage)

def rollsD20 (parts : List Part) : Bool := parts.any fun p => p.sides == 20 && p.hasDice

theorem d20?_isSome (r : Roll) : r.d20?.isSome = rollsD20 r.definitions := by
  rw [d20?, List.isSome_find?, rollsD20, definitions, List.any_map]
  rfl

theorem test?_eq (r : Roll) : r.test? = Part.testOf r.definitions := PartRoll.testOf_eq r.parts

theorem isAttack_eq (r : Roll) :
    r.isAttack = (rollsD20 r.definitions &&
      (Part.testOf r.definitions).any fun t => t.target.isArmorClass) := by
  rw [isAttack, d20?_isSome, test?_eq]

theorem isDamage_eq (r : Roll) :
    r.isDamage = (!rollsD20 r.definitions && (Part.testOf r.definitions).isNone &&
      r.definitions.any Part.hasDice) := by
  rw [isDamage, ← Option.not_isSome r.d20?, d20?_isSome, test?_eq, definitions, List.any_map]
  rfl

/-- Damage is no attack. -/
theorem isAttack_of_isDamage {r : Roll} (h : r.isDamage = true) : r.isAttack = false := by
  rw [isDamage_eq] at h
  rw [isAttack_eq]
  simp_all

/-- Two rolls that agree on whether there are d20s or any dice, and on the test, are of one kind. -/
theorem kind_eq {r s : Roll} (d20 : rollsD20 s.definitions = rollsD20 r.definitions)
    (test : Part.testOf s.definitions = Part.testOf r.definitions)
    (dice : s.definitions.any Part.hasDice = r.definitions.any Part.hasDice) :
    s.kind = r.kind := by
  rw [kind, kind, isAttack_eq, isAttack_eq, isDamage_eq, isDamage_eq, d20, test, dice]

/-- A flat part more makes no difference to the kind of a roll. -/
theorem kind_of_flat {r s : Roll} {sign : Sign} {n : Int}
    (h : s.definitions = r.definitions ++ [.flat sign n]) : s.kind = r.kind := by
  refine kind_eq ?_ ?_ ?_
  · simp [h, rollsD20, Part.flat]
  · simp [h, Part.testOf, List.findSome?_append, Part.flat]
  · simp [h, Part.hasDice, Part.flat]

theorem hasDice_doubled (p : PartRoll) : p.doubled.part.hasDice = p.part.hasDice := by
  have hcount : 0 < min maxCount (p.part.count * 2) ↔ 0 < p.part.count := by
    rw [maxCount]
    omega
  exact congrArg (· && decide (0 < p.part.sides)) (decide_eq_decide.mpr hcount)

/-- Rolling all dice twice over makes no difference to the kind of a roll. -/
theorem kind_of_doubled {r s : Roll} (h : s.parts = r.parts.map PartRoll.doubled) :
    s.kind = r.kind := by
  have hsides (p : PartRoll) : p.doubled.part.sides = p.part.sides := rfl
  have htest (p : PartRoll) : p.doubled.part.test = p.part.test := rfl
  have hdefinitions : s.definitions = r.parts.map fun p => p.doubled.part := by
    rw [definitions, h, List.map_map]
    rfl
  refine kind_eq ?_ ?_ ?_
  all_goals rw [hdefinitions, definitions]
  · simp only [rollsD20, List.any_map, Function.comp_def, hsides, hasDice_doubled]
  · simp only [Part.testOf, List.findSome?_map, Function.comp_def, htest]
  · simp only [List.any_map, Function.comp_def, hasDice_doubled]

/-- Raising a roll leaves an attack an attack and damage damage. -/
theorem kind_raised (system : System) (method : CritMethod) (r : Roll) :
    (r.raised system method).kind = r.kind := by
  cases method with
  | timesTwo => exact kind_of_flat List.map_append
  | rollTwice => exact kind_of_doubled rfl
  | addMax => exact kind_of_flat List.map_append

/-- Unless everything is rolled twice, the parts of a raised roll go on from the parts before. -/
theorem parts_prefix_raised (system : System) {method : CritMethod} (h : method ≠ .rollTwice)
    (r : Roll) : r.parts <+: (r.raised system method).parts := by
  cases method with
  | timesTwo | addMax => exact List.prefix_append _ _
  | rollTwice => exact absurd rfl h

end Roll

namespace GroupRoll

/-- The roll at a place is damage right behind an attack that is a critical success. -/
def isCriticalDamage (g : GroupRoll) : Nat → Bool
  | 0 => false
  | place + 1 =>
    (g.rolls[place]?.any fun attack => attack.isAttack && attack.grade == .criticalSuccess) &&
      g.rolls[place + 1]?.any Roll.isDamage

/-- The pairs are all places where an attack stands right before damage. -/
theorem mem_pairsFrom {start : Nat} {rolls : List Roll} {pair : Nat × Nat} :
    pair ∈ pairsFrom start rolls ↔ ∃ i, pair = (start + i, start + i + 1) ∧
      rolls[i]?.any Roll.isAttack ∧ rolls[i + 1]?.any Roll.isDamage := by
  induction start, rolls using pairsFrom.induct with
  | case1 start a b rest h ih =>
    obtain ⟨ha, hb⟩ := Bool.and_eq_true_iff.mp h
    rw [pairsFrom, if_pos h, List.mem_cons, ih]
    constructor
    · rintro (rfl | ⟨i, rfl, hattack, hdamage⟩)
      · exact ⟨0, rfl, ha, hb⟩
      · exact ⟨i + 2, by simp only [Prod.mk.injEq]; omega, hattack, hdamage⟩
    · rintro ⟨i, rfl, hattack, hdamage⟩
      match i with
      | 0 => exact .inl rfl
      | 1 =>
        -- the damage of a pair is not the attack of the next one
        have hnone : b.isAttack = false := Roll.isAttack_of_isDamage hb
        simp [hnone] at hattack
      | i + 2 => exact .inr ⟨i, by simp only [Prod.mk.injEq]; omega, hattack, hdamage⟩
  | case2 start a b rest h ih =>
    rw [pairsFrom, if_neg h, ih]
    constructor
    · rintro ⟨i, rfl, hattack, hdamage⟩
      exact ⟨i + 1, by simp only [Prod.mk.injEq]; omega, hattack, hdamage⟩
    · rintro ⟨i, rfl, hattack, hdamage⟩
      match i with
      | 0 => exact absurd (Bool.and_eq_true_iff.mpr ⟨hattack, hdamage⟩) h
      | i + 1 => exact ⟨i, by simp only [Prod.mk.injEq]; omega, hattack, hdamage⟩
  | case3 rolls start h =>
    have hshort : ∀ i, rolls[i + 1]? = none := by
      match rolls with
      | [] | [_] => simp
      | a :: b :: rest => exact absurd rfl (h a b rest)
    have hnil : pairsFrom start rolls = [] := by
      match rolls with
      | [] | [_] => rfl
      | a :: b :: rest => exact absurd rfl (h a b rest)
    simp [hnil, hshort]

/-- Only the kinds of the rolls matter to the pairs. -/
theorem pairsFrom_congr {rolls rolls' : List Roll}
    (h : rolls'.map Roll.kind = rolls.map Roll.kind) (start : Nat) :
    pairsFrom start rolls' = pairsFrom start rolls := by
  induction start, rolls using pairsFrom.induct generalizing rolls' with
  | case1 start a b rest hpair ih =>
    obtain ⟨a', tail, rfl, ha, htail⟩ := List.map_eq_cons_iff.mp h
    obtain ⟨b', rest', rfl, hb, hrest⟩ := List.map_eq_cons_iff.mp htail
    have hpair' : (a'.isAttack && b'.isDamage) = true := by
      rw [(Prod.mk.inj ha).1, (Prod.mk.inj hb).2, hpair]
    rw [pairsFrom, pairsFrom, if_pos hpair, if_pos hpair', ih hrest]
  | case2 start a b rest hpair ih =>
    obtain ⟨a', tail, rfl, ha, htail⟩ := List.map_eq_cons_iff.mp h
    obtain ⟨b', rest', rfl, hb, hrest⟩ := List.map_eq_cons_iff.mp htail
    have hpair' : ¬(a'.isAttack && b'.isDamage) = true := by
      rwa [(Prod.mk.inj ha).1, (Prod.mk.inj hb).2]
    rw [pairsFrom, pairsFrom, if_neg hpair, if_neg hpair', ih htail]
  | case3 rolls start hshort =>
    have hlength : rolls'.length = rolls.length := by simpa using congrArg List.length h
    match rolls, rolls', hlength with
    | [], [], _ => rfl
    | [_], [_], _ => rfl
    | a :: b :: rest, _, _ => exact absurd rfl (hshort a b rest)

/-- The places that are raised are those of critical damage. -/
theorem mem_criticalPlaces {g : GroupRoll} {place : Nat} :
    place ∈ g.criticalPlaces ↔ g.isCriticalDamage place = true := by
  rw [criticalPlaces, List.mem_map]
  constructor
  · rintro ⟨pair, hpair, rfl⟩
    obtain ⟨hmem, hgrade⟩ := List.mem_filter.mp hpair
    obtain ⟨i, rfl, hattack, hdamage⟩ := mem_pairsFrom.mp hmem
    rw [Nat.zero_add] at hgrade ⊢
    cases hroll : g.rolls[i]? with
    | none => simp [hroll] at hattack
    | some attack => simp_all [isCriticalDamage, gradeAt]
  · intro h
    match place with
    | 0 => simp [isCriticalDamage] at h
    | i + 1 =>
      obtain ⟨hattack, hdamage⟩ := Bool.and_eq_true_iff.mp h
      cases hroll : g.rolls[i]? with
      | none => simp [hroll] at hattack
      | some attack =>
        refine ⟨(i, i + 1), List.mem_filter.mpr ⟨mem_pairsFrom.mpr ⟨i, ?_, ?_, hdamage⟩, ?_⟩, rfl⟩
        all_goals simp_all [gradeAt]

/-- Under d20 rules a roll is raised where it is critical damage and left alone elsewhere. -/
theorem getElem?_rolls_finished {system : System} {g : GroupRoll} {method : CritMethod}
    (h : system.critMethod? g.critMethod = some method) (place : Nat) :
    (g.finished system).rolls[place]? = g.rolls[place]?.map fun before =>
      if g.isCriticalDamage place then before.raised system method else before := by
  simp only [finished, h, List.getElem?_mapIdx, List.contains_iff_mem, mem_criticalPlaces]

/-- What holds of the rolls before and of whatever is raised holds of the rolls afterwards. -/
theorem forall_mem_finished {system : System} {g : GroupRoll} {holds after : Roll → Prop}
    (h : ∀ roll ∈ g.rolls, holds roll) (left : ∀ roll, holds roll → after roll)
    (raised : ∀ roll method, holds roll → after (roll.raised system method)) :
    ∀ roll ∈ (g.finished system).rolls, after roll := by
  intro roll hroll
  rw [finished] at hroll
  split at hroll
  · exact left roll (h roll hroll)
  · next method _ =>
    obtain ⟨place, hplace, rfl⟩ := List.mem_mapIdx.mp hroll
    have hbefore := h _ (List.getElem_mem hplace)
    split
    · exact raised _ method hbefore
    · exact left _ hbefore

theorem kinds_finished (system : System) (g : GroupRoll) :
    (g.finished system).rolls.map Roll.kind = g.rolls.map Roll.kind := by
  cases h : system.critMethod? g.critMethod with
  | none => simp only [finished, h]
  | some method =>
    refine List.ext_getElem? fun place => ?_
    rw [List.getElem?_map, List.getElem?_map, getElem?_rolls_finished h, Option.map_map]
    refine Option.map_congr fun before _ => ?_
    rw [Function.comp_apply]
    split
    · exact Roll.kind_raised system method before
    · rfl

/-- Reading the pairs off the raised group finds the pairs of the group before. -/
theorem pairs_finished (system : System) (g : GroupRoll) :
    (g.finished system).pairs = g.pairs := pairsFrom_congr (kinds_finished system g) 0

theorem rolls_pending_singleton {ρ : Type} [Roller ρ] {group : Group} {d : Dice}
    (h : group.dice = [d]) (system : System) (r : ρ) :
    (pending system group r).1.rolls = [(Roll.ofDice system d r).1] := by
  have hrolls : (pending system group r).1.rolls =
      (Roller.each (Roll.ofDice system) group.dice r).1 := rfl
  rw [hrolls, h]
  rfl

theorem critical_of_mem_pending {ρ : Type} [Roller ρ] {system : System} {group : Group} {r : ρ}
    {roll : Roll} (h : roll ∈ (pending system group r).1.rolls) : roll.critical = none := by
  obtain ⟨d, -, r', rfl⟩ := Roller.exists_of_mem_each h
  rfl

/-- Finishing a rolled group raises what is critical damage under d20 rules and nothing else. It
keeps the number of rolls, the pairs and what the group says of itself; a roll tells the method
by which it was raised, and none if it was not. -/
theorem finished_pending {ρ : Type} [Roller ρ] (system : System) (group : Group) (r : ρ) :
    let pending := (pending system group r).1
    let finished := pending.finished system
    finished.verbosity = group.verbosity ∧ finished.critMethod = group.critMethod ∧
    finished.rolls.length = group.dice.length ∧ finished.pairs = pending.pairs ∧
    match system.kind with
    | .generic | .vampire =>
      finished.rolls = pending.rolls ∧ ∀ roll ∈ finished.rolls, roll.critical = none
    | .pathfinder =>
      ∀ place, ∀ before ∈ pending.rolls[place]?, ∃ after, finished.rolls[place]? = some after ∧
        (if pending.isCriticalDamage place then
          after = before.raised system group.critMethod ∧
            after.critical = some group.critMethod ∧
            (group.critMethod ≠ .rollTwice → before.parts <+: after.parts)
        else after = before ∧ after.critical = none) := by
  intro pending finished
  have hcritical (roll : Roll) (h : roll ∈ pending.rolls) : roll.critical = none :=
    critical_of_mem_pending h
  have hlength : finished.rolls.length = group.dice.length := by
    rw [length_rolls_finished]
    exact Roller.length_each _ _ _
  cases system with
  | generic | vampire => exact ⟨rfl, rfl, hlength, pairs_finished _ _, rfl, hcritical⟩
  | pathfinder threshold infersSaves =>
    refine ⟨rfl, rfl, hlength, pairs_finished _ _, fun place before hbefore => ?_⟩
    have hmethod : System.critMethod? (.pathfinder threshold infersSaves) pending.critMethod =
        some group.critMethod := rfl
    have hafter := getElem?_rolls_finished hmethod place
    rw [Option.mem_def.mp hbefore, Option.map_some] at hafter
    refine ⟨_, hafter, ?_⟩
    split
    · exact ⟨rfl, rfl, fun h => Roll.parts_prefix_raised _ h before⟩
    · exact ⟨rfl, hcritical before (List.mem_of_getElem? hbefore)⟩

end GroupRoll

end Tabletop
