import Tabletop.Proofs.Checked.Rolling
import Tabletop.Proofs.Group.CriticalDamage

/-!
# Checked evaluation

A command is read, rolled and reported on with a check at every number that is not stopped at the
end of its range, at every place and at every cut. For a command of less than four gigabytes no
check fails, whatever the settings, and the outcome is that of the evaluation without checks.
-/

namespace Tabletop

open Checked

namespace GroupRoll

def pairsFrom? (start : Nat) : List Roll → Option (List (Nat × Nat))
  | a :: b :: rest => do
    let next ← place? (start + 1)
    if a.isAttack && b.isDamage then do
      let behind ← place? (start + 2)
      let pairs ← pairsFrom? behind rest
      some ((start, next) :: pairs)
    else pairsFrom? next (b :: rest)
  | _ => do
    let _ ← place? (start + 1)
    some []

def gradeAt? (g : GroupRoll) (place : Nat) : Option Grade := g.rolls[place]?.map Roll.grade

def gradedPairs? (g : GroupRoll) : Option (List ((Nat × Nat) × Grade)) := do
  let pairs ← pairsFrom? 0 g.rolls
  pairs.mapM fun pair => (g.gradeAt? pair.1).map (pair, ·)

def finished? (system : System) (g : GroupRoll) : Option GroupRoll :=
  match system.critMethod? g.critMethod with
  | none => some g
  | some method => do
    let graded ← g.gradedPairs?
    let places := (graded.filter fun pair => pair.2 == .criticalSuccess).map fun pair => pair.1.2
    let rolls ← g.rolls.zipIdx.mapM fun r =>
      if places.contains r.2 then r.1.raised? system method else some r.1
    some { g with rolls }

def ofGroup? {ρ : Type} [Roller ρ] (system : System) (g : Group) (r : ρ) :
    Option (GroupRoll × ρ) := do
  let rolls ← Roller.each? (Roll.ofDice? system) g.dice r
  let finished ← finished? system ⟨rolls.1, g.verbosity, g.critMethod⟩
  some (finished, rolls.2)

/-- No more rolls than a command can have, each of at most `limit` parts with at most `most`
dice. -/
structure Counted (limit most : Nat) (g : GroupRoll) : Prop where
  length : g.rolls.length ≤ maxCount
  rolls : ∀ r ∈ g.rolls, PartRoll.Counted limit most r.parts

theorem pairsFrom?_eq {start : Nat} {rolls : List Roll}
    (short : start + rolls.length + 1 ≤ greatestPlace) :
    pairsFrom? start rolls = some (pairsFrom start rolls) := by
  have hnext : place? (start + 1) = some (start + 1) := place?_of_le (by omega)
  induction start, rolls using pairsFrom.induct with
  | case1 start a b rest h ih =>
    rw [List.length_cons, List.length_cons] at short
    have hrest := ih (by omega) (place?_of_le (by omega))
    rw [pairsFrom?, pairsFrom, hnext, Option.bind_eq_bind, Option.bind_some, if_pos h, if_pos h,
      place?_of_le (by omega), Option.bind_some, hrest]
    rfl
  | case2 start a b rest h ih =>
    rw [List.length_cons] at short
    have hrest := ih (by omega) (place?_of_le (by rw [List.length_cons] at short; omega))
    rw [pairsFrom?, pairsFrom, hnext, Option.bind_eq_bind, Option.bind_some, if_neg h, if_neg h,
      hrest]
  | case3 rolls start h =>
    rw [pairsFrom?, pairsFrom, hnext]
    · rfl
    all_goals exact h

theorem gradeAt?_eq {g : GroupRoll} {place : Nat} (h : place < g.rolls.length) :
    g.gradeAt? place = some (g.gradeAt place) := by
  rw [gradeAt?, gradeAt, List.getElem?_eq_getElem h]
  rfl

/-- Grading the pairs of a group misses no place, for there is a roll at the place of every
attack. -/
theorem gradedPairs?_eq {g : GroupRoll} (short : g.rolls.length ≤ maxCount) :
    g.gradedPairs? = some (g.pairs.map fun pair => (pair, g.gradeAt pair.1)) := by
  have hplaces : 0 + g.rolls.length + 1 ≤ greatestPlace := by
    simp only [maxCount, greatestPlace] at *
    omega
  rw [gradedPairs?, pairsFrom?_eq hplaces]
  refine mapM_eq_some fun pair hpair => ?_
  obtain ⟨i, rfl, hattack, -⟩ := mem_pairsFrom.mp hpair
  obtain ⟨attack, hplace, -⟩ := (Option.any_eq_true _ _).mp hattack
  have hlt : i < g.rolls.length := (List.getElem?_eq_some_iff.mp hplace).1
  rw [Nat.zero_add, gradeAt?_eq hlt]
  rfl

theorem finished?_eq (system : System) {g : GroupRoll} (h : g.Counted maxCount maxDice) :
    g.finished? system = some (g.finished system) := by
  rw [finished?, finished]
  cases system.critMethod? g.critMethod with
  | none => rfl
  | some method =>
    have hplaces : ((g.pairs.map fun pair => (pair, g.gradeAt pair.1)).filter fun pair =>
        pair.2 == .criticalSuccess).map (fun pair => pair.1.2) = g.criticalPlaces := by
      rw [List.filter_map, List.map_map]
      rfl
    have hrolls : g.rolls.zipIdx.mapM (fun r =>
        if g.criticalPlaces.contains r.2 then r.1.raised? system method else some r.1) =
          some (g.rolls.mapIdx fun place r =>
            if g.criticalPlaces.contains place then r.raised system method else r) := by
      rw [List.mapIdx_eq_zipIdx_map]
      refine mapM_eq_some fun r hr => ?_
      have hraised := Roll.raised?_eq system method (h.rolls r.1 (List.fst_mem_of_mem_zipIdx hr))
      obtain ⟨r, place⟩ := r
      dsimp only at hraised ⊢
      rw [hraised]
      split <;> rfl
    simp only [gradedPairs?_eq h.length, hplaces, hrolls, Option.bind_eq_bind, Option.bind_some]

theorem counted_finished (system : System) {g : GroupRoll} (h : g.Counted maxCount maxDice) :
    (g.finished system).Counted (maxCount + 1) (maxDice * 2) where
  length := (length_rolls_finished system g).le.trans h.length
  rolls := forall_mem_finished h.rolls (fun _ hr => hr.mono (Nat.le_succ _) (by decide))
    fun _ method hr => Roll.counted_raised system method hr

variable {ρ : Type} [Roller ρ] {sound : ρ → Prop}

theorem counted_pending (lawful : Roller.Lawful sound) (system : System) {g : Group}
    (within : g.IsWithin) {r : ρ} (h : sound r) :
    (pending system g r).1.Counted maxCount maxDice where
  length := (Roller.length_each _ _ _).le.trans within.length
  rolls := Roller.forall_mem_each_of (fun d _ _ hr => Roll.sound_ofDice lawful system d hr)
    (fun d hd _ hr => (Roll.ofDice?_eq lawful system (within.dice d hd) hr).2) h

theorem ofGroup?_eq (lawful : Roller.Lawful sound) (system : System) {g : Group}
    (within : g.IsWithin) {r : ρ} (h : sound r) :
    ofGroup? system g r = some (ofGroup system g r) := by
  have hrolls := Roller.each?_eq (fun d _ _ hr => Roll.sound_ofDice lawful system d hr)
    (fun d hd _ hr => (Roll.ofDice?_eq lawful system (within.dice d hd) hr).1) h
  have hfinished := finished?_eq system (counted_pending lawful system within h)
  rw [pending] at hfinished
  rw [ofGroup?, hrolls, Option.bind_eq_bind, Option.bind_some, hfinished]
  rfl

end GroupRoll

namespace Report

open PartRoll

/-- The breakdown under a game system, where a pool is put together with checks. -/
def breakdown? (s : System) (verbosity : Verbosity) (r : Roll) : Option Text :=
  match s with
  | .vampire => do
    let pool ← Pool.ofParts? r.parts
    let _ ← pool.successes?
    some (poolBreakdown pool)
  | _ => some (breakdownAt s verbosity r)

def details? (s : System) (verbosity : Verbosity) (r : Roll) : Option (List Text) :=
  match s with
  | .vampire => do
    let pool ← Pool.ofParts? r.parts
    some (poolDetails verbosity pool)
  | _ => some (details s verbosity r)

/-- A roll, once its breakdown and its details have been worked out. -/
def roll? (s : System) (verbosity : Verbosity) (r : Roll) : Option Text := do
  let _ ← breakdown? s verbosity r
  let _ ← details? s verbosity r
  some (roll s verbosity r)

/-- The report on a rolled group, once the attacks have been looked up and the rolls have been
worked out. -/
def group? (s : System) (verbosity : Verbosity) (g : GroupRoll) : Option Text := do
  let _ ← g.gradedPairs?
  let _ ← g.rolls.mapM (roll? s verbosity)
  some (group s verbosity g)

theorem roll?_eq (s : System) (verbosity : Verbosity) {r : Roll}
    (h : Counted (maxCount + 1) (maxDice * 2) r.parts) :
    roll? s verbosity r = some (roll s verbosity r) := by
  cases s with
  | generic | pathfinder => rfl
  | vampire =>
    simp only [roll?, breakdown?, details?, Pool.ofParts?_eq h, Pool.successes?_eq h,
      Option.bind_eq_bind, Option.bind_some]

theorem group?_eq (s : System) (verbosity : Verbosity) {g : GroupRoll}
    (h : g.Counted (maxCount + 1) (maxDice * 2)) :
    group? s verbosity g = some (group s verbosity g) := by
  rw [group?, GroupRoll.gradedPairs?_eq h.length, Option.bind_eq_bind, Option.bind_some,
    mapM_eq_some fun r hr => roll?_eq s verbosity (h.rolls r hr)]
  rfl

end Report

namespace Engine

/-- Reads a command, rolls it and reports on the roll, with a check of every number that is not
stopped at the end of its range, of every place and of every cut. -/
def evaluate? {ρ : Type} [Roller ρ] (e : Engine) (text : Text) (r : ρ) :
    Option (Evaluation × ρ) := do
  let group ← e.parse? text
  let rolled ← GroupRoll.ofGroup? e.system group r
  let output ← Report.group? e.system rolled.1.verbosity rolled.1
  some (⟨rolled.1, output⟩, rolled.2)

/-- Evaluating a command of less than four gigabytes never leaves the range of a number or the end
of a list, whatever the settings, as long as the roller shows faces of the dice: with all checks the
outcome is the same, and so is a further report on it at any verbosity. A part has at most a
thousand dice when it is read and rolled, and at most two thousand when a critical hit has raised
it. -/
theorem evaluate?_eq_some {ρ : Type} [Roller ρ] {sound : ρ → Prop} (lawful : Roller.Lawful sound)
    (settings : Settings) {text : Text} (short : text.byteSize < 2 ^ 32) {r : ρ} (h : sound r) :
    let e := ofSettings settings
    let group := e.parse text
    let evaluated := e.evaluate text r
    e.evaluate? text r = some evaluated ∧
    (∀ verbosity, Report.group? e.system verbosity evaluated.1.roll =
      some (e.reportAt verbosity evaluated.1.roll)) ∧
    (∀ d ∈ group.dice, ∀ p ∈ d.parts, p.count ≤ 1000) ∧
    (∀ roll ∈ (GroupRoll.pending e.system group r).1.rolls, ∀ p ∈ roll.parts,
      p.part.count ≤ 1000 ∧ p.faces.length ≤ 1000) ∧
    ∀ roll ∈ evaluated.1.roll.rolls, ∀ p ∈ roll.parts,
      p.part.count ≤ 2000 ∧ p.faces.length ≤ 2000 := by
  intro e group evaluated
  have hshort : text.byteSize ≤ maxCount := Nat.le_of_lt_succ short
  have hread : group.IsWithin := isWithin_parse settings hshort
  have hpending := GroupRoll.counted_pending lawful e.system hread h
  have hfinished := GroupRoll.counted_finished e.system hpending
  have hreport (verbosity : Verbosity) : Report.group? e.system verbosity evaluated.1.roll =
      some (e.reportAt verbosity evaluated.1.roll) := Report.group?_eq e.system verbosity hfinished
  refine ⟨?_, hreport, fun d hd p hp => ((hread.dice d hd).parts p hp).count,
    fun roll hroll p hp => ?_, fun roll hroll p hp => ?_⟩
  · have hparsed : e.parse? text = some group := parse?_eq settings hshort
    have hrolled : GroupRoll.ofGroup? e.system group r = some (evaluated.1.roll, evaluated.2) :=
      GroupRoll.ofGroup?_eq lawful e.system hread h
    simp only [evaluate?, hparsed, hrolled, hreport, Option.bind_eq_bind, Option.bind_some]
    rfl
  · have hwithin := (hpending.rolls roll hroll).parts p hp
    exact ⟨hwithin.part.count, hwithin.length⟩
  · have hwithin := (hfinished.rolls roll hroll).parts p hp
    exact ⟨hwithin.part.count, hwithin.length⟩

/-- A critical hit that doubles the dice behind it and what is subtracted from them. -/
theorem evaluate?_eq_some_critical :
    let e := ofSettings { system := .pathfinder, critMethod := .rollTwice }
    let text : Text := "1d20+7 ac 18; 4d6-1".toList
    let s : Script := ⟨[20, 4, 1, 6, 4], 0⟩
    Roller.Lawful (fun _ : Script => True) ∧ text.byteSize < 2 ^ 32 ∧
      e.evaluate? text s = some (e.evaluate text s) ∧
      (e.evaluate text s).1.roll.totals = [27, 28] := by
  intro e text s
  have short : text.byteSize < 2 ^ 32 := by decide
  obtain ⟨hchecked, -⟩ := evaluate?_eq_some Script.lawful
    { system := .pathfinder, critMethod := .rollTwice } short (r := s) trivial
  exact ⟨Script.lawful, short, hchecked, by decide +kernel⟩

end Engine

end Tabletop
