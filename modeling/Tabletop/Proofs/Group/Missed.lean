import Tabletop.Engine
import Tabletop.Proofs.Group.CriticalDamage
import Tabletop.Proofs.Group.Reading
import Tabletop.Proofs.Report.Lines
import Tabletop.Proofs.Roll.Scripted

/-!
# Missed damage

Damage after a missed attack stays out of the report as long as there are no details, and it leaves
no trace there. Which rolls are attacks and damage is a matter of what was asked for, so two rolled
groups of one definition have the same pairs. If they agree on all but missed damage, they agree on
the attacks, for an attack is no damage; so they agree on what was missed and on what is shown.
-/

namespace Tabletop

namespace Roll

/-- Rolls of the same parts are of one kind. -/
theorem map_kind_eq {rolls rolls' : List Roll}
    (h : rolls'.map definitions = rolls.map definitions) :
    rolls'.map kind = rolls.map kind := by
  have hkind : kind = (fun parts : List Part =>
      (rollsD20 parts && (Part.testOf parts).any fun t => t.target.isArmorClass,
        !rollsD20 parts && (Part.testOf parts).isNone && parts.any Part.hasDice)) ∘ definitions :=
    funext fun r => Prod.ext r.isAttack_eq r.isDamage_eq
  rw [hkind, ← List.map_map, h, List.map_map]

end Roll

namespace GroupRoll

/-- The roll at a place is the damage of an attack with such a grade. -/
def isDamageAfter (holds : Grade → Bool) (g : GroupRoll) (place : Nat) : Bool :=
  g.pairs.any fun pair => pair.2 == place && holds (g.gradeAt pair.1)

/-- The roll at a place is the damage of a missed attack. -/
def isMissedDamage (g : GroupRoll) (place : Nat) : Bool := g.isDamageAfter Grade.isFailure place

/-- Two rolled groups agree on every roll but missed damage. -/
def AgreesButMissed (g g' : GroupRoll) : Prop :=
  ∀ place, g.isMissedDamage place = false → g'.isMissedDamage place = false →
    g.rolls[place]? = g'.rolls[place]?

instance (g g' : GroupRoll) : Decidable (g.AgreesButMissed g') :=
  decidable_of_iff (∀ place < max g.rolls.length g'.rolls.length,
      g.isMissedDamage place = false → g'.isMissedDamage place = false →
        g.rolls[place]? = g'.rolls[place]?)
    ⟨fun h place hfirst hsecond => by
      by_cases hplace : place < max g.rolls.length g'.rolls.length
      · exact h place hplace hfirst hsecond
      · rw [List.getElem?_eq_none (by omega), List.getElem?_eq_none (by omega)],
    fun h place _ => h place⟩

theorem not_isMissedDamage_zero (g : GroupRoll) : g.isMissedDamage 0 = false := by
  refine List.any_eq_false.mpr fun pair hpair => ?_
  obtain ⟨i, rfl, -⟩ := mem_pairsFrom.mp hpair
  simp

/-- An attack is no damage, let alone missed. -/
theorem not_isMissedDamage_of_isAttack {g : GroupRoll} {place : Nat}
    (h : g.rolls[place]?.any Roll.isAttack) : g.isMissedDamage place = false := by
  obtain ⟨attack, hattack, h⟩ := (Option.any_eq_true _ _).mp h
  refine List.any_eq_false.mpr fun pair hpair => ?_
  obtain ⟨i, rfl, -, hdamage⟩ := mem_pairsFrom.mp hpair
  intro hplace
  have hi : i + 1 = place := by simpa using (Bool.and_eq_true_iff.mp hplace).1
  rw [hi, hattack, Option.any_some] at hdamage
  rw [Roll.isAttack_of_isDamage hdamage] at h
  exact absurd h (by decide)

/-- Damage belongs to one attack only. -/
theorem eq_of_mem_pairs {g : GroupRoll} {pair pair' : Nat × Nat} (h : pair ∈ g.pairs)
    (h' : pair' ∈ g.pairs) (same : pair.2 = pair'.2) : pair = pair' := by
  obtain ⟨i, rfl, -⟩ := mem_pairsFrom.mp h
  obtain ⟨j, rfl, -⟩ := mem_pairsFrom.mp h'
  obtain rfl : i = j := by simpa using same
  rfl

/-- A report goes by the grade of the attack that the damage belongs to. -/
theorem attackGrade?_eq_some_iff {g : GroupRoll} {place : Nat} {grade : Grade} :
    Report.attackGrade? g g.pairs place = some grade ↔
      ∃ pair ∈ g.pairs, pair.2 = place ∧ g.gradeAt pair.1 = grade := by
  rw [Report.attackGrade?, Option.map_eq_some_iff]
  constructor
  · rintro ⟨pair, hfind, hgrade⟩
    exact ⟨pair, List.mem_of_find?_eq_some hfind, by simpa using List.find?_some hfind, hgrade⟩
  · rintro ⟨pair, hpair, rfl, hgrade⟩
    have hsome : (g.pairs.find? fun other => other.2 == pair.2).isSome :=
      List.find?_isSome.mpr ⟨pair, hpair, beq_self_eq_true _⟩
    obtain ⟨found, hfind⟩ := Option.isSome_iff_exists.mp hsome
    have hsame : found.2 = pair.2 := by simpa using List.find?_some hfind
    obtain rfl := eq_of_mem_pairs (List.mem_of_find?_eq_some hfind) hpair hsame
    exact ⟨found, hfind, hgrade⟩

theorem any_attackGrade? (holds : Grade → Bool) (g : GroupRoll) (place : Nat) :
    (Report.attackGrade? g g.pairs place).any holds = g.isDamageAfter holds place := by
  rw [Bool.eq_iff_iff, Option.any_eq_true, isDamageAfter, List.any_eq_true]
  constructor
  · rintro ⟨grade, hgrade, h⟩
    obtain ⟨pair, hpair, hplace, rfl⟩ := attackGrade?_eq_some_iff.mp hgrade
    exact ⟨pair, hpair, by simp [hplace, h]⟩
  · rintro ⟨pair, hpair, h⟩
    obtain ⟨hplace, h⟩ := Bool.and_eq_true_iff.mp h
    exact ⟨_, attackGrade?_eq_some_iff.mpr ⟨pair, hpair, eq_of_beq hplace, rfl⟩, h⟩

/-- Groups of the same kinds that agree on all but missed damage agree on the attacks. -/
theorem AgreesButMissed.attackGrade?_eq {g g' : GroupRoll} (agrees : g.AgreesButMissed g')
    (kinds : g.rolls.map Roll.kind = g'.rolls.map Roll.kind) (place : Nat) :
    Report.attackGrade? g g.pairs place = Report.attackGrade? g' g'.pairs place := by
  have hpairs : g.pairs = g'.pairs := pairsFrom_congr kinds 0
  have hgrade : ∀ pair ∈ g.pairs, g.gradeAt pair.1 = g'.gradeAt pair.1 := by
    intro pair hpair
    have hpair' := hpairs ▸ hpair
    obtain ⟨i, rfl, hattack, -⟩ := mem_pairsFrom.mp hpair
    obtain ⟨j, hsame, hattack', -⟩ := mem_pairsFrom.mp hpair'
    obtain rfl : i = j := by simpa using hsame
    rw [Nat.zero_add, gradeAt, gradeAt, agrees i (not_isMissedDamage_of_isAttack hattack)
      (not_isMissedDamage_of_isAttack hattack')]
  refine Option.ext fun grade => ?_
  rw [attackGrade?_eq_some_iff, attackGrade?_eq_some_iff, ← hpairs]
  refine exists_congr fun pair => and_congr_right fun hpair => ?_
  rw [hgrade pair hpair]

end GroupRoll

namespace Report

open GroupRoll

variable {verbosity : Verbosity}

/-- Below the verbosity that adds details, missed damage stays out. -/
theorem member?_of_isMissedDamage (shown : System) (low : verbosity < .xl) {g : GroupRoll}
    {place : Nat} (missed : g.isMissedDamage place) (r : Roll) :
    member? shown verbosity (attackGrade? g g.pairs place) r = none := by
  rw [isMissedDamage, ← any_attackGrade?] at missed
  obtain ⟨grade, hgrade, hfailure⟩ := (Option.any_eq_true _ _).mp missed
  rw [hgrade, member?, if_pos ⟨hfailure, low⟩]

/-- The report on a roll that does not stay out, behind the mark if it is damage after a hit. -/
def memberLine (shown : System) (verbosity : Verbosity) (g : GroupRoll) (place : Nat) (r : Roll) :
    Text :=
  if g.isDamageAfter Grade.isSuccess place then damageMark ++ ' ' :: roll shown verbosity r
  else roll shown verbosity r

theorem member?_of_not_isMissedDamage (shown : System) (verbosity : Verbosity) {g : GroupRoll}
    {place : Nat} (shows : g.isMissedDamage place = false) (r : Roll) :
    member? shown verbosity (attackGrade? g g.pairs place) r =
      some (memberLine shown verbosity g place r) := by
  rw [isMissedDamage, ← any_attackGrade?] at shows
  rw [memberLine, ← any_attackGrade?]
  cases hgrade : attackGrade? g g.pairs place with
  | none => rfl
  | some grade =>
    have hfailure : ¬(grade.isFailure ∧ verbosity < .xl) := by simp_all
    rw [member?, if_neg hfailure, Option.any_some]
    split <;> rfl

/-- Below the verbosity that adds details, a report holds every roll but missed damage. -/
theorem members_eq (shown : System) (low : verbosity < .xl) (g : GroupRoll) :
    members shown verbosity g =
      (g.rolls.zipIdx.filter fun member => !g.isMissedDamage member.2).map fun member =>
        memberLine shown verbosity g member.2 member.1 := by
  have hmembers : members shown verbosity g = g.rolls.zipIdx.filterMap fun member =>
      member? shown verbosity (attackGrade? g g.pairs member.2) member.1 := by
    rw [members, List.mapIdx_eq_zipIdx_map, List.filterMap_map]
    rfl
  rw [hmembers, ← List.filterMap_eq_map, List.filterMap_filter]
  refine List.filterMap_congr fun member _ => ?_
  cases hmissed : g.isMissedDamage member.2 with
  | true => simp [member?_of_isMissedDamage shown low hmissed]
  | false => simp [member?_of_not_isMissedDamage shown verbosity hmissed]

/-- The first roll is no damage of another one. -/
theorem members_ne_nil (shown : System) (low : verbosity < .xl) {g : GroupRoll}
    (h : g.rolls ≠ []) : members shown verbosity g ≠ [] := by
  obtain ⟨first, rest, hrolls⟩ := List.exists_cons_of_ne_nil h
  rw [members_eq shown low, hrolls, List.zipIdx_cons,
    List.filter_cons_of_pos (by simp [not_isMissedDamage_zero])]
  exact List.cons_ne_nil _ _

theorem isLine_of_mem_members (shown : System) (low : verbosity < .xl) {g : GroupRoll}
    (plain : ∀ r ∈ g.rolls, r.IsPlain) :
    ∀ line ∈ members shown verbosity g, Text.IsLine line := by
  rw [members_eq shown low]
  refine List.forall_mem_map.mpr fun member hmember => ?_
  have hroll : member.1 ∈ g.rolls := List.mem_of_getElem?
    (List.mem_zipIdx_iff_getElem?.mp (List.mem_filter.mp hmember).1)
  have hline := isLine_roll shown low (plain _ hroll)
  exact Text.isLine_ite (.append (by decide) (.cons (by decide) hline)) hline

/-- If all descriptions stay on one line, the lines of a report are the reports on the rolls. -/
theorem splitOn_group (shown : System) (low : verbosity < .xl) {g : GroupRoll}
    (plain : ∀ r ∈ g.rolls, r.IsPlain) (nonempty : g.rolls ≠ []) :
    (group shown verbosity g).splitOn '\n' = members shown verbosity g := by
  refine List.splitOn_intercalate '\n' (fun line hline => ?_) (members_ne_nil shown low nonempty)
  exact (isLine_of_mem_members shown low plain line hline).not_mem_newline

end Report

namespace GroupRoll

/-- What was missed leaves no trace. -/
theorem AgreesButMissed.members_eq {g g' : GroupRoll} (agrees : g.AgreesButMissed g')
    (kinds : g.rolls.map Roll.kind = g'.rolls.map Roll.kind) (shown : System)
    {verbosity : Verbosity} (low : verbosity < .xl) :
    Report.members shown verbosity g = Report.members shown verbosity g' := by
  refine congrArg (List.filterMap id) (List.ext_getElem? fun place => ?_)
  rw [List.getElem?_mapIdx, List.getElem?_mapIdx]
  have hgrade := agrees.attackGrade?_eq kinds place
  have hmissed : g.isMissedDamage place = g'.isMissedDamage place := by
    rw [isMissedDamage, ← any_attackGrade?, hgrade, any_attackGrade?, isMissedDamage]
  cases hshown : g.isMissedDamage place with
  | true =>
    have hout {g : GroupRoll} (missed : g.isMissedDamage place) :
        (g.rolls[place]?.map fun r =>
          Report.member? shown verbosity (Report.attackGrade? g g.pairs place) r) =
        ((g.rolls.map Roll.kind)[place]?.map fun _ => none) := by
      rw [List.getElem?_map, Option.map_map]
      exact Option.map_congr fun r _ => Report.member?_of_isMissedDamage shown low missed r
    rw [hout hshown, hout (hmissed ▸ hshown), kinds]
  | false => rw [agrees place hshown (hmissed ▸ hshown), hgrade]

section

variable {ρ : Type} [Roller ρ]

/-- What was asked for decides which rolls are attacks and damage. -/
theorem kinds_ofGroup {ρ' : Type} [Roller ρ'] (system : System) (g : Group) (r : ρ) (r' : ρ') :
    (ofGroup system g r).1.rolls.map Roll.kind = (ofGroup system g r').1.rolls.map Roll.kind := by
  have hpending : (pending system g r).1.rolls.map Roll.definitions =
      (pending system g r').1.rolls.map Roll.definitions :=
    (definitions_each_ofDice system g.dice r).trans (definitions_each_ofDice system g.dice r').symm
  exact (kinds_finished system _).trans
    ((Roll.map_kind_eq hpending).trans (kinds_finished system _).symm)

theorem length_rolls_ofGroup (system : System) (g : Group) (r : ρ) :
    (ofGroup system g r).1.rolls.length = g.dice.length :=
  (length_rolls_finished system _).trans (Roller.length_each _ _ _)

/-- A command that was read is described on one line, also after raising. -/
theorem isPlain_of_mem_ofGroup (system : System) {g : Group} {settings : Settings} {text : Text}
    (read : g.dice = ((Engine.ofSettings settings).parse text).dice) (r : ρ) :
    ∀ roll ∈ (ofGroup system g r).1.rolls, roll.IsPlain := by
  refine forall_mem_finished (fun roll hroll => ?_) (fun _ plain => plain)
    fun _ method plain => plain.raised system method
  obtain ⟨d, hd, r', rfl⟩ := Roller.exists_of_mem_each hroll
  rw [read] at hd
  obtain ⟨run, rfl⟩ := Group.exists_ofTokens_of_mem hd
  exact Roll.isPlain_ofDice system (Dice.isLine_description_ofTokens _ run) r'

/-- Below the verbosity that adds details, two rolled groups of one definition that agree on all but
missed damage have the same report. The report on a command that was read holds one line for each
roll but missed damage, in order: the report on the roll, behind the mark if it is damage after a
hit. -/
theorem report_hides_missed_damage (system shown : System) (g : Group) (r : ρ)
    {verbosity : Verbosity} (low : verbosity < .xl) :
    let rolled := (ofGroup system g r).1
    let report := Report.group shown verbosity rolled
    (∀ {ρ' : Type} [Roller ρ'] (r' : ρ'), rolled.AgreesButMissed (ofGroup system g r').1 →
      report = Report.group shown verbosity (ofGroup system g r').1) ∧
    ∀ (settings : Settings) (text : Text),
      g.dice = ((Engine.ofSettings settings).parse text).dice →
        report.splitOn '\n' =
          ((rolled.rolls.zipIdx.filter fun member => !rolled.isMissedDamage member.2).map
            fun member => Report.memberLine shown verbosity rolled member.2 member.1) ∧
        ∀ line ∈ report.splitOn '\n', Text.IsLine line := by
  intro rolled report
  constructor
  · intro ρ' _ r' agrees
    have hkinds := kinds_ofGroup system g r r'
    exact congrArg (Text.join ['\n']) (agrees.members_eq hkinds shown low)
  · intro settings text read
    have plain : ∀ roll ∈ rolled.rolls, roll.IsPlain := isPlain_of_mem_ofGroup system read r
    have nonempty : rolled.rolls ≠ [] := by
      have hlength : rolled.rolls.length = g.dice.length := length_rolls_ofGroup system g r
      rw [← List.length_pos_iff, hlength, read, List.length_pos_iff]
      exact Group.diceOfTokens_ne_nil _ _
    rw [Report.splitOn_group shown low plain nonempty]
    exact ⟨Report.members_eq shown low rolled, Report.isLine_of_mem_members shown low plain⟩

end

/-- A missed attack and a critical hit, each with damage: only the damage after the hit shows. -/
theorem report_hides_missed_damage_bow :
    let settings : Settings := .forSystem .pathfinder
    let e := Engine.ofSettings settings
    let text := "1d20+7 ac 18 bow; 2d6+4 fire; 1d20 ac 5; 1d6".toList
    let rolled (faces : List Nat) := (ofGroup e.system (e.parse text) (⟨faces, 0⟩ : Script)).1
    let report (faces : List Nat) := Report.group e.system .m (rolled faces)
    ((rolled [5, 3, 5, 20, 4]).totals = [12, 12, 20, 8] ∧
      (rolled [5, 6, 6, 20, 4]).totals = [12, 16, 20, 8] ∧
      (rolled [5, 3, 5, 20, 4]).AgreesButMissed (rolled [5, 6, 6, 20, 4])) ∧
    report [5, 3, 5, 20, 4] = report [5, 6, 6, 20, 4] ∧
    (report [5, 3, 5, 20, 4]).splitOn '\n' =
      ["[failure] (12) \"bow\" ← 1d20+7 AC 18".toList,
        "[critical-success] (20) ← 1d20 AC 5".toList,
        "[critical-damage] [dice] (8) ← 1d6*2".toList] := by
  intro settings e text rolled report
  have agrees : (rolled [5, 3, 5, 20, 4]).AgreesButMissed (rolled [5, 6, 6, 20, 4]) := by
    decide +kernel
  obtain ⟨hreport, hlines⟩ := report_hides_missed_damage e.system e.system (e.parse text)
    (⟨[5, 3, 5, 20, 4], 0⟩ : Script) (by decide : Verbosity.m < .xl)
  refine ⟨⟨by decide +kernel, by decide +kernel, agrees⟩, ?_, ?_⟩
  · exact hreport (⟨[5, 6, 6, 20, 4], 0⟩ : Script) agrees
  · exact (hlines settings text rfl).1.trans (by decide +kernel)

end GroupRoll

end Tabletop
