import Mathlib
import Tabletop.Proofs.Roll.Selected
import Tabletop.Report

/-!
# Labels of the dice in a pool

Each die of a pool has a label, by one table for regular dice and another one for hunger dice; the
most telling report lists the labels beside the faces. A pool is counted and graded by limits for
faces, without a look at the tables. Both agree: the successes and the grade of a pool can be read
off the labels, as long as no face is below 1.
-/

namespace Tabletop

namespace Pool

def baseLabels (p : Pool) : List Grade := p.base.map baseDieGrade

def hungerLabels (p : Pool) : List Grade := p.hunger.map hungerDieGrade

/-- The labels of all dice, those of hunger dice last. -/
def labels (p : Pool) : List Grade := p.baseLabels ++ p.hungerLabels

/-- Which grade a pool earns by a test of a total, as its labels tell it. -/
def Earns (p : Pool) (test : Option Test) (total : Int) : Grade → Prop
  | .unknown => test = none
  | .messyCritical => (∃ t ∈ test, t.passes total) ∧ 2 ≤ p.labels.countP Grade.isCritical ∧
      ∃ label ∈ p.hungerLabels, label.isCritical
  | .criticalSuccess => (∃ t ∈ test, t.passes total) ∧ 2 ≤ p.labels.countP Grade.isCritical ∧
      ∀ label ∈ p.hungerLabels, ¬label.isCritical
  | .success => (∃ t ∈ test, t.passes total) ∧ p.labels.countP Grade.isCritical < 2
  | .bestialFailure => (∃ t ∈ test, ¬t.passes total) ∧ .bestialFailure ∈ p.hungerLabels
  | .failure => (∃ t ∈ test, ¬t.passes total) ∧ .bestialFailure ∉ p.hungerLabels
  | .criticalFailure => False

theorem isSuccess_baseDieGrade (face : Nat) :
    (baseDieGrade face).isSuccess = decide (successFace ≤ face) := by
  rw [baseDieGrade]
  by_cases hlow : face < successFace
  · rw [if_pos hlow, decide_eq_false (Nat.not_le.mpr hlow)]
    rfl
  · rw [if_neg hlow, decide_eq_true (Nat.not_lt.mp hlow)]
    split <;> rfl

theorem isCritical_baseDieGrade (face : Nat) :
    (baseDieGrade face).isCritical = decide (criticalFace ≤ face) := by
  have hlimits : successFace ≤ criticalFace := by decide
  rw [baseDieGrade]
  by_cases hhigh : criticalFace ≤ face
  · rw [if_neg (Nat.not_lt.mpr (hlimits.trans hhigh)), if_neg (Nat.not_lt.mpr hhigh),
      decide_eq_true hhigh]
    rfl
  · rw [if_pos (Nat.not_le.mp hhigh), decide_eq_false hhigh]
    split <;> rfl

/-- Apart from what its grades are called, a hunger die succeeds like a regular one. -/
theorem hungerDieGrade_like_baseDieGrade (face : Nat) :
    (hungerDieGrade face).isSuccess = (baseDieGrade face).isSuccess ∧
      (hungerDieGrade face).isCritical = (baseDieGrade face).isCritical := by
  rw [hungerDieGrade, baseDieGrade]
  by_cases hone : face ≤ 1
  · have hlow : face < successFace := hone.trans_lt (by decide)
    rw [if_pos hone, if_pos hlow]
    exact ⟨rfl, rfl⟩
  · rw [if_neg hone]
    split
    · exact ⟨rfl, rfl⟩
    · split <;> exact ⟨rfl, rfl⟩

theorem isSuccess_hungerDieGrade (face : Nat) :
    (hungerDieGrade face).isSuccess = decide (successFace ≤ face) :=
  (hungerDieGrade_like_baseDieGrade face).1.trans (isSuccess_baseDieGrade face)

theorem isCritical_hungerDieGrade (face : Nat) :
    (hungerDieGrade face).isCritical = decide (criticalFace ≤ face) :=
  (hungerDieGrade_like_baseDieGrade face).2.trans (isCritical_baseDieGrade face)

theorem hungerDieGrade_eq_bestialFailure_iff (face : Nat) :
    hungerDieGrade face = .bestialFailure ↔ face ≤ 1 := by
  rw [hungerDieGrade]
  split
  · next h => exact iff_of_true rfl h
  · next h => exact iff_of_false (by split <;> [skip; split] <;> simp) h

/-- Labels are counted as the faces that they stand for. -/
theorem countP_labels (p : Pool) {label : Grade → Bool} {face : Nat → Bool}
    (base : ∀ n, label (baseDieGrade n) = face n)
    (hunger : ∀ n, label (hungerDieGrade n) = face n) :
    p.labels.countP label = p.dice.countP face := by
  have hbase : label ∘ baseDieGrade = face := funext base
  have hhunger : label ∘ hungerDieGrade = face := funext hunger
  rw [labels, dice, List.countP_append, List.countP_append, baseLabels, hungerLabels,
    List.countP_map, List.countP_map, hbase, hhunger]

theorem countP_isCritical_labels (p : Pool) : p.labels.countP Grade.isCritical = p.criticals :=
  p.countP_labels isCritical_baseDieGrade isCritical_hungerDieGrade

/-- Successes are counted as the labels say. -/
theorem successes_eq (p : Pool) :
    p.successes = p.labels.countP Grade.isSuccess + 2 * (p.labels.countP Grade.isCritical / 2) := by
  rw [p.countP_isCritical_labels, p.countP_labels isSuccess_baseDieGrade isSuccess_hungerDieGrade]
  rfl

theorem any_hunger_critical (p : Pool) :
    (p.hunger.any fun face => criticalFace ≤ face) = p.hungerLabels.any Grade.isCritical := by
  rw [hungerLabels, List.any_map]
  refine congrArg p.hunger.any (funext fun face => ?_)
  rw [Function.comp_apply, isCritical_hungerDieGrade]

/-- No face is below 1, so the only bestial one is a 1. -/
theorem contains_one_iff (p : Pool) (faces : ∀ face ∈ p.hunger, 1 ≤ face) :
    p.hunger.contains 1 = true ↔ .bestialFailure ∈ p.hungerLabels := by
  rw [List.contains_iff_mem, hungerLabels, List.mem_map]
  constructor
  · intro h
    exact ⟨1, h, (hungerDieGrade_eq_bestialFailure_iff 1).mpr (Nat.le_refl 1)⟩
  · rintro ⟨face, hface, hlabel⟩
    have hle := (hungerDieGrade_eq_bestialFailure_iff face).mp hlabel
    rwa [Nat.le_antisymm hle (faces face hface)] at hface

theorem grade_eq_labels_of_passes (p : Pool) {t : Test} {total : Int} (h : t.passes total) :
    p.grade (some t) total =
      if p.labels.countP Grade.isCritical < 2 then .success
      else if p.hungerLabels.any Grade.isCritical then .messyCritical
      else .criticalSuccess := by
  rw [p.grade_of_passes h, p.countP_isCritical_labels, ← p.any_hunger_critical]

theorem grade_eq_labels_of_fails (p : Pool) (faces : ∀ face ∈ p.hunger, 1 ≤ face) {t : Test}
    {total : Int} (h : ¬t.passes total) :
    p.grade (some t) total =
      if .bestialFailure ∈ p.hungerLabels then .bestialFailure else .failure := by
  simp only [p.grade_of_fails h, p.contains_one_iff faces]

/-- A pool is graded as its labels tell it. -/
theorem grade_eq_iff (p : Pool) (faces : ∀ face ∈ p.hunger, 1 ≤ face) (test : Option Test)
    (total : Int) (g : Grade) : p.grade test total = g ↔ p.Earns test total g := by
  constructor
  · rintro rfl
    cases test with
    | none => rfl
    | some t =>
      by_cases passes : t.passes total
      · have hpasses : ∃ u ∈ some t, u.passes total := ⟨t, rfl, passes⟩
        rw [p.grade_eq_labels_of_passes passes]
        split
        · next few => exact ⟨hpasses, few⟩
        · next many =>
          split
          · next messy => exact ⟨hpasses, Nat.not_lt.mp many, List.any_eq_true.mp messy⟩
          · next clean =>
            have clean := List.any_eq_false.mp (Bool.eq_false_iff.mpr clean)
            exact ⟨hpasses, Nat.not_lt.mp many, clean⟩
      · have hfails : ∃ u ∈ some t, ¬u.passes total := ⟨t, rfl, passes⟩
        rw [p.grade_eq_labels_of_fails faces passes]
        split
        · next bestial => exact ⟨hfails, bestial⟩
        · next plain => exact ⟨hfails, plain⟩
  · intro h
    cases g with
    | unknown =>
      obtain rfl : test = none := h
      rfl
    | messyCritical =>
      obtain ⟨⟨t, rfl, passes⟩, many, messy⟩ := h
      rw [p.grade_eq_labels_of_passes passes, if_neg (Nat.not_lt.mpr many),
        if_pos (List.any_eq_true.mpr messy)]
    | criticalSuccess =>
      obtain ⟨⟨t, rfl, passes⟩, many, clean⟩ := h
      rw [p.grade_eq_labels_of_passes passes, if_neg (Nat.not_lt.mpr many),
        List.any_eq_false.mpr clean]
      rfl
    | success =>
      obtain ⟨⟨t, rfl, passes⟩, few⟩ := h
      rw [p.grade_eq_labels_of_passes passes, if_pos few]
    | bestialFailure =>
      obtain ⟨⟨t, rfl, fails⟩, bestial⟩ := h
      rw [p.grade_eq_labels_of_fails faces fails, if_pos bestial]
    | failure =>
      obtain ⟨⟨t, rfl, fails⟩, plain⟩ := h
      rw [p.grade_eq_labels_of_fails faces fails, if_neg plain]
    | criticalFailure => exact h.elim

/-- The pool of rolled parts: all kept dice in order, and the last ones of them, as many as the
parts ask for and there are, are hunger dice. -/
theorem split_ofParts (parts : List PartRoll) :
    (ofParts parts).base ++ (ofParts parts).hunger = keptDice parts ∧
      (ofParts parts).hunger.length = min (hungerCount parts) (keptDice parts).length := by
  refine ⟨List.take_append_drop _ _, ?_⟩
  rw [ofParts, List.length_drop]
  omega

/-- The dice of a pool in order: none is missing, high faces come first, and on ties hunger dice. -/
theorem sorted_spec (p : Pool) :
    p.sorted.Perm (p.base.map (·, false) ++ p.hunger.map (·, true)) ∧
      p.sorted.Pairwise fun a b => b.1 ≤ a.1 ∧ (b.1 = a.1 → b.2 = true → a.2 = true) := by
  have hunger_first : (p.hunger.map (·, true) ++ p.base.map (·, false)).Pairwise
      fun a b : Nat × Bool => b.2 = true → a.2 = true := by
    refine List.pairwise_append.mpr ⟨?_, ?_, fun a ha _ _ _ => ?_⟩
    · exact List.pairwise_map.mpr (List.pairwise_of_forall fun _ _ _ => rfl)
    · exact List.pairwise_map.mpr (List.pairwise_of_forall fun _ _ h => h)
    · obtain ⟨face, -, rfl⟩ := List.mem_map.mp ha
      rfl
  have high_first : p.sorted.Pairwise fun a b => DropKeep.before .highest a.1 b.1 = true :=
    List.pairwise_mergeSort (fun a b c => DropKeep.before_trans a.1 b.1 c.1)
      (fun a b => DropKeep.before_total a.1 b.1) _
  refine ⟨(List.mergeSort_perm _ _).trans List.perm_append_comm, List.Pairwise.and ?_ ?_⟩
  · exact high_first.imp of_decide_eq_true
  · refine List.pairwise_iff_forall_sublist.mpr fun {a b} hpair hface => ?_
    -- dice that show the same face stand as they stood before
    have hsame := hpair.filter fun d => d.1 == a.1
    have hstay := DropKeep.filter_mergeSort .highest Prod.fst (p.hunger.map (·, true) ++
      p.base.map (·, false)) a.1
    have hboth : [a, b].filter (fun d => d.1 == a.1) = [a, b] := by simp [hface]
    rw [hboth] at hsame
    have hbefore := (hstay ▸ hsame).trans List.filter_sublist
    exact List.pairwise_iff_forall_sublist.mp hunger_first hbefore

end Pool

namespace Report

def labelled (faces : List Nat) (labels : List Grade) : Text :=
  Text.join ", ".toList (List.zipWith (fun face label =>
    Decimal.ofNat face ++ " (".toList ++ label.label.toList ++ [')']) faces labels)

theorem poolFaces_xxl (grade : Nat → Grade) (dice : List Nat) :
    poolFaces .xxl grade dice = labelled dice (dice.map grade) := by
  rw [poolFaces, if_neg (by decide), labelled, List.zipWith_map_right, List.zipWith_self]

end Report

namespace Pool

/-- The pool of rolled parts holds all their kept dice in order, the last ones as hunger dice, as
many as the parts ask for and there are. Its successes and its grade under any test are those that
the labels of its dice tell, which the report lists at `xxl`. Put in order, high dice come first,
and hunger dice come before regular ones that show the same. -/
theorem ofParts_agrees_with_labels {parts : List PartRoll}
    (faces : ∀ p ∈ parts, ∀ face ∈ p.faces, 1 ≤ face) :
    let pool := ofParts parts
    let kept := (parts.filter fun p => p.part.hasDice).flatMap PartRoll.keptFaces
    let asked := (parts.filterMap fun p => p.part.hunger).sum
    (pool.base ++ pool.hunger = kept ∧ pool.hunger.length = min asked kept.length) ∧
      pool.successes =
        pool.labels.countP Grade.isSuccess + 2 * (pool.labels.countP Grade.isCritical / 2) ∧
      (∀ test total grade, pool.grade test total = grade ↔ pool.Earns test total grade) ∧
      (∀ roll : Roll, roll.parts = parts → Report.details .vampire .xxl roll =
        ("  base: ".toList ++ Report.labelled pool.base pool.baseLabels) ::
          if pool.hunger = [] then []
          else ["  hunger: ".toList ++ Report.labelled pool.hunger pool.hungerLabels]) ∧
      pool.sorted.Perm (pool.base.map (·, false) ++ pool.hunger.map (·, true)) ∧
      pool.sorted.Pairwise fun a b => b.1 ≤ a.1 ∧ (b.1 = a.1 → b.2 = true → a.2 = true) := by
  intro pool kept asked
  have hsplit : pool.base ++ pool.hunger = kept ∧ pool.hunger.length = min asked kept.length :=
    split_ofParts parts
  have hhunger : ∀ face ∈ pool.hunger, 1 ≤ face := by
    intro face hface
    have hkept : face ∈ kept := hsplit.1 ▸ List.mem_append_right _ hface
    obtain ⟨p, hp, hface⟩ := List.mem_flatMap.mp hkept
    obtain ⟨die, hdie, rfl⟩ := List.mem_map.mp hface
    exact faces p (List.mem_filter.mp hp).1 _ (List.mem_map_of_mem (List.mem_filter.mp hdie).1)
  refine ⟨hsplit, pool.successes_eq, fun test total grade => ?_, ?_, pool.sorted_spec⟩
  · exact pool.grade_eq_iff hhunger test total grade
  · rintro roll rfl
    rw [Report.details, Report.poolDetails, Report.poolFaces_xxl, Report.poolFaces_xxl]
    simp only [List.isEmpty_iff]
    rfl

/-- The better two of three dice, the last of them for hunger, and two more dice with one for
hunger: both hunger dice come from the second part. -/
theorem ofParts_agrees_with_labels_two_parts :
    let parts : List PartRoll :=
      [.ofFaces { count := 3, sides := 10, dropKeep := some ⟨.keep, .highest, 2⟩, hunger := some 1 }
          [10, 2, 10],
        .ofFaces (.flat .plus 1) [], .ofFaces { count := 2, sides := 10, hunger := some 1 } [1, 10]]
    let pool := ofParts parts
    let test : Test := ⟨.vs, .ge, 3, false⟩
    (∀ p ∈ parts, ∀ face ∈ p.faces, 1 ≤ face) ∧
      (pool.base = [10, 10] ∧ pool.hunger = [1, 10] ∧ pool.modifier = 1) ∧
      pool.successes = 3 + 2 * (3 / 2) ∧
      pool.grade (some test) 6 = .messyCritical ∧ pool.grade (some test) 2 = .bestialFailure := by
  intro parts pool test
  have faces : ∀ p ∈ parts, ∀ face ∈ p.faces, 1 ≤ face := by
    simp only [parts, List.forall_mem_cons, PartRoll.faces_ofFaces]
    decide
  have hpool : pool = ⟨[10, 10], [1, 10], 1⟩ := by
    simp only [pool, parts]
    cbv
  have hlabels : pool.labels =
      [.criticalSuccess, .criticalSuccess, .bestialFailure, .messyCritical] := by rw [hpool]; decide
  have hhunger : pool.hungerLabels = [.bestialFailure, .messyCritical] := by rw [hpool]; decide
  obtain ⟨-, hsuccesses, hgrade, -⟩ := ofParts_agrees_with_labels faces
  refine ⟨faces, ?_, ?_, (hgrade _ _ _).mpr ?_, (hgrade _ _ _).mpr ?_⟩
  · rw [hpool]
    exact ⟨rfl, rfl, rfl⟩
  · rw [hsuccesses, hlabels]
    decide
  · refine ⟨⟨test, rfl, by decide⟩, ?_, ?_⟩
    · rw [hlabels]
      decide
    · rw [hhunger]
      exact ⟨.messyCritical, by decide, rfl⟩
  · refine ⟨⟨test, rfl, by decide⟩, ?_⟩
    rw [hhunger]
    decide

end Pool

end Tabletop
