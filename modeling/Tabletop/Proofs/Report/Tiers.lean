import Mathlib
import Tabletop.Proofs.Roll.Selected
import Tabletop.Report

/-!
# What each verbosity adds

From the second lowest verbosity on, a report on a roll goes on where that at the verbosity below it
ends. A breakdown lists dice as they are listed without details, so it reads the same wherever it is
shown. Only the details differ: the dice of a part are listed highest first, and at the highest
verbosity in the order of the roll. Each die is written alike in both lists.
-/

namespace Tabletop

namespace Report

variable {verbosity : Verbosity}

def listed (verbosity : Verbosity) (p : PartRoll) : List Text :=
  (shownDice verbosity p).map (die verbosity p.part.sides)

/-- All verbosities with details write a die alike. -/
theorem die_of_details (h : .xl ≤ verbosity) (sides : Nat) :
    die verbosity sides = die .xxl sides := by
  funext d
  simp only [die, h, show Verbosity.xl ≤ .xxl by decide]

/-- At the highest verbosity, dice are listed in the order of the roll. -/
theorem shownDice_xxl (p : PartRoll) : shownDice .xxl p = p.dice :=
  if_neg fun h => absurd h.1 (by decide)

theorem shownDice_of_unsorted {p : PartRoll} (h : p.part.unsorted = true) :
    shownDice verbosity p = p.dice := if_neg (by simp [h])

theorem shownDice_perm (verbosity : Verbosity) (p : PartRoll) :
    (shownDice verbosity p).Perm p.dice := by
  rw [shownDice]
  split
  · exact List.mergeSort_perm _ _
  · exact .refl _

/-- Below the highest verbosity, dice are listed highest first unless the part wants them as they
were rolled. -/
theorem pairwise_shownDice (low : verbosity < .xxl) {p : PartRoll} (h : p.part.unsorted = false) :
    (shownDice verbosity p).Pairwise fun a b => b.value ≤ a.value := by
  have hsorted := List.pairwise_mergeSort
    (fun a b c : Die => DropKeep.before_trans (e := .highest) a.value b.value c.value)
    (fun a b => DropKeep.before_total a.value b.value) p.dice
  rw [shownDice, if_pos ⟨low, h⟩]
  exact hsorted.imp of_decide_eq_true

/-- Without details, all verbosities list the same dice alike. -/
theorem listed_of_low (low : verbosity < .xl) (p : PartRoll) :
    listed verbosity p = listed .l p := by
  have hshort : verbosity < .xxl := Nat.lt_trans low (by decide)
  have hplain : ¬Verbosity.xl ≤ verbosity := Nat.not_le.mpr low
  have hdie : die verbosity p.part.sides = die .l p.part.sides := by
    funext d
    simp only [die, hplain, show ¬Verbosity.xl ≤ .l by decide]
  have hdice : shownDice verbosity p = shownDice .l p := by
    simp only [shownDice, hshort, show Verbosity.l < .xxl by decide]
  rw [listed, listed, hdie, hdice]

theorem term_of_low (low : verbosity < .xl) : term verbosity = term .l := by
  funext p
  have hfaces : faces verbosity p = faces .l p := congrArg (Text.join _) (listed_of_low low p)
  rw [term, term, hfaces]

/-- A breakdown reads the same wherever it is shown. -/
theorem breakdownAt_eq (s : System) (verbosity : Verbosity) (r : Roll) :
    breakdownAt s verbosity r = breakdown s r := by
  have hterms (verbosity : Verbosity) (low : verbosity < .xl) (parts : List PartRoll) :
      terms verbosity parts = terms .l parts := by
    cases parts with
    | nil => rfl
    | cons p rest => rw [terms, terms, term_of_low low]
  have hplain : plainBreakdownAt verbosity r = plainBreakdown r := by
    have hlow : (if verbosity ≤ .l then verbosity else .l) < Verbosity.xl := by
      split
      · next h => exact Nat.lt_of_le_of_lt h (by decide)
      · decide
    exact hterms _ hlow _
  cases s with
  | vampire => rfl
  | generic | pathfinder => exact hplain

theorem partLine_prefix (verbosity : Verbosity) (p : PartRoll) :
    "  ".toList ++ p.part.text ++ ": ".toList ++ Text.join ", ".toList (listed verbosity p) ++
      " = ".toList <+: partLine verbosity p := by
  unfold partLine
  exact (List.prefix_append _ (Decimal.ofInt p.total)).trans (List.prefix_append _ _)

variable (s : System) (r : Roll)

theorem roll_xs : roll s .xs r = outcome r := by
  simp +decide [roll]

theorem roll_s : roll s .s r = roll s .xs r ++ descriptionPiece r := by
  simp +decide [roll]

theorem roll_m : roll s .m r = roll s .s r ++ expressionPiece r := by
  simp +decide [roll]

theorem roll_l : roll s .l r = roll s .m r ++ breakdownPiece s .l r := by
  simp +decide [roll]

theorem roll_of_details (h : .xl ≤ verbosity) :
    roll s verbosity r = roll s .l r ++ detailsPiece s verbosity r := by
  have hbreakdown : breakdownPiece s verbosity r = breakdownPiece s .l r := by
    rw [breakdownPiece, breakdownPiece, breakdownAt_eq, breakdownAt_eq]
  cases verbosity <;> first | exact absurd h (by decide) | simp +decide [roll, hbreakdown]

def criticalNote (r : Roll) : Text :=
  match r.critical with
  | some method => '\n' :: "  critical damage: ".toList ++ method.name.toList
  | none => []

/-- The lines of a roll of added parts are those of the parts with dice, and the last one tells how
it was raised. -/
theorem detailsPiece_of_plain (plain : s.kind ≠ .vampire) (verbosity : Verbosity) :
    detailsPiece s verbosity r =
      ((r.parts.filter fun p => p.part.hasDice).flatMap fun p => '\n' :: partLine verbosity p) ++
        criticalNote r := by
  have hdetails : details s verbosity r = plainDetails verbosity r := by
    cases s with
    | vampire => exact absurd rfl plain
    | generic | pathfinder => rfl
  rw [detailsPiece, hdetails, plainDetails, List.flatMap_append, List.flatMap_map, criticalNote]
  cases r.critical with
  | none => rfl
  | some method => simp

/-- From the second lowest verbosity on, the report on a roll goes on where that at the verbosity
below it ends; the two verbosities with details both go on from the one below them. The details of
added parts are a line for each part with dice, in which the dice are listed, and what a raised roll
says of that. All dice are written alike at both verbosities, in the order of the roll at the
highest one and highest first at the other, unless the part wants them as they were rolled. -/
theorem roll_tiers :
    (roll s .xs r <+: roll s .s r ∧ roll s .s r <+: roll s .m r ∧ roll s .m r <+: roll s .l r ∧
      roll s .l r <+: roll s .xl r ∧ roll s .l r <+: roll s .xxl r) ∧
    (s.kind ≠ .vampire → ∀ verbosity, .xl ≤ verbosity → roll s verbosity r = roll s .l r ++
      (((r.parts.filter fun p => p.part.hasDice).flatMap fun p => '\n' :: partLine verbosity p) ++
        criticalNote r)) ∧
    ∀ p : PartRoll,
      (∀ verbosity, "  ".toList ++ p.part.text ++ ": ".toList ++
        Text.join ", ".toList (listed verbosity p) ++ " = ".toList <+: partLine verbosity p) ∧
      listed .xxl p = p.dice.map (die .xxl p.part.sides) ∧ (listed .xl p).Perm (listed .xxl p) ∧
      ∃ shown : List Die, listed .xl p = shown.map (die .xxl p.part.sides) ∧
        if p.part.unsorted then shown = p.dice
        else shown.Perm p.dice ∧ shown.Pairwise fun a b => b.value ≤ a.value := by
  have extends_l {verbosity : Verbosity} (h : .xl ≤ verbosity) :
      roll s .l r <+: roll s verbosity r := ⟨_, (roll_of_details s r h).symm⟩
  refine ⟨⟨⟨_, (roll_s s r).symm⟩, ⟨_, (roll_m s r).symm⟩, ⟨_, (roll_l s r).symm⟩,
    extends_l (by decide), extends_l (by decide)⟩, fun plain verbosity h => ?_,
    fun p => ⟨fun verbosity => partLine_prefix verbosity p, ?_, ?_, ?_⟩⟩
  · rw [roll_of_details s r h, detailsPiece_of_plain s r plain]
  · rw [listed, shownDice_xxl]
  · rw [listed, listed, shownDice_xxl, die_of_details (by decide)]
    exact (shownDice_perm .xl p).map _
  · refine ⟨shownDice .xl p, by rw [listed, die_of_details (by decide)], ?_⟩
    split
    · next h => exact shownDice_of_unsorted h
    · next h =>
      exact ⟨shownDice_perm .xl p, pairwise_shownDice (by decide) (Bool.eq_false_of_not_eq_true h)⟩

/-- Of the best three of four dice, the dropped one is listed last, and at the highest verbosity
where it was rolled. -/
theorem roll_tiers_dropped :
    let p : Part := { count := 4, sides := 6, dropKeep := some ⟨.keep, .highest, 3⟩ }
    let r := Roll.ofParts .generic [.ofFaces p [4, 1, 6, 4]]
    let short := "[dice] (14) ← 4d6kh3 | [6, 4, 4, ~~1~~]".toList
    (System.generic.kind ≠ .vampire ∧ Verbosity.xl ≤ .xxl) ∧ roll .generic .l r = short ∧
      roll .generic .xl r = short ++ "\n  4d6kh3: **6**, 4, 4, ~~1~~ = 14".toList ∧
      roll .generic .xxl r = short ++ "\n  4d6kh3: 4, ~~1~~, **6**, 4 = 14".toList := by
  intro p r short
  have plain : System.generic.kind ≠ .vampire := by decide
  have hshort : roll .generic .l r = short := by cbv
  obtain ⟨-, details, -⟩ := roll_tiers .generic r
  refine ⟨⟨plain, by decide⟩, hshort, ?_, ?_⟩
  · rw [details plain .xl (by decide), hshort]
    exact congrArg (short ++ ·) (by cbv)
  · rw [details plain .xxl (by decide), hshort]
    exact congrArg (short ++ ·) (by cbv)

end Report

end Tabletop
