import Tabletop.Proofs.Roll.Fixed
import Tabletop.Proofs.Roll.Printed
import Tabletop.Proofs.Written.Entries

/-!
# What the written form of a roll comes to

The entries of an expression are rolled like its parts and come to a total of their own, with the
sign of each entry applied to what it shows. So expressions with the same written form show the same
total of the same faces. The total of the roll is that one exactly as far as each part changes it as
its entries say. Three kinds of parts may not: a factor below zero is written without its sign, a
factor of zero is not written at all, and the modifier of dice is written as if it stood for itself,
while it takes part in their sign.
-/

namespace Tabletop

open Written

/-- The terms from left to right, with each sign applied to its own term, within the range of
totals. -/
def Worth.limitedTotal (terms : List Worth) : Int :=
  terms.foldl (fun total a => a.sign.apply total a.value) 0

namespace Written

variable {ρ : Type} [Roller ρ]

def Entry.roll (e : Entry) (r : ρ) : Worth × ρ :=
  match e.amount with
  | .nothing => (⟨e.sign, 0, none⟩, r)
  | .number n => (⟨e.sign, n, none⟩, r)
  | .dice count sides dropKeep =>
    let (dice, r) := PartRoll.roll { count, sides, dropKeep } r
    (⟨e.sign, dice.keptSum, some sides⟩, r)

end Written

namespace PartRoll

def shown (r : PartRoll) : List Worth :=
  if r.part.sides = 0 then
    if r.part.isWritten then [⟨r.part.shownSign, r.part.modifier.natAbs, none⟩] else []
  else ⟨r.part.sign, r.keptSum, some r.part.sides⟩ :: Worth.ofModifier r.part.modifier

/-- The total that the written form of rolled parts shows. -/
def shownTotal (parts : List PartRoll) : Int := Worth.limitedTotal (parts.flatMap shown)

/-- A part changes a total as its entries say. A factor must be positive, or be zero and have a mark
that is written, unless there is nothing to multiply. It must not matter whether a modifier joins
its dice before these join the total or afterwards. -/
def Shows (total : Int) (r : PartRoll) : Prop :=
  if r.part.sides = 0 then
    r.part.sign = .times →
      total = 0 ∨ 0 < r.part.modifier ∨ r.part.modifier = 0 ∧ r.part.isWritten = true
  else
    r.part.modifier ≠ 0 → r.part.sign.apply total (Total.add r.keptSum r.part.modifier) =
      Total.add (r.part.sign.apply total r.keptSum) r.part.modifier

instance (total : Int) (r : PartRoll) : Decidable (Shows total r) := by
  delta Shows
  infer_instance

def AllShow (parts : List PartRoll) : Prop :=
  ∀ k (h : k < parts.length), Shows (joinedTotal (parts.take k)) parts[k]

instance (parts : List PartRoll) : Decidable (AllShow parts) := by
  delta AllShow
  infer_instance

section

variable {ρ : Type} [Roller ρ]

/-- The entries of a part are rolled as the part is. -/
theorem each_roll_entries {p : Part} (unfixed : p.fixed = none) (r : ρ) :
    Roller.each Entry.roll p.entries r = ((roll p r).1.shown, (roll p r).2) := by
  rw [Part.entries, shown, part_roll]
  by_cases hsides : p.sides = 0
  · have hstate : (roll p r).2 = r := by rw [roll, unfixed, if_pos hsides]
    rw [if_pos hsides, if_pos hsides, hstate]
    split
    · by_cases hmodifier : p.modifier = 0 <;> simp [hmodifier, Roller.each, Entry.roll]
    · rfl
  · have hdice (hunger crit : Option Nat) :
        Entry.roll ⟨p.sign, p.diceAmount, hunger, crit⟩ r =
          (⟨p.sign, (roll p r).1.keptSum, some p.sides⟩, (roll p r).2) := by
      let dice : Part := { count := p.count, sides := p.sides, dropKeep := p.dropKeep }
      have hroll : roll p r = (⟨p, (roll dice r).1.dice⟩, (roll dice r).2) :=
        roll_eq_of_dice_eq (p := dice) (q := p) rfl rfl rfl unfixed r
      rw [hroll]
      rfl
    rw [if_neg hsides, if_neg hsides, Worth.ofModifier]
    split
    · rw [Roller.each, hdice]
      rfl
    · rw [Roller.each, hdice]
      rfl

/-- The entries of parts are rolled as the parts are. -/
theorem each_roll_flatMap_entries {parts : List Part} (unfixed : ∀ p ∈ parts, p.fixed = none)
    (r : ρ) :
    Roller.each Entry.roll (parts.flatMap Part.entries) r =
      ((Roller.each roll parts r).1.flatMap shown, (Roller.each roll parts r).2) :=
  Roller.each_flatMap (fun p hp r => each_roll_entries (unfixed p hp) r) r

end

structure IsDrawn (r : PartRoll) : Prop where
  modifier : Total.InRange r.part.modifier
  keptSum : (r.keptSum : Int) ≤ Total.greatest
  sideless : r.part.sides = 0 → r.keptSum = 0

theorem shownTotal_concat (before : List PartRoll) (r : PartRoll) :
    shownTotal (before ++ [r]) =
      r.shown.foldl (fun total a => a.sign.apply total a.value) (shownTotal before) := by
  rw [shownTotal, List.flatMap_append, List.flatMap_singleton, Worth.limitedTotal,
    List.foldl_append]
  rfl

variable {r : PartRoll} {total : Int}

/-- A number that is added or subtracted is written with the sign that it has in all; a factor is
written as if it were not negative. -/
theorem apply_shownSign_iff {p : Part} (sides : p.sides = 0) :
    p.shownSign.apply total p.modifier.natAbs = p.sign.apply total p.modifier ↔
      (p.sign = .times → total = 0 ∨ 0 ≤ p.modifier) := by
  rw [Part.shownSign]
  by_cases hneg : p.modifier < 0
  · rw [if_pos ⟨sides, hneg⟩, Int.ofNat_natAbs_of_nonpos (Int.le_of_lt hneg)]
    cases p.sign with
    | plus => exact iff_of_true (congrArg Total.clamp (Int.sub_neg ..)) (by simp)
    | minus => exact iff_of_true (congrArg Total.clamp Int.sub_eq_add_neg.symm) (by simp)
    | times =>
      have hzero : total * p.modifier = 0 ↔ total = 0 := by
        rw [Int.mul_eq_zero]
        omega
      simp only [Sign.apply, Total.mul, Int.mul_neg, forall_const]
      rw [← hzero]
      simp only [Total.clamp, Total.greatest, Total.least]
      omega
  · rw [if_neg fun h => hneg h.2, Int.natAbs_of_nonneg (by omega)]
    exact iff_of_true rfl fun _ => .inr (by omega)

/-- The entries of a part that was drawn change a total as the part itself does exactly if the part
shows what it is worth. -/
theorem IsDrawn.foldl_shown_iff (h : r.IsDrawn) (range : Total.InRange total) :
    r.shown.foldl (fun total a => a.sign.apply total a.value) total =
        r.part.sign.apply total r.total ↔ Shows total r := by
  rw [shown, Shows]
  by_cases hsides : r.part.sides = 0
  · have htotal : r.total = r.part.modifier := by
      rw [PartRoll.total, h.sideless hsides, Total.add, Int.natCast_zero, Int.zero_add,
        Total.clamp_of_inRange h.modifier]
    rw [if_pos hsides, if_pos hsides, htotal]
    cases hwritten : r.part.isWritten with
    | true =>
      rw [if_pos rfl, List.foldl_cons, List.foldl_nil, apply_shownSign_iff hsides]
      refine imp_congr_right fun _ => or_congr_right ?_
      rw [and_iff_left rfl]
      omega
    | false =>
      have hzero : r.part.modifier = 0 := by
        by_contra hmodifier
        simp [Part.isWritten, hmodifier] at hwritten
      rw [if_neg (by simp), List.foldl_nil, hzero]
      cases r.part.sign with
      | plus => simp [Sign.apply, Total.add, Total.clamp_of_inRange range]
      | minus => simp [Sign.apply, Total.sub, Total.clamp_of_inRange range]
      | times =>
        have hnothing : Total.clamp 0 = 0 := by decide
        simp [Sign.apply, Total.mul, hnothing]
  · rw [if_neg hsides, if_neg hsides, Worth.ofModifier]
    by_cases hmodifier : r.part.modifier = 0
    · rw [if_pos hmodifier, PartRoll.total, hmodifier, Total.add, Int.add_zero,
        Total.clamp_natCast h.keptSum]
      exact iff_of_true rfl (by simp)
    · rw [if_neg hmodifier, List.foldl_cons, List.foldl_cons, List.foldl_nil, Sign.apply_natAbs]
      exact eq_comm.trans (by simp [hmodifier, PartRoll.total])

/-- The written form of rolled parts shows the total of all their beginnings exactly where every
part shows what it does. -/
theorem shownTotal_take_iff {parts : List PartRoll} (drawn : ∀ r ∈ parts, r.IsDrawn) :
    (∀ k, shownTotal (parts.take k) = joinedTotal (parts.take k)) ↔ AllShow parts := by
  refine forall_take_iff_of_step (p := fun before r => Shows (joinedTotal before) r) rfl
    fun k hk same => ?_
  rw [shownTotal_concat, joinedTotal_concat, same]
  exact (drawn _ (List.getElem_mem hk)).foldl_shown_iff (joinedTotal_inRange _)

end PartRoll

namespace Dice

open PartRoll

/-- An expression that was asked for and leaves all its dice to the roller. Its modifiers are
totals. -/
structure IsOpen (d : Dice) : Prop where
  defined : ∃ parts, IsDefined parts d
  unfixed : ∀ p ∈ d.parts, p.fixed = none
  range : ∀ p ∈ d.parts, Total.InRange p.modifier

/-- Parts that are built step by step and accepted as they are. -/
theorem isOpen_of_build {recipes : List (List Part.Step)} {d : Dice}
    (built : d = ⟨recipes.map Part.build⟩) (accepted : ofParts d.parts = .ok d)
    (unfixed : ∀ p ∈ d.parts, p.fixed = none) (range : ∀ p ∈ d.parts, Total.InRange p.modifier) :
    d.IsOpen := by
  subst built
  exact ⟨⟨_, .ofParts accepted⟩, unfixed, range⟩

theorem IsOpen.isDrawn {d : Dice} (h : d.IsOpen) (system : System) (s : Script) :
    ∀ r ∈ (Roll.ofDice system d s).1.parts, r.IsDrawn := by
  intro r hr
  obtain ⟨parts, defined⟩ := h.defined
  obtain ⟨p, hp, s', rfl⟩ := Roller.exists_of_mem_each hr
  obtain ⟨hsum, hsideless⟩ := keptSum_roll_bounds (h.unfixed p hp)
    (defined.isLimited p hp).count (defined.isLimited p hp).sides s'
  refine ⟨?_, hsum, ?_⟩ <;> rw [part_roll]
  · exact h.range p hp
  · exact hsideless

/-- Rolling an expression shows what rolling its entries does. -/
theorem IsOpen.each_roll_entries {d : Dice} (h : d.IsOpen) (system : System) (s : Script) :
    Roller.each Entry.roll d.entries s =
      ((Roll.ofDice system d s).1.parts.flatMap shown, (Roll.ofDice system d s).2) :=
  each_roll_flatMap_entries h.unfixed s

/-- Two expressions with the same written form, rolled with the same faces under plain rules. They
play the same faces, and their written form shows the same total of them. It shows the totals of
each roll and of all its beginnings exactly where every part shows what it does. Where that holds of
both rolls they have the same total, and where it holds of one, the other has this total exactly if
its own is the one that is shown. -/
theorem total_eq_of_text_eq {d d' : Dice} (first : d.IsOpen) (second : d'.IsOpen)
    (same : d.text = d'.text) (s : Script) :
    let rolled := Roll.ofDice .generic d s
    let rolled' := Roll.ofDice .generic d' s
    rolled.2 = rolled'.2 ∧ shownTotal rolled.1.parts = shownTotal rolled'.1.parts ∧
      (∀ roll ∈ [rolled.1, rolled'.1],
        (∀ k, shownTotal (roll.parts.take k) = joinedTotal (roll.parts.take k)) ↔
          AllShow roll.parts) ∧
      (AllShow rolled.1.parts → AllShow rolled'.1.parts → rolled.1.total = rolled'.1.total) ∧
      (AllShow rolled.1.parts →
        (rolled'.1.total = rolled.1.total ↔ rolled'.1.total = shownTotal rolled'.1.parts)) := by
  intro rolled rolled'
  have tested {d : Dice} (h : d.IsOpen) (tested : d.test?.isSome) : ∃ p ∈ d.parts, 0 < p.sides := by
    obtain ⟨parts, defined⟩ := h.defined
    obtain ⟨given, rfl, -⟩ := defined.exists_normalized
    exact exists_sides_of_tested tested
  have hentries := entries_eq_of_text_eq (tested first) (tested second) same
  have hrolled : (rolled.1.parts.flatMap shown, rolled.2) =
      (rolled'.1.parts.flatMap shown, rolled'.2) := by
    rw [← first.each_roll_entries .generic s, hentries, second.each_roll_entries .generic s]
  obtain ⟨hshown, hstate⟩ := Prod.mk.inj hrolled
  have hsame : shownTotal rolled.1.parts = shownTotal rolled'.1.parts :=
    congrArg Worth.limitedTotal hshown
  have hiff := shownTotal_take_iff (first.isDrawn .generic s)
  have hiff' := shownTotal_take_iff (second.isDrawn .generic s)
  have whole {d : Dice} (h : ∀ k, shownTotal ((Roll.ofDice .generic d s).1.parts.take k) =
      joinedTotal ((Roll.ofDice .generic d s).1.parts.take k)) :
      shownTotal (Roll.ofDice .generic d s).1.parts = (Roll.ofDice .generic d s).1.total := by
    have hlength := h (Roll.ofDice .generic d s).1.parts.length
    rw [List.take_length] at hlength
    exact hlength
  refine ⟨hstate, hsame, ?_, fun shows shows' => ?_, fun shows => ?_⟩
  · exact List.forall_mem_cons.mpr ⟨hiff, List.forall_mem_singleton.mpr hiff'⟩
  · exact (whole (hiff.mpr shows)).symm.trans (hsame.trans (whole (hiff'.mpr shows')))
  · rw [← hsame, whole (hiff.mpr shows)]

/-- A modifier of dice that are added, and the same number as a part of its own. -/
theorem total_eq_of_text_eq_regrouped :
    let built (recipes : List (List Part.Step)) : Dice := ⟨recipes.map Part.build⟩
    let joined := built [[.dice 1 6, .modifier 2], [.flat .times 3], [.dice 1 4, .sign .minus]]
    let apart := built [[.dice 1 6], [.flat .plus 2], [.flat .times 3], [.dice 1 4, .sign .minus]]
    let roll (d : Dice) := (Roll.ofDice .generic d (⟨[5, 3], 0⟩ : Script)).1
    (joined.IsOpen ∧ apart.IsOpen ∧ joined.text = "1d6+2*3-1d4".toList ∧
        apart.text = "1d6+2*3-1d4".toList ∧ AllShow (roll joined).parts ∧
        AllShow (roll apart).parts) ∧
      (roll joined).total = (roll apart).total ∧ (roll apart).total = 18 := by
  intro built joined apart roll
  have hjoined : joined.IsOpen := isOpen_of_build rfl rfl (by decide) (by decide)
  have hapart : apart.IsOpen := isOpen_of_build rfl rfl (by decide) (by decide)
  have htext : joined.text = "1d6+2*3-1d4".toList := by decide
  have htext' : apart.text = "1d6+2*3-1d4".toList := by decide
  have shows : AllShow (roll joined).parts := by decide
  have shows' : AllShow (roll apart).parts := by decide
  obtain ⟨-, -, -, htotal, -⟩ :=
    total_eq_of_text_eq hjoined hapart (htext.trans htext'.symm) ⟨[5, 3], 0⟩
  exact ⟨⟨hjoined, hapart, htext, htext', shows, shows'⟩, htotal shows shows', by decide⟩

/-- A factor below zero loses its sign, a factor of zero is left out, and the modifier of dice that
are subtracted is written as if it were added. -/
theorem total_eq_of_text_eq_lost :
    let built (recipes : List (List Part.Step)) : Dice := ⟨recipes.map Part.build⟩
    let factor (n : Int) := built [[.dice 1 6], [.flat .times n]]
    let alone := built [[.dice 1 6]]
    let joined := built [[.dice 1 8], [.dice 1 4, .sign .minus, .modifier 2]]
    let apart := built [[.dice 1 8], [.dice 1 4, .sign .minus], [.flat .plus 2]]
    let total (d : Dice) := (Roll.ofDice .generic d (⟨[5, 3], 0⟩ : Script)).1.total
    (∀ d ∈ [factor 2, factor (-2), alone, factor 0, joined, apart], d.IsOpen) ∧
      ((factor 2).text = (factor (-2)).text ∧ total (factor 2) = 10 ∧ total (factor (-2)) = -10) ∧
      (alone.text = (factor 0).text ∧ total alone = 5 ∧ total (factor 0) = 0) ∧
      (joined.text = apart.text ∧ total joined = 0 ∧ total apart = 4) := by
  intro built factor alone joined apart total
  have hfactor : (factor 2).IsOpen := isOpen_of_build rfl rfl (by decide) (by decide)
  have hnegative : (factor (-2)).IsOpen := isOpen_of_build rfl rfl (by decide) (by decide)
  have halone : alone.IsOpen := isOpen_of_build rfl rfl (by decide) (by decide)
  have hzero : (factor 0).IsOpen := isOpen_of_build rfl rfl (by decide) (by decide)
  have hjoined : joined.IsOpen := isOpen_of_build rfl rfl (by decide) (by decide)
  have hapart : apart.IsOpen := isOpen_of_build rfl rfl (by decide) (by decide)
  refine ⟨?_, by decide, by decide, by decide⟩
  simp only [List.forall_mem_cons, List.not_mem_nil, false_imp_iff, implies_true, and_true]
  exact ⟨hfactor, hnegative, halone, hzero, hjoined, hapart⟩

end Dice

end Tabletop
