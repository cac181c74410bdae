import Tabletop.Proofs.Group.Printed
import Tabletop.Proofs.Group.Totals
import Tabletop.Proofs.Roll.Printed

/-!
# Rolling what was read again

An expression that is written and read again is rolled with the same faces as the first one, and
its total is what the printed terms of the first one come to as they are read.
-/

namespace Tabletop

open Written

namespace PartRoll

/-- The test and the description have no part in what is rolled: the running total of bare parts is
that of the parts, with as many faces. -/
theorem each_roll_bare {ρ : Type} [Roller ρ] (parts : List Part) (r : ρ) :
    joinedTotal (Roller.each roll (parts.map Part.bare) r).1 =
        joinedTotal (Roller.each roll parts r).1 ∧
      (Roller.each roll (parts.map Part.bare) r).2 = (Roller.each roll parts r).2 := by
  rw [each_roll_map (f := Part.bare) (fun _ => rfl) (fun _ => rfl) (fun _ => rfl) (fun _ => rfl)]
  exact ⟨List.foldl_map, rfl⟩

/-- What is known of a part that was read is known of it after rolling. -/
theorem isRead_roll {p : Part} (h : p.IsRead) (s : Script) : (roll p s).1.IsRead := by
  obtain ⟨hsum, hsideless⟩ := keptSum_roll_bounds h.plain.1 h.count h.sides s
  refine ⟨?_, hsum, ?_⟩ <;> rw [part_roll]
  · exact h
  · exact hsideless

/-- The terms of a part are rolled as the part is. -/
theorem each_roll_terms {p : Part} (h : p.IsRead) (s : Script) :
    Roller.each Term.roll p.terms s = ((roll p s).1.worths, (roll p s).2) := by
  have hmodifier (n : Int) (s : Script) :
      Roller.each Term.roll (modifierTerms n) s = (Worth.ofModifier n, s) := by
    rw [modifierTerms, Worth.ofModifier]
    split
    · rfl
    · simp [Roller.each, Term.roll, Operand.roll]
  rw [Part.terms, worths, part_roll]
  by_cases hsides : 0 < p.sides
  · have hdie : roll (p.dieWord.part p.sign) s =
        (⟨p.dieWord.part p.sign, (roll p s).1.dice⟩, (roll p s).2) :=
      roll_eq_of_dice_eq (by simp [DieWord.part, Part.dieWord])
        (by simp [DieWord.part, Part.dieWord]) (Part.rule_dieWord p) h.plain.1.symm s
    have hterm : Term.roll ⟨.none, p.lead, .dice p.dieWord⟩ s =
        (⟨p.sign, (roll p s).1.keptSum, some p.sides⟩, (roll p s).2) := by
      have hroll : Term.roll ⟨.none, p.lead, .dice p.dieWord⟩ s =
          (⟨p.sign, (roll (p.dieWord.part p.sign) s).1.keptSum, some p.dieWord.sides.value⟩,
            (roll (p.dieWord.part p.sign) s).2) := rfl
      rw [hroll, hdie]
      simp only [Part.dieWord, Numeral.value_ofNat]
      rfl
    rw [if_pos hsides, if_pos hsides, Roller.each, hterm]
    simp only [hmodifier]
  · have hstate : (roll p s).2 = s := by
      rw [roll, h.plain.1, if_pos (by omega)]
    rw [if_neg hsides, if_neg hsides, hstate]
    split
    · rfl
    · have hvalue : (p.modifier.natAbs : Int) = p.modifier := by
        have := h.flat (by omega)
        omega
      simp [Roller.each, Term.roll, Operand.roll, hvalue, Part.lead]

/-- The terms of parts are rolled as the parts are. -/
theorem each_roll_flatMap_terms {parts : List Part} (h : ∀ p ∈ parts, p.IsRead) (s : Script) :
    Roller.each Term.roll (parts.flatMap Part.terms) s =
      ((Roller.each roll parts s).1.flatMap worths, (Roller.each roll parts s).2) :=
  Roller.each_flatMap (fun p hp s => each_roll_terms (h p hp) s) s

end PartRoll

namespace Written

/-- The terms that are heard are rolled as if all were. -/
theorem each_roll_heard (terms : List Term) (s : Script) :
    Roller.each Term.roll (heard terms) s =
      (Worth.heard (Roller.each Term.roll terms s).1, (Roller.each Term.roll terms s).2) := by
  cases terms with
  | nil => rfl
  | cons t rest =>
    rw [heard, Roller.each_cons, Worth.heard, Term.fades]
    cases hoperand : t.operand with
    | dice w =>
      have hsides : (t.roll s).1.sides.isNone = false := by
        rw [Term.roll, hoperand]
        rfl
      simp [hsides, Operand.isDice, Roller.each]
    | number n =>
      have hroll : t.roll s = (⟨t.lead.sign, n.value, none⟩, s) := by
        rw [Term.roll, hoperand]
        rfl
      rw [hroll]
      cases hsign : t.lead.sign <;> simp [Operand.isDice, Roller.each, hroll, hsign]

/-- The parts that terms are read as use up as many faces as the terms. -/
theorem snd_each_readOn {terms : List Term} (range : ∀ t ∈ terms, t.operand.InRange) (p : Part)
    (waits : Bool) (s : Script) :
    (Roller.each PartRoll.roll (readOn p waits terms) s).2 =
      (Roller.each Term.roll terms (PartRoll.roll p s).2).2 := by
  induction terms generalizing p waits s with
  | nil => rfl
  | cons t rest ih =>
    obtain ⟨ht, hrest⟩ := List.forall_mem_cons.mp range
    rw [readOn]
    split
    -- A number that joins changes neither the dice nor the faces that they use up.
    · rename_i hjoins
      obtain ⟨-, hjoins⟩ := Bool.and_eq_true_iff.mp hjoins
      obtain ⟨n, hoperand, -, -⟩ := number_of_joins hjoins
      have hroll (s : Script) : (t.roll s).2 = s := by rw [Term.roll, hoperand]; rfl
      rw [ih hrest, PartRoll.snd_roll_withModifier, Roller.each]
      simp only [hroll]
    · have hroll := roll_eq_of_inRange ht (PartRoll.roll p s).2
      simp only [Roller.each, hroll]
      exact ih hrest t.part t.operand.isDice _

/-- The parts that terms are read as come to what the terms come to as they are read, with as many
faces. -/
theorem each_roll_readParts {terms : List Term} (range : ∀ t ∈ terms, t.operand.InRange)
    (s : Script) :
    PartRoll.joinedTotal (Roller.each PartRoll.roll (readParts terms) s).1 =
        Worth.readTotal (Roller.each Term.roll terms s).1 ∧
      (Roller.each PartRoll.roll (readParts terms) s).2 = (Roller.each Term.roll terms s).2 := by
  cases terms with
  | nil => exact ⟨rfl, rfl⟩
  | cons t rest =>
    obtain ⟨ht, hrest⟩ := List.forall_mem_cons.mp range
    have hroll := roll_eq_of_inRange ht s
    refine ⟨?_, ?_⟩
    · rw [PartRoll.joinedTotal, readParts,
        foldl_readOn hrest (isSimple_part ht) modifier_part_of_isDice, Roller.each_cons, hroll,
        Worth.readTotal, Worth.pending, List.foldl_cons, Worth.Pending.add_of_apart fun _ => rfl]
      rfl
    · rw [readParts, snd_each_readOn hrest, Roller.each]
      simp only [hroll]

end Written

namespace Dice

/-- The total and the test of an expression that is written and read again. -/
theorem Rereads.ofDice {d d' : Dice} (h : d.Rereads d') (read : d.IsRead) (s : Script) :
    (Roll.ofDice .generic d' s).1.total =
        PartRoll.rereadTotal (Roll.ofDice .generic d s).1.parts ∧
      PartRoll.testOf (Roll.ofDice .generic d' s).1.parts =
        PartRoll.testOf (Roll.ofDice .generic d s).1.parts ∧
      (Roll.ofDice .generic d' s).2 = (Roll.ofDice .generic d s).2 := by
  obtain ⟨hbareTotal, hbareState⟩ := PartRoll.each_roll_bare d'.parts s
  obtain ⟨htotal, hstate⟩ := each_roll_readParts
    (fun t ht => read.inRange (mem_of_mem_heard ht) : ∀ t ∈ heard d.terms, _) s
  have hterms : Roller.each Term.roll d.terms s = _ :=
    PartRoll.each_roll_flatMap_terms read.parts s
  rw [h.parts] at hbareTotal hbareState
  rw [each_roll_heard, hterms] at htotal hstate
  refine ⟨?_, ?_, ?_⟩
  · exact hbareTotal.symm.trans htotal
  · have htest := h.test
    rw [PartRoll.testOf_eq, PartRoll.testOf_eq]
    change Part.testOf ((Roller.each PartRoll.roll d'.parts s).1.map PartRoll.part) =
      Part.testOf ((Roller.each PartRoll.roll d.parts s).1.map PartRoll.part)
    rw [PartRoll.map_part_each_roll, PartRoll.map_part_each_roll]
    exact htest
  · exact hbareState.symm.trans hstate

end Dice

/-- A roll comes to what the printed terms of another one come to, and to the same grade if it comes
to the same total. -/
structure Roll.Rereads (first again : Roll) : Prop where
  total : again.total = PartRoll.rereadTotal first.parts
  grade : again.total = first.total → again.grade = first.grade

namespace Dice

theorem Rereads.roll {d d' : Dice} (h : d.Rereads d') (read : d.IsRead) (s : Script) :
    (Roll.ofDice .generic d s).1.Rereads (Roll.ofDice .generic d' s).1 := by
  obtain ⟨htotal, htest, -⟩ := h.ofDice read s
  refine ⟨htotal, fun same => ?_⟩
  change Grade.ofTest (PartRoll.testOf (Roll.ofDice .generic d' s).1.parts)
      (Roll.ofDice .generic d' s).1.total =
    Grade.ofTest (PartRoll.testOf (Roll.ofDice .generic d s).1.parts)
      (Roll.ofDice .generic d s).1.total
  rw [htest, same]

/-- The rolls of a group whose members are read again. -/
theorem forall₂_each_ofDice {dice dice' : List Dice} (h : List.Forall₂ Dice.Rereads dice dice')
    (read : ∀ d ∈ dice, d.IsRead) (s : Script) :
    List.Forall₂ Roll.Rereads (Roller.each (Roll.ofDice .generic) dice s).1
      (Roller.each (Roll.ofDice .generic) dice' s).1 := by
  induction h generalizing s with
  | nil => exact .nil
  | cons hd _ ih =>
    obtain ⟨hread, hrest⟩ := List.forall_mem_cons.mp read
    rw [Roller.each_cons, Roller.each_cons, (hd.ofDice hread s).2.2]
    exact .cons (hd.roll hread s) (ih hrest _)

end Dice

end Tabletop
