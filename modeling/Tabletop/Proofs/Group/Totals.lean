import Tabletop.Proofs.Roll.Worth
import Tabletop.Proofs.Written.Terms

/-!
# Totals of written expressions

An expression of dice and numbers is rolled as it is read, so its total follows from what its terms
are worth. It is the strict total, and that for every beginning of the expression, exactly where
each number behind dice is harmless.
-/

namespace Tabletop

open Written

namespace Written

section

variable {ρ : Type} [Roller ρ]

/-- What an operand is worth once it is rolled: dice are worth the sum of their kept faces. -/
def Operand.roll (sign : Sign) : Operand → ρ → Worth × ρ
  | .dice w, r =>
    let (rolled, r) := PartRoll.roll (w.part sign) r
    (⟨sign, rolled.keptSum, some w.sides.value⟩, r)
  | .number n, r => (⟨sign, n.value, none⟩, r)

def Term.roll (t : Term) (r : ρ) : Worth × ρ := t.operand.roll t.lead.sign r

def Expression.worths (e : Expression) (r : ρ) : List Worth :=
  let (first, r) := (Operand.dice e.first).roll .plus r
  first :: (Roller.each Term.roll e.terms r).1

theorem Expression.worths_take (e : Expression) (r : ρ) (k : Nat) :
    (e.take k).worths r = (e.worths r).take (k + 1) :=
  congrArg (_ :: ·) (Roller.each_take Term.roll e.terms _ k)

theorem joins_roll (t : Term) (r : ρ) : (t.roll r).1.joins = t.joins := by
  rw [Term.roll, Term.joins]
  cases t.operand <;> rfl

end

/-- The last term of a part, as far as the terms behind it are concerned. -/
def lastWorth (p : Part) (waits : Bool) (s : Script) : Worth :=
  ⟨p.sign, (PartRoll.roll p s).1.total, if waits then some p.sides else none⟩

/-- A term that is read as a part of its own is worth what the part comes to. -/
theorem roll_eq_of_inRange {t : Term} (range : t.operand.InRange) (s : Script) :
    t.roll s = (lastWorth t.part t.operand.isDice s, (PartRoll.roll t.part s).2) := by
  have simple := isSimple_part range
  rw [Term.roll]
  rw [Term.part] at simple ⊢
  cases hoperand : t.operand with
  | dice w =>
    rw [hoperand] at simple
    have htotal : (PartRoll.roll (w.part t.lead.sign) s).1.total = _ :=
      PartRoll.total_roll_of_alone simple rfl s
    rw [lastWorth, Operand.part, htotal]
    rfl
  | number n =>
    rw [hoperand] at simple range
    have htotal : (PartRoll.roll (Part.flat t.lead.sign n.value) s).1.total = (n.value : Int) :=
      PartRoll.total_roll_of_sides simple rfl rfl range s
    have hroll : PartRoll.roll (Part.flat t.lead.sign n.value) s = _ :=
      PartRoll.roll_of_sides simple rfl s
    rw [lastWorth, Operand.part, htotal, hroll]
    rfl

section

variable {p : Part} (simple : p.IsSimple) (alone : p.modifier = 0) {lead : Lead} {n : Numeral}
  (joins : lead.sign ≠ .times) (range : (n.value : Int) ≤ Total.greatest) (s : Script)

include simple range

/-- Without sides a part turns into the number. -/
theorem lastWorth_withModifier_of_sideless (sides : p.sides = 0) :
    lastWorth (p.withModifier (flatToken lead n)) false s = ⟨lead.sign, n.value, none⟩ := by
  have hmodified := simple.withModifier (flatToken lead n)
  rw [Part.withModifier_flatToken _ range, if_pos sides] at hmodified ⊢
  have htotal := PartRoll.total_roll_of_sides hmodified sides rfl range s
  exact congrArg (Worth.mk lead.sign · none) htotal

include alone joins

/-- Dice take the number as their modifier, and keep their sign. -/
theorem lastWorth_withModifier_of_sides (sides : p.sides ≠ 0) :
    lastWorth (p.withModifier (flatToken lead n)) false s =
      ⟨p.sign, lead.sign.apply (PartRoll.roll p s).1.total n.value, none⟩ := by
  have hmodified (m : Int) : lastWorth { p with modifier := m } false s =
      ⟨p.sign, Total.add (PartRoll.roll p s).1.total m, none⟩ := by
    rw [PartRoll.total_roll_of_alone simple alone]
    exact congrArg (fun rolled => Worth.mk p.sign rolled.1.total none)
      (PartRoll.roll_withModifier p p.sign m s)
  rw [Part.withModifier_flatToken _ range, if_neg sides, alone]
  cases hsign : lead.sign with
  | plus =>
    rw [Total.add, Int.zero_add, Total.clamp_natCast range]
    exact hmodified n.value
  | minus =>
    have hminus : Total.clamp (-(n.value : Int)) = -n.value :=
      Total.clamp_of_inRange (by simp only [Total.InRange, Total.greatest, Total.least] at *; omega)
    rw [Total.sub, Int.zero_sub, hminus]
    exact hmodified (-n.value)
  | times => exact absurd hsign joins

/-- A number that joins a part is a term that joins what the part is worth. -/
theorem add_lastWorth (total : Int) :
    Worth.Pending.add ⟨total, lastWorth p true s⟩ ⟨lead.sign, n.value, none⟩ =
      ⟨total, lastWorth (p.withModifier (flatToken lead n)) false s⟩ := by
  have hjoins : (⟨lead.sign, n.value, none⟩ : Worth).joins = true := by simp [Worth.joins, joins]
  by_cases sides : p.sides = 0
  · rw [Worth.Pending.add_of_sideless hjoins (congrArg some sides),
      lastWorth_withModifier_of_sideless simple range s sides]
  · rw [Worth.Pending.add_of_sides hjoins rfl sides,
      lastWorth_withModifier_of_sides simple alone joins range s sides]
    rfl

end

/-- The parts that terms are read as come to what the terms come to. -/
theorem foldl_readOn {terms : List Term} (range : ∀ t ∈ terms, t.operand.InRange) {p : Part}
    (simple : p.IsSimple) {waits : Bool} (alone : waits = true → p.modifier = 0) (total : Int)
    (s : Script) :
    (Roller.each PartRoll.roll (readOn p waits terms) s).1.foldl
        (fun total q => q.part.sign.apply total q.total) total =
      ((Roller.each Term.roll terms (PartRoll.roll p s).2).1.foldl Worth.Pending.add
        ⟨total, lastWorth p waits s⟩).settled := by
  induction terms generalizing p waits total s with
  | nil => simp [readOn, Roller.each, lastWorth, Worth.Pending.settled]
  | cons t rest ih =>
    obtain ⟨ht, hrest⟩ := List.forall_mem_cons.mp range
    rw [readOn]
    cases hjoins : waits && t.joins with
    | true =>
      obtain ⟨rfl, hjoins⟩ := Bool.and_eq_true_iff.mp hjoins
      obtain ⟨n, hoperand, htoken, hsign⟩ := number_of_joins hjoins
      have hroll : t.roll (PartRoll.roll p s).2 =
          (⟨t.lead.sign, n.value, none⟩, (PartRoll.roll p s).2) := by
        rw [Term.roll, hoperand]
        rfl
      rw [hoperand] at ht
      rw [if_pos rfl, ih hrest (simple.withModifier t.token) (by simp) total s,
        PartRoll.snd_roll_withModifier, Roller.each_cons, hroll, List.foldl_cons, htoken,
        add_lastWorth simple (alone rfl) hsign ht]
    | false =>
      have happart : (t.roll (PartRoll.roll p s).2).1.joins = true →
          (lastWorth p waits s).sides = none := by
        rw [joins_roll]
        intro h
        rw [h, Bool.and_true] at hjoins
        rw [lastWorth, hjoins]
        rfl
      rw [if_neg (by simp), Roller.each_cons, Roller.each_cons, List.foldl_cons, List.foldl_cons,
        ih hrest (isSimple_part ht) modifier_part_of_isDice, Worth.Pending.add_of_apart happart,
        roll_eq_of_inRange ht, PartRoll.part_roll]
      rfl

/-- Operands in range are worth something in range. -/
theorem inRange_roll {o : Operand} (range : o.InRange) (sign : Sign) (s : Script) :
    (o.roll sign s).1.InRange := by
  cases o with
  | dice w =>
    have simple : (w.part sign).IsSimple := DieWord.InRange.isSimple range sign
    refine ⟨⟨Int.natCast_nonneg _, PartRoll.keptSum_roll_le simple s⟩, fun sides => ?_⟩
    exact congrArg Nat.cast (PartRoll.keptSum_roll_of_sides simple (Option.some.inj sides) s)
  | number n => exact ⟨⟨Int.natCast_nonneg _, range⟩, fun sides => by simp [Operand.roll] at sides⟩

theorem inRange_worths {e : Expression} (range : e.InRange) (s : Script) :
    ∀ a ∈ e.worths s, a.InRange := by
  refine List.forall_mem_cons.mpr ⟨inRange_roll (o := .dice e.first) range.first .plus s, ?_⟩
  intro a ha
  obtain ⟨t, ht, s', rfl⟩ := Roller.exists_of_mem_each ha
  exact inRange_roll (range.terms t ht) t.lead.sign s'

/-- The parts of an expression come to what its terms come to as they are read. -/
theorem joinedTotal_parts {e : Expression} (range : e.InRange) (s : Script) :
    PartRoll.joinedTotal (Roller.each PartRoll.roll e.parts s).1 =
      Worth.readTotal (e.worths s) := by
  have simple := range.first.isSimple .plus
  have htotal := PartRoll.total_roll_of_alone simple rfl s
  rw [PartRoll.joinedTotal, Expression.parts, foldl_readOn range.terms simple (fun _ => rfl),
    lastWorth, htotal]
  rfl

end Written

/-- A written expression is read as its parts and nothing else. -/
theorem Engine.dice_parse_expression {settings : Settings} {e : Expression} (range : e.InRange) :
    ((ofSettings settings).parse e.text).dice = [⟨e.parts⟩] := by
  rw [dice_parse, e.cut_text, Group.diceOfTokens_eq, e.spokenRuns_tokens,
    if_neg (List.cons_ne_nil _ _), List.map_singleton, e.ofTokens_tokens range]

/-- Plain dice are rolled member by member, and nothing is raised. -/
theorem Engine.rolls_evaluate {settings : Settings} (generic : settings.system = .generic)
    (text : Text) {ρ : Type} [Roller ρ] (r : ρ) :
    ((ofSettings settings).evaluate text r).1.roll.rolls =
      (Roller.each (Roll.ofDice .generic) ((ofSettings settings).parse text).dice r).1 := by
  have hsystem : System.ofSettings settings = .generic := by rw [System.ofSettings, generic]
  change ((GroupRoll.pending (.ofSettings settings) _ r).1.finished
    (.ofSettings settings)).rolls = _
  rw [hsystem]
  rfl

/-- A written expression comes to what its terms come to as they are read. -/
theorem Engine.totals_evaluate {settings : Settings} (generic : settings.system = .generic)
    {e : Expression} (range : e.InRange) (s : Script) :
    ((ofSettings settings).evaluate e.text s).1.roll.totals = [Worth.readTotal (e.worths s)] := by
  rw [GroupRoll.totals, rolls_evaluate generic, dice_parse_expression range,
    ← joinedTotal_parts range s]
  rfl

/-- An expression of dice and numbers comes to what its terms come to as they are read. If the
strict totals stay within range, then the expression and all its beginnings come to their strict
totals exactly where every number behind dice is harmless. -/
theorem totals_evaluate_text {settings : Settings} (generic : settings.system = .generic)
    {e : Expression} (range : e.InRange) (s : Script) :
    ((Engine.ofSettings settings).evaluate e.text s).1.roll.totals =
        [Worth.readTotal (e.worths s)] ∧
      (Worth.Bounded (e.worths s) →
        ((∀ k, ((Engine.ofSettings settings).evaluate (e.take k).text s).1.roll.totals =
            [Worth.strictTotal ((e.take k).worths s)]) ↔ Worth.Kept (e.worths s))) := by
  refine ⟨Engine.totals_evaluate generic range s, fun bounded => ?_⟩
  rw [← Worth.readTotal_take_iff (inRange_worths range s) bounded]
  constructor
  · intro same k
    cases k with
    | zero => rfl
    | succ k =>
      have h := same k
      rw [Engine.totals_evaluate generic (range.take k), e.worths_take] at h
      exact List.singleton_inj.mp h
  · intro same k
    rw [Engine.totals_evaluate generic (range.take k), e.worths_take, same (k + 1)]

/-- A zero behind subtracted dice and a number behind added ones. -/
theorem totals_evaluate_text_mixed :
    let single (n : Nat) : DieWord := ⟨none, false, .ofNat n, none⟩
    let term (sign : Sign) (o : Operand) : Term := ⟨.none, ⟨sign, .none⟩, o⟩
    let e : Expression := {
      gap := .none
      first := ⟨some (.ofNat 3), true, .ofNat 6, none⟩
      terms := [⟨.space, ⟨.minus, .space⟩, .dice (single 4)⟩, term .minus (.number (.ofNat 0)),
        term .plus (.dice (single 20)), term .plus (.number (.ofNat 3)),
        term .times (.number (.ofNat 2)), term .minus (.number (.ofNat 4))]
      tail := .space }
    let s : Script := ⟨[5, 2, 6, 4, 13], 0⟩
    let settings : Settings := .forSystem .generic
    (settings.system = .generic ∧ e.InRange ∧ Worth.Bounded (e.worths s) ∧
        Worth.Kept (e.worths s)) ∧
      e.text = "3D6 - d4-0+d20+3*2-4 ".toList ∧ Worth.strictTotal (e.worths s) = 46 ∧
      ∀ k, ((Engine.ofSettings settings).evaluate (e.take k).text s).1.roll.totals =
        [Worth.strictTotal ((e.take k).worths s)] := by
  intro single term e s settings
  have hsingle {n : Nat} (h : n ≤ maxCount) : (single n).InRange :=
    ⟨by simp [single], by simpa [single] using h, by simp [single]⟩
  have range : e.InRange := by
    refine ⟨⟨by simp [e, maxDice], by simp [e, maxCount], by simp [e]⟩, ?_⟩
    simp only [e, term, List.forall_mem_cons, Operand.InRange, Numeral.value_ofNat]
    exact ⟨hsingle (by decide), by decide, hsingle (by decide), by decide, by decide, by decide,
      by simp⟩
  have bounded : Worth.Bounded (e.worths s) := by decide
  have kept : Worth.Kept (e.worths s) := by decide
  exact ⟨⟨rfl, range, bounded, kept⟩, by decide, by decide,
    ((totals_evaluate_text rfl range s).2 bounded).mpr kept⟩

/-- A number behind subtracted dice is subtracted as well, whatever its sign. -/
theorem totals_evaluate_text_subtracted :
    let dice (n : Nat) : DieWord := ⟨some (.ofNat 1), false, .ofNat n, none⟩
    let e : Expression := ⟨.none, dice 8, [⟨.none, ⟨.minus, .none⟩, .dice (dice 4)⟩,
      ⟨.none, ⟨.plus, .none⟩, .number (.ofNat 2)⟩], .none⟩
    let s : Script := ⟨[5, 3], 0⟩
    e.text = "1d8-1d4+2".toList ∧ e.InRange ∧
      Worth.Bounded (e.worths s) ∧ Worth.strictTotal (e.worths s) = 4 ∧
      ((Engine.ofSettings (.forSystem .generic)).evaluate e.text s).1.roll.totals = [0] := by
  intro dice e s
  have hdice {n : Nat} (h : n ≤ maxCount) : (dice n).InRange :=
    ⟨by simp [dice, maxDice], by simpa [dice] using h, by simp [dice]⟩
  have range : e.InRange := by
    refine ⟨hdice (by decide), ?_⟩
    simp only [e, List.forall_mem_cons, Operand.InRange, Numeral.value_ofNat]
    exact ⟨hdice (by decide), by decide, by simp⟩
  have htotals : ((Engine.ofSettings (.forSystem .generic)).evaluate e.text s).1.roll.totals = _ :=
    Engine.totals_evaluate rfl range s
  rw [htotals]
  exact ⟨by decide, range, by decide, by decide, by decide⟩

end Tabletop
