import Tabletop.Proofs.Token.Fits
import Tabletop.Proofs.Written.Cut
import Tabletop.Proofs.Written.Drafts

/-!
# Written parts

A part of which the written form tells everything is cut into the tokens that it is read back
from. Such a part is a die or a flat term. A flat term must stand behind a modifier, or it would
be taken for the modifier of the part before it.
-/

namespace Tabletop

open Written Token

namespace Part

/-- Dice of which the written form tells everything but the test. -/
structure IsDie (system : System) (p : Part) : Prop where
  count : p.count ≤ maxDice
  sides : 1 ≤ p.sides ∧ p.sides ≤ maxCount
  rule : ∀ rule ∈ p.dropKeep, rule.number ≤ maxCount
  modifier : Total.least < p.modifier ∧ p.modifier ≤ Total.greatest
  hunger : ∀ n ∈ p.hunger, system = .vampire ∧ n ≤ maxCount
  critThreshold : ∀ n ∈ p.critThreshold, system.kind = .pathfinder ∧ n ≤ maxCount
  plain : p.description = [] ∧ p.fixed = none ∧ p.unsorted = false ∧ p.save = false

/-- A positive number with a sign and perhaps a test. -/
structure IsFlat (p : Part) : Prop where
  modifier : 1 ≤ p.modifier ∧ p.modifier ≤ Total.greatest
  alone : p = { sign := p.sign, modifier := p.modifier, test := p.test }

def lead (p : Part) : Lead := ⟨p.sign, .none⟩

def dieWord (p : Part) : DieWord where
  count := some (.ofNat p.count)
  large := false
  sides := .ofNat p.sides
  rule := p.dropKeep.map fun r => ⟨r.choice, false, some (r.extremity, false), .ofNat r.number⟩

def modifierTokens (n : Int) : List Token :=
  if 0 < n then [flatToken ⟨.plus, .none⟩ (.ofNat n.natAbs)]
  else if n < 0 then [flatToken ⟨.minus, .none⟩ (.ofNat n.natAbs)]
  else []

def markTokens (kind : Kind) (mark : Text) (n : Option Nat) : List Token :=
  (n.map fun n => Gap.space.tokens ++ [markToken kind mark (.ofNat n)]).getD []

def testTokens (t : Option Test) : List Token :=
  (t.map fun t => Gap.space.tokens ++ [testToken t.target t.op (.ofNat t.value.natAbs)]).getD []

def tokens (p : Part) (gap : Gap) (lead : Option Lead) : List Token :=
  gap.tokens ++
    (if 0 < p.sides then
        p.dieWord.token lead :: (modifierTokens p.modifier ++
          (markTokens .hunger ['h'] p.hunger ++ markTokens .crit "crit".toList p.critThreshold))
      else [flatToken (lead.getD p.lead) (.ofNat p.modifier.natAbs)]) ++
    testTokens p.test

def testText (t : Option Test) : Text := (t.map fun t => ' ' :: t.text).getD []

/-- Items one behind the other, of which the first one is written in a way of its own. -/
def itemsText {ι : Type} (opening text : ι → Text) : List ι → Text
  | [] => []
  | a :: rest => opening a ++ rest.flatMap text

/-- The written form of parts from the items that each of them is written as. -/
theorem termsText_eq_itemsText {ι : Type} {items : Part → List ι} {opening text : ι → Text}
    {parts : List Part} (written : ∀ p ∈ parts, p.isWritten = true ↔ items p ≠ [])
    (texts : ∀ p ∈ parts, ∀ a more, items p = a :: more →
      (if p.shownSign = .plus then p.text else p.signedText) = opening a ++ more.flatMap text ∧
        p.signedText = text a ++ more.flatMap text) :
    termsText (parts.filter isWritten) = itemsText opening text (parts.flatMap items) := by
  have unwritten {p : Part} (hp : p.isWritten = true ↔ items p ≠ []) (hitems : items p = []) :
      ¬ p.isWritten = true := fun h => hp.mp h hitems
  have shown {p : Part} {a : ι} {more : List ι} (hp : p.isWritten = true ↔ items p ≠ [])
      (hitems : items p = a :: more) : p.isWritten = true := hp.mpr (by simp [hitems])
  -- Behind the first written part every part shows its sign.
  have later (parts : List Part) (written : ∀ p ∈ parts, p.isWritten = true ↔ items p ≠ [])
      (texts : ∀ p ∈ parts, ∀ a more, items p = a :: more →
        p.signedText = text a ++ more.flatMap text) :
      (parts.filter isWritten).flatMap signedText = (parts.flatMap items).flatMap text := by
    induction parts with
    | nil => rfl
    | cons p rest ih =>
      obtain ⟨hp, hrest⟩ := List.forall_mem_cons.mp written
      obtain ⟨htext, htexts⟩ := List.forall_mem_cons.mp texts
      rw [List.flatMap_cons, List.flatMap_append, ← ih hrest htexts]
      cases hitems : items p with
      | nil => rw [List.filter_cons_of_neg (unwritten hp hitems), List.flatMap_nil, List.nil_append]
      | cons a more =>
        rw [List.filter_cons_of_pos (shown hp hitems), List.flatMap_cons, htext a more hitems,
          List.flatMap_cons]
  induction parts with
  | nil => rfl
  | cons p rest ih =>
    obtain ⟨hp, hrest⟩ := List.forall_mem_cons.mp written
    obtain ⟨htext, htexts⟩ := List.forall_mem_cons.mp texts
    rw [List.flatMap_cons]
    cases hitems : items p with
    | nil =>
      rw [List.filter_cons_of_neg (unwritten hp hitems), ih hrest htexts, List.nil_append]
    | cons a more =>
      rw [List.filter_cons_of_pos (shown hp hitems), termsText, (htext a more hitems).1,
        later rest hrest fun p hp a more h => (htexts p hp a more h).2, List.cons_append, itemsText,
        List.flatMap_append, List.append_assoc]

/-- Where an expression with a test has a written part, the test stands behind it. -/
theorem expressionText_of_isWritten {parts : List Part}
    (written : (testOf parts).isSome → parts.any isWritten = true) :
    expressionText parts = termsText (parts.filter isWritten) ++ testText (testOf parts) := by
  rw [expressionText]
  cases htest : testOf parts with
  | none => exact (List.append_nil _).symm
  | some t =>
    simp only [written (by simp [htest]), ↓reduceIte]
    rfl

section

variable {system : System} {p : Part}

theorem text_dieWord (p : Part) :
    p.dieWord.text = Decimal.ofNat p.count ++ 'd' :: Decimal.ofNat p.sides ++
      (p.dropKeep.map DropKeep.text).getD [] := by
  have hrule : p.dieWord.ruleText = (p.dropKeep.map DropKeep.text).getD [] := by
    rw [DieWord.ruleText, dieWord]
    cases p.dropKeep <;> rfl
  rw [DieWord.text, hrule, List.append_assoc]
  rfl

theorem ofInt_of_nonneg {n : Int} (h : 0 ≤ n) : Decimal.ofInt n = Decimal.ofNat n.natAbs :=
  if_neg (by omega)

/-- A modifier is written as a number behind its sign. -/
theorem modifierText_of_ne_zero {n : Int} (h : n ≠ 0) :
    modifierText n =
      (if n < 0 then Sign.minus else .plus).symbol :: Decimal.ofNat n.natAbs := by
  rw [modifierText]
  obtain hneg | hpos : n < 0 ∨ 0 < n := by omega
  · rw [if_neg (by omega), if_pos hneg, if_pos hneg, Decimal.ofInt, if_pos hneg]
    rfl
  · rw [if_pos hpos, if_neg (by omega), ofInt_of_nonneg (by omega)]
    rfl

theorem stops_modifierText (n : Int) : Stops (modifierText n) := by
  rw [modifierText]
  split
  · exact stops_cons (by decide) _
  · split
    · rename_i h
      rw [Decimal.ofInt, if_pos h]
      exact stops_cons (by decide) _
    · exact stops_nil

theorem reads_modifier (n : Int) : Reads system (modifierText n) (modifierTokens n) := by
  rw [modifierText, modifierTokens]
  split
  · rw [ofInt_of_nonneg (by omega)]
    exact reads_flat .none ⟨.plus, .none⟩ (.ofNat n.natAbs)
  · split
    · rename_i h
      rw [Decimal.ofInt, if_pos h]
      exact reads_flat .none ⟨.minus, .none⟩ (.ofNat n.natAbs)
    · exact .nil

theorem stops_markText (mark : Text) (n : Option Nat) :
    Stops (markText (String.ofList (' ' :: mark)) n) := by
  cases n with
  | none => exact stops_nil
  | some n =>
    rw [markText, Option.map_some, Option.getD_some, String.toList_ofList]
    exact stops_cons (by decide) _

theorem reads_mark {kind : Kind} {mark : Text} {n : Option Nat}
    (reads : n ≠ none → ∀ k : Numeral,
      Reads system (Gap.space.text ++ (mark ++ k.text))
        (Gap.space.tokens ++ [markToken kind mark k])) :
    Reads system (markText (String.ofList (' ' :: mark)) n) (markTokens kind mark n) := by
  cases n with
  | none => exact .nil
  | some n =>
    have hreads := reads (by simp) (.ofNat n)
    simpa [markText, markTokens, Gap.space] using hreads

theorem stops_testText (t : Option Test) : Stops (testText t) := by
  cases t with
  | none => exact stops_nil
  | some t => exact stops_cons (by decide) _

theorem reads_testText {t : Option Test} (h : ∀ test ∈ t, test.IsCanonical) :
    Reads system (testText t) (testTokens t) := by
  cases t with
  | none => exact .nil
  | some t =>
    have hcanonical := h t rfl
    have htext : ' ' :: t.text = Gap.space.text ++ (spelling t.target t.op ++
        ((spacing t.target).text ++ (Numeral.ofNat t.value.natAbs).text)) := by
      rw [Test.text, hcanonical.shown, ← List.append_assoc (spelling _ _),
        spelling_append_spacing, if_neg (by simp), ofInt_of_nonneg hcanonical.value.1]
      simp [Gap.space]
    rw [testText, Option.map_some, Option.getD_some, htext]
    exact reads_test .space t.target t.op (.ofNat t.value.natAbs)

theorem stops_later (p : Part) : Stops (modifierText p.modifier ++
    (markText " h" p.hunger ++ markText " crit" p.critThreshold)) :=
  (stops_modifierText p.modifier).append
    ((stops_markText ['h'] p.hunger).append (stops_markText "crit".toList p.critThreshold))

/-- Dice are cut into their tokens. -/
theorem IsDie.reads (die : p.IsDie system) (tested : ∀ test ∈ p.test, test.IsCanonical) (gap : Gap)
    (lead : Option Lead) :
    Reads system (gap.text ++ ((lead.map Lead.text).getD [] ++ p.text) ++ testText p.test)
      (p.tokens gap lead) := by
  have hsides : 0 < p.sides := die.sides.1
  have htext : p.text = p.dieWord.text ++ (modifierText p.modifier ++
      (markText " h" p.hunger ++ markText " crit" p.critThreshold)) := by
    rw [text, if_pos hsides, diceText, text_dieWord]
    simp only [List.append_assoc]
  have hhunger : Reads system (markText " h" p.hunger) (markTokens .hunger ['h'] p.hunger) :=
    reads_mark fun hne n => by
      obtain ⟨k, hk⟩ := Option.ne_none_iff_exists'.mp hne
      obtain rfl := (die.hunger k hk).1
      exact reads_hunger .space n
  have hcrit : Reads system (markText " crit" p.critThreshold)
      (markTokens .crit "crit".toList p.critThreshold) :=
    reads_mark fun hne n => by
      obtain ⟨k, hk⟩ := Option.ne_none_iff_exists'.mp hne
      have hkind := (die.critThreshold k hk).1
      cases system with
      | pathfinder threshold infers => exact reads_crit threshold infers .space n
      | generic | vampire => simp [System.kind] at hkind
  have hreads := ((reads_die gap lead p.dieWord).append
    ((reads_modifier p.modifier).append (hhunger.append hcrit (stops_markText "crit".toList _))
      ((stops_markText ['h'] _).append (stops_markText "crit".toList _)))
    p.stops_later).append (reads_testText tested) (stops_testText _)
  rw [tokens, if_pos hsides, htext]
  simpa only [List.append_assoc, List.cons_append, List.nil_append] using hreads

/-- A flat term is cut into its tokens. -/
theorem IsFlat.reads (flat : p.IsFlat) (tested : ∀ test ∈ p.test, test.IsCanonical) :
    Reads system (p.signedText ++ testText p.test) (p.tokens .none (some p.lead)) := by
  have hsides : p.sides = 0 := by rw [flat.alone]
  have hpos := flat.modifier.1
  have htext : p.signedText = p.lead.text ++ (Numeral.ofNat p.modifier.natAbs).text := by
    have hsign : p.shownSign = p.sign := if_neg (by omega)
    have hhunger : p.hunger = none := by rw [flat.alone]
    have hcrit : p.critThreshold = none := by rw [flat.alone]
    rw [signedText, hsign, text, if_neg (by omega), if_pos (by omega), hhunger, hcrit]
    simp [markText, lead, Lead.text, Gap.none]
  have hflat : Reads system _ _ := reads_flat .none p.lead (.ofNat p.modifier.natAbs)
  have hreads := hflat.append (reads_testText tested) (stops_testText _)
  rw [tokens, if_neg (by omega), htext]
  simpa [Gap.none, Gap.tokens] using hreads

/-- A modifier token gives dice the modifier, if they have none so far. -/
theorem gives_modifier (p : Part) (dice : p.sides ≠ 0) (plain : p.modifier = 0) {n : Int}
    (range : Total.least < n ∧ n ≤ Total.greatest) :
    Gives system (modifierTokens n) p { p with modifier := n } := by
  have hinRange : Total.InRange n := ⟨by omega, range.2⟩
  have hsize : ((Numeral.ofNat n.natAbs).value : Int) ≤ Total.greatest := by
    rw [Numeral.value_ofNat]
    simp only [Total.least, Total.greatest] at range ⊢
    omega
  have given (sign : Sign) (value : Part) (h : p.withModifier
      (flatToken ⟨sign, .none⟩ (.ofNat n.natAbs)) = value) :
      Gives system [flatToken ⟨sign, .none⟩ (.ofNat n.natAbs)] p value :=
    h ▸ gives_flat p _ _
  rw [modifierTokens]
  split
  · refine given .plus _ ?_
    rw [withModifier_flatToken p hsize, if_neg dice]
    simp only [plain, Numeral.value_ofNat, Total.add]
    rw [show 0 + (n.natAbs : Int) = n by omega, Total.clamp_of_inRange hinRange]
  · split
    · refine given .minus _ ?_
      rw [withModifier_flatToken p hsize, if_neg dice]
      simp only [plain, Numeral.value_ofNat, Total.sub]
      rw [show 0 - (n.natAbs : Int) = n by omega, Total.clamp_of_inRange hinRange]
    · obtain rfl : n = 0 := by omega
      rw [← plain]
      exact .nil p

/-- The token of a mark gives a part the number of the mark, if it has none so far. -/
theorem gives_mark {kind : Kind} {mark : Text} {n : Option Nat} (set : Option Nat → Part)
    (unset : set none = p)
    (gives : ∀ k, n = some k → Gives system [markToken kind mark (.ofNat k)] p (set (some k))) :
    Gives system (markTokens kind mark n) p (set n) := by
  cases n with
  | none =>
    rw [unset]
    exact .nil p
  | some k => exact (gives_gap .space p).append (gives k rfl)

theorem gives_testTokens {p : Part} (untested : p.test = none) {t : Option Test}
    (canonical : ∀ test ∈ t, test.IsCanonical) :
    Gives system (testTokens t) p { p with test := t } := by
  cases t with
  | none =>
    have hsame : { p with test := none } = p := by rw [← untested]
    rw [hsame]
    exact .nil p
  | some t =>
    obtain ⟨hshown, hvalue, hop⟩ := canonical t rfl
    have hsize : ((Numeral.ofNat t.value.natAbs).value : Int) ≤ Total.greatest := by
      rw [Numeral.value_ofNat]
      omega
    have hsame : (⟨t.target, t.op, (Numeral.ofNat t.value.natAbs).value, false⟩ : Test) = t := by
      have hnat : ((Numeral.ofNat t.value.natAbs).value : Int) = t.value := by
        rw [Numeral.value_ofNat]
        omega
      rw [hnat, ← hshown]
    have hgap : Gives system Gap.space.tokens p p := gives_gap .space p
    have hgives := hgap.append (gives_test p hop hsize)
    rw [hsame] at hgives
    exact hgives

/-- What is left of dice when everything without a written form is left out. -/
theorem IsDie.eq (die : p.IsDie system) :
    p = { count := p.count, sides := p.sides, modifier := p.modifier, sign := p.sign,
          dropKeep := p.dropKeep, test := p.test, hunger := p.hunger,
          critThreshold := p.critThreshold } := by
  obtain ⟨hdescription, hfixed, hunsorted, hsave⟩ := die.plain
  cases p
  simp only at hdescription hfixed hunsorted hsave
  simp only [hdescription, hfixed, hunsorted, hsave]

theorem IsDie.inRange (die : p.IsDie system) : p.dieWord.InRange where
  count := by simpa [dieWord] using die.count
  sides := by simpa [dieWord] using die.sides.2
  rule := by
    intro r hr
    obtain ⟨rule, hrule, rfl⟩ := Option.map_eq_some_iff.mp hr
    simpa using die.rule rule hrule

theorem rule_dieWord (p : Part) : p.dieWord.rule.map RuleWord.rule = p.dropKeep := by
  rw [dieWord]
  cases p.dropKeep with
  | none => rfl
  | some rule => simp [RuleWord.rule]

/-- The tokens of dice give the dice back. -/
theorem IsDie.gives (die : p.IsDie system) (tested : ∀ test ∈ p.test, test.IsCanonical) (gap : Gap)
    {lead : Option Lead} (hlead : (lead.map Lead.sign).getD .plus = p.sign) :
    Gives system (p.tokens gap lead) empty p := by
  have hsides : 0 < p.sides := die.sides.1
  let dice : Part :=
    { count := p.count, sides := p.sides, sign := p.sign, dropKeep := p.dropKeep }
  let modified : Part := { dice with modifier := p.modifier }
  let hungry : Part := { modified with hunger := p.hunger }
  let marked : Part := { hungry with critThreshold := p.critThreshold }
  have hdie : Gives system [p.dieWord.token lead] empty dice := by
    have hcount : (p.dieWord.count.map Numeral.value).getD 1 = p.count := by simp [dieWord]
    have hvalue : p.dieWord.sides.value = p.sides := by simp [dieWord]
    have h : Gives system [p.dieWord.token lead] empty _ := gives_die empty die.inRange
    rw [hlead, rule_dieWord, hcount, hvalue] at h
    exact h
  have hmodifier : Gives system (modifierTokens p.modifier) dice modified :=
    gives_modifier dice (Nat.pos_iff_ne_zero.mp hsides) rfl die.modifier
  have hhunger : Gives system (markTokens .hunger ['h'] p.hunger) modified hungry := by
    refine gives_mark (fun n => { modified with hunger := n }) rfl fun k hk => ?_
    obtain ⟨rfl, hle⟩ := die.hunger k hk
    have h := gives_hunger modified (n := .ofNat k) (by simpa using hle) ['h']
    rwa [Numeral.value_ofNat] at h
  have hcrit : Gives system (markTokens .crit "crit".toList p.critThreshold) hungry marked := by
    refine gives_mark (fun n => { hungry with critThreshold := n }) rfl fun k hk => ?_
    obtain ⟨hkind, hle⟩ := die.critThreshold k hk
    cases system with
    | pathfinder threshold infers =>
      have h : Gives (.pathfinder threshold infers) _ hungry _ :=
        gives_crit hungry (n := .ofNat k) (by simpa using hle) "crit".toList
      rwa [Numeral.value_ofNat] at h
    | generic | vampire => simp [System.kind] at hkind
  have htest : Gives system (testTokens p.test) marked p := by
    have h : Gives system (testTokens p.test) marked _ := gives_testTokens rfl tested
    have hp : { marked with test := p.test } = p := die.eq.symm
    rwa [hp] at h
  rw [tokens, if_pos hsides]
  have hmarks := hmodifier.append (hhunger.append hcrit)
  exact ((gives_gap gap empty).append (hdie.append hmarks)).append htest

/-- The tokens of a flat term give it back. -/
theorem IsFlat.gives (flat : p.IsFlat) (tested : ∀ test ∈ p.test, test.IsCanonical) :
    Gives system (p.tokens .none (some p.lead)) empty p := by
  have hsides : p.sides = 0 := by rw [flat.alone]
  have hpos := flat.modifier.1
  let term : Part := { sign := p.sign, modifier := p.modifier }
  have hflat : Gives system [flatToken p.lead (.ofNat p.modifier.natAbs)] empty term := by
    have hvalue : ((Numeral.ofNat p.modifier.natAbs).value : Int) = p.modifier := by
      rw [Numeral.value_ofNat]
      omega
    have h : Gives system _ empty _ := gives_flat empty p.lead (.ofNat p.modifier.natAbs)
    rw [withModifier_flatToken _ (by rw [hvalue]; exact flat.modifier.2), hvalue] at h
    exact h
  have htest : Gives system (testTokens p.test) term p := by
    have h : Gives system (testTokens p.test) term _ := gives_testTokens rfl tested
    have hp : { term with test := p.test } = p := flat.alone.symm
    rwa [hp] at h
  rw [tokens, if_neg (by omega)]
  exact ((gives_gap .none empty).append hflat).append htest

end

end Part

end Tabletop
