import Tabletop.Proofs.Part.Bounds
import Tabletop.Proofs.Written.Parts
import Tabletop.Proofs.Written.Terms

/-!
# Printed expressions

The written form of an expression that plain dice were read as is a list of terms with a test
behind them. The sign of the first term is left out if it is a plus. Before dice nothing is lost
by that, but a number that opens an expression without a sign is no term: it is taken for text.
-/

namespace Tabletop

open Written Token

namespace Written

def modifierTerms (n : Int) : List Term :=
  if n = 0 then []
  else [⟨.none, ⟨if n < 0 then .minus else .plus, .none⟩, .number (.ofNat n.natAbs)⟩]

/-- A term that is taken for text if it opens an expression: a number that is added. -/
def Term.fades (t : Term) : Bool := !t.operand.isDice && t.lead.sign == .plus

/-- The terms that are left of an expression that opens with the given ones. -/
def heard : List Term → List Term
  | [] => []
  | t :: rest => if t.fades then rest else t :: rest

def Term.openText (t : Term) : Text :=
  if t.lead.sign = .plus then t.operand.text else t.text

def openText : List Term → Text
  | [] => []
  | t :: rest => t.openText ++ rest.flatMap Term.text

def Term.openTokens (gap : Gap) (t : Term) : List Token :=
  match t.operand, t.lead.sign with
  | .number n, .plus => skippedTokens (gap.text ++ n.text)
  | .dice w, .plus => gap.tokens ++ [w.token none]
  | _, _ => gap.tokens ++ [t.token]

def openTokens (gap : Gap) : List Term → List Token
  | [] => gap.tokens
  | t :: rest => t.openTokens gap ++ rest.flatMap Term.tokens

end Written

namespace Part

def terms (p : Part) : List Term :=
  if 0 < p.sides then ⟨.none, p.lead, .dice p.dieWord⟩ :: modifierTerms p.modifier
  else if p.modifier = 0 then []
  else [⟨.none, p.lead, .number (.ofNat p.modifier.natAbs)⟩]

theorem gap_of_mem_modifierTerms {n : Int} {t : Term} (h : t ∈ modifierTerms n) :
    t.gap = .none := by
  rw [modifierTerms] at h
  split at h
  · simp at h
  · rw [List.mem_singleton.mp h]

/-- No blanks stand between the terms of a part. -/
theorem gap_of_mem_terms {p : Part} {t : Term} (h : t ∈ p.terms) : t.gap = .none := by
  rw [terms] at h
  split at h
  · rcases List.mem_cons.mp h with rfl | h
    · rfl
    · exact gap_of_mem_modifierTerms h
  · split at h
    · simp at h
    · rw [List.mem_singleton.mp h]

theorem text_modifierTerms (n : Int) : (modifierTerms n).flatMap Term.text = modifierText n := by
  rw [modifierTerms]
  split
  · next h =>
    rw [h]
    rfl
  · next h =>
    rw [modifierText_of_ne_zero h]
    simp [Term.text, Lead.text, Operand.text, Gap.none]

variable {p : Part}

theorem IsRead.isWritten_iff (h : p.IsRead) : p.isWritten = true ↔ p.terms ≠ [] := by
  rw [isWritten, h.plain.2.1, h.plain.2.2, terms]
  by_cases hsides : 0 < p.sides
  · simp [hsides]
  · by_cases hmodifier : p.modifier = 0 <;> simp [hsides, hmodifier]

/-- The first term of a part has the sign of the part. -/
theorem IsRead.text_eq (h : p.IsRead) {t : Term} {more : List Term} (hterms : p.terms = t :: more) :
    p.shownSign = t.lead.sign ∧ p.text = t.operand.text ++ more.flatMap Term.text ∧
      p.signedText = t.text ++ more.flatMap Term.text := by
  have hmarks : markText " h" p.hunger ++ markText " crit" p.critThreshold = [] := by
    rw [h.plain.2.1, h.plain.2.2]
    rfl
  have hsign : p.shownSign = p.sign := if_neg fun hneg => by
    have := h.flat hneg.1
    omega
  suffices t = ⟨.none, p.lead, t.operand⟩ ∧ p.text = t.operand.text ++ more.flatMap Term.text by
    obtain ⟨ht, htext⟩ := this
    rw [ht]
    refine ⟨hsign, htext, ?_⟩
    rw [signedText, htext, hsign]
    simp [Term.text, lead, Lead.text, Gap.none]
  rw [terms] at hterms
  split at hterms
  · rename_i hsides
    obtain ⟨rfl, rfl⟩ := List.cons.inj hterms
    refine ⟨rfl, ?_⟩
    rw [text, if_pos hsides, List.append_assoc, hmarks, List.append_nil, diceText,
      text_modifierTerms, Operand.text, text_dieWord]
  · rename_i hsides
    split at hterms
    · simp at hterms
    · rename_i hmodifier
      obtain ⟨rfl, rfl⟩ := List.cons.inj hterms
      refine ⟨rfl, ?_⟩
      rw [text, if_neg hsides, if_pos hmodifier, List.append_assoc, hmarks]
      rfl

/-- The written form of parts is that of their terms. -/
theorem termsText_eq {parts : List Part} (h : ∀ p ∈ parts, p.IsRead) :
    termsText (parts.filter isWritten) = openText (parts.flatMap terms) := by
  have hopen : openText (parts.flatMap terms) =
      itemsText Term.openText Term.text (parts.flatMap terms) := by
    cases parts.flatMap terms <;> rfl
  rw [hopen]
  refine termsText_eq_itemsText (fun p hp => (h p hp).isWritten_iff) fun p hp t more hterms => ?_
  obtain ⟨hsign, htext, hsigned⟩ := (h p hp).text_eq hterms
  refine ⟨?_, hsigned⟩
  rw [hsign, htext, hsigned, Term.openText]
  split <;> rfl

end Part

namespace Dice

def terms (d : Dice) : List Term := d.parts.flatMap Part.terms

/-- An expression is written as its terms with its test behind them. -/
theorem IsRead.text_eq {d : Dice} (h : d.IsRead) :
    d.text = openText d.terms ++ Part.testText d.test? := by
  rw [text, Part.expressionText_of_isWritten fun tested => ?_, Part.termsText_eq h.parts]
  · rfl
  · obtain ⟨p, hp, hsides⟩ := h.tested tested
    exact List.any_eq_true.mpr ⟨p, hp, by simp [Part.isWritten, hsides]⟩

/-- An expression with a test has dice. -/
theorem IsRead.exists_dice {d : Dice} (h : d.IsRead) (tested : d.test?.isSome) :
    ∃ t ∈ d.terms, t.operand.isDice = true ∧ 0 < t.part.sides := by
  obtain ⟨p, hp, hsides⟩ := h.tested tested
  refine ⟨⟨.none, p.lead, .dice p.dieWord⟩, List.mem_flatMap.mpr ⟨p, hp, ?_⟩, rfl, ?_⟩
  · rw [Part.terms, if_pos hsides]
    exact List.mem_cons_self
  · simpa [Term.part, Operand.part, DieWord.part, Part.dieWord] using hsides

end Dice

namespace Written

variable {system : System}

theorem exists_number_of_fades {t : Term} (fades : t.fades = true) :
    ∃ n, t.operand = .number n ∧ t.lead.sign = .plus := by
  rw [Term.fades, Bool.and_eq_true, Bool.not_eq_true', beq_iff_eq] at fades
  cases hoperand : t.operand with
  | dice w => simp [hoperand, Operand.isDice] at fades
  | number n => exact ⟨n, rfl, fades.2⟩

theorem reads_term_behind {skipped : Text} {t : Term} (alone : t.gap = .none)
    (skips : ∀ word, Skips system skipped (t.lead.text ++ word)) :
    Reads system (skipped ++ t.text) (skippedTokens skipped ++ t.tokens) := by
  have htext : t.text = t.lead.text ++ t.operand.text := by rw [Term.text, alone]; rfl
  have htokens : t.tokens = [t.token] := by rw [Term.tokens, alone]; rfl
  rw [htext, htokens, Term.token]
  cases t.operand with
  | dice w => exact reads_die_behind (some t.lead) w (skips w.text)
  | number n => exact reads_flat_behind t.lead n (skips n.text)

/-- The first term of an expression is cut into its tokens, unless it is taken for text. -/
theorem reads_openText (gap : Gap) {t : Term} (alone : t.gap = .none) (stays : t.fades = false) :
    Reads system (gap.text ++ t.openText) (t.openTokens gap) := by
  have hterm : Reads system (gap.text ++ t.text) (gap.tokens ++ t.tokens) :=
    reads_term_behind alone fun word => gap.skips _
  have htokens : t.tokens = [t.token] := by rw [Term.tokens, alone]; rfl
  rw [htokens] at hterm
  rw [Term.fades] at stays
  rw [Term.openText, Term.openTokens]
  cases hsign : t.lead.sign with
  | plus =>
    cases hoperand : t.operand with
    | dice w => exact reads_die gap none w
    | number n => simp [hsign, hoperand, Operand.isDice] at stays
  | minus | times => cases t.operand <;> exact hterm

/-- The written form of an expression is cut into the tokens of its terms and its test. -/
theorem cut_openText (gap : Gap) {terms : List Term} (alone : ∀ t ∈ terms, t.gap = .none)
    {test : Option Test} (canonical : ∀ t ∈ test, t.IsCanonical)
    (dice : test.isSome → ∃ t ∈ terms, t.operand.isDice = true) :
    cut system.rules .description (gap.text ++ (openText terms ++ Part.testText test)) =
      openTokens gap terms ++ Part.testTokens test := by
  have hterms (terms : List Term) : Reads system (terms.flatMap Term.text ++ Part.testText test)
      (terms.flatMap Term.tokens ++ Part.testTokens test) :=
    (Reads.flatMap (fun t _ => reads_term t) fun t _ => stops_term t).append
      (Part.reads_testText canonical) (Part.stops_testText test)
  have hstops (terms : List Term) : Stops (terms.flatMap Term.text ++ Part.testText test) :=
    (Stops.flatMap fun t _ => stops_term t).append (Part.stops_testText test)
  cases terms with
  | nil =>
    have huntested : test = none := by
      cases test with
      | none => rfl
      | some t => simp at dice
    rw [huntested, openText, openTokens, Part.testText, Part.testTokens]
    simp only [Option.map_none, Option.getD_none, List.append_nil]
    exact cut_of_blank system gap.blank
  | cons t rest =>
    obtain ⟨ht, hrest⟩ := List.forall_mem_cons.mp alone
    rw [openText, openTokens, List.append_assoc, List.append_assoc, ← List.append_assoc gap.text]
    cases hfades : t.fades with
    | false =>
      exact ((reads_openText gap ht hfades).append (hterms rest) (hstops rest)).cut_eq
    | true =>
      -- The number is no token of its own: it is skipped text before whatever is read next.
      obtain ⟨n, hoperand, hsign⟩ := exists_number_of_fades hfades
      have htext : t.openText = n.text := by rw [Term.openText, if_pos hsign, hoperand]; rfl
      have htokens : t.openTokens gap = skippedTokens (gap.text ++ n.text) := by
        rw [Term.openTokens, hoperand, hsign]
      rw [htext, htokens]
      cases rest with
      | nil =>
        have huntested : test = none := by
          cases test with
          | none => rfl
          | some t => simp [hoperand, Operand.isDice] at dice
        rw [huntested, Part.testText, Part.testTokens]
        simp only [Option.map_none, Option.getD_none, List.flatMap_nil, List.append_nil]
        exact cut_numeral gap n
      | cons u more =>
        have hfirst : Reads system (gap.text ++ n.text ++ u.text)
            (skippedTokens (gap.text ++ n.text) ++ u.tokens) :=
          reads_term_behind (hrest u List.mem_cons_self) fun word => skips_numeral gap n u.lead word
        have hreads := hfirst.append (hterms more) (hstops more)
        simpa only [List.flatMap_cons, List.append_assoc] using hreads.cut_eq

end Written

end Tabletop
