import Mathlib.Data.List.Forall2
import Tabletop.Proofs.Group.Canonical
import Tabletop.Proofs.Written.Reread

/-!
# Printed groups

The written form of a group is read member by member. A member without a written form disappears,
unless none has one: then a single empty expression is read.
-/

namespace Tabletop

open Written Token

namespace Written

/-- The terms of an expression fit into one run for an expression. -/
theorem rollRun_openTokens (gap : Gap) (terms : List Term) :
    ∃ rolls, rollCutter.Passes rollCutter.fresh (openTokens gap terms) ⟨rolls, false⟩ := by
  cases terms with
  | nil => exact ⟨false, rollCutter_gap gap _⟩
  | cons t rest =>
    have hopen : ∃ rolls, rollCutter.Passes rollCutter.fresh (t.openTokens gap) ⟨rolls, false⟩ := by
      cases hfades : t.fades with
      | true =>
        obtain ⟨n, hoperand, hsign⟩ := exists_number_of_fades hfades
        refine ⟨false, Cutter.passes_of_idle fun k hk => ?_⟩
        rw [Term.openTokens, hoperand, hsign] at hk
        simp [rollCutter, kind_of_mem_skippedTokens hk]
      | false =>
        obtain ⟨k, hk, htokens⟩ := exists_opens gap hfades
        rw [htokens]
        have hpasses : ∃ rolls, rollCutter.Passes rollCutter.fresh [k] ⟨rolls, false⟩ := by
          rcases hk with rfl | ⟨-, w, -, rfl⟩
          · refine rollCutter_calm (fun k hk => (calm_tokens t k ?_).2) rollCutter.fresh
            rw [Term.tokens]
            exact List.mem_append_right _ hk
          · exact ⟨true, rollCutter_die (fun _ => ⟨rfl, rfl⟩) w⟩
        obtain ⟨rolls, hpasses⟩ := hpasses
        exact ⟨rolls, (rollCutter_gap gap _).append hpasses⟩
    obtain ⟨rolls, hopen⟩ := hopen
    have hcalm : ∀ k ∈ rest.flatMap Term.tokens,
        k.kind ≠ .test ∧ (k.kind = .dice → k.capture 1 ≠ none) := by
      intro k hk
      obtain ⟨u, -, hk⟩ := List.mem_flatMap.mp hk
      exact (calm_tokens u k hk).2
    obtain ⟨rolls', hrest⟩ := rollCutter_calm hcalm ⟨rolls, false⟩
    exact ⟨rolls', hopen.append hrest⟩

/-- A term says something, even one that is taken for text. -/
theorem exists_spoken (gap : Gap) (t : Term) (rest : List Term) :
    ∃ k ∈ openTokens gap (t :: rest), k.isBlankText = false := by
  rw [openTokens]
  cases hfades : t.fades with
  | true =>
    obtain ⟨n, hoperand, hsign⟩ := exists_number_of_fades hfades
    have hnonempty : gap.text ++ n.text ≠ [] := by simp [n.nonempty]
    refine ⟨.unmatched .description (gap.text ++ n.text) 0, ?_, ?_⟩
    · simp [Term.openTokens, hoperand, hsign, skippedTokens, hnonempty]
    · have htrim : Text.trim (gap.text ++ n.text) ≠ [] := by
        rw [ne_eq, Text.trim_eq_nil_iff]
        intro hblank
        obtain ⟨c, more, htext, hc⟩ := n.exists_cons
        have hc' := hblank c (by simp [htext])
        rw [isBlank_of_digit hc] at hc'
        exact absurd hc' (by decide)
      simpa [isBlankText, unmatched] using htrim
  | false =>
    obtain ⟨k, hk, htokens⟩ := exists_opens gap hfades
    refine ⟨k, by simp [htokens], ?_⟩
    obtain h | h := kind_of_isTerm hk.isTerm <;> simp [isBlankText, h]

theorem openText_cons_ne_nil (t : Term) (rest : List Term) : openText (t :: rest) ≠ [] := by
  have hoperand : t.operand.text ≠ [] := by
    cases t.operand with
    | dice w =>
      obtain ⟨c, more, htext, -⟩ := w.exists_cons
      simp [Operand.text, htext]
    | number n => exact n.nonempty
  refine List.append_ne_nil_of_left_ne_nil ?_ _
  rw [Term.openText]
  split
  · exact hoperand
  · simp [Term.text, hoperand]

theorem isBlankText_of_mem_gap {gap : Gap} {k : Token} (h : k ∈ gap.tokens) :
    k.isBlankText = true := by
  rw [eq_of_mem_skippedTokens h]
  simpa [isBlankText, unmatched, Text.trim_eq_nil_iff] using gap.blank

end Written

namespace Dice

variable {d : Dice}

/-- An expression without terms has no test. -/
theorem IsRead.test?_eq_none (h : d.IsRead) (none : d.terms = []) : d.test? = .none := by
  cases htest : d.test? with
  | none => rfl
  | some t =>
    obtain ⟨u, hu, -⟩ := h.exists_dice (by simp [htest])
    simp [none] at hu

theorem IsRead.text_eq_nil_iff (h : d.IsRead) : d.text = [] ↔ d.terms = [] := by
  rw [h.text_eq]
  cases hterms : d.terms with
  | nil => simp [h.test?_eq_none hterms, openText, Part.testText]
  | cons t rest => simp [openText_cons_ne_nil]

/-- An expression with a written form has one run of tokens, any other has none. -/
theorem IsRead.spokenRuns_printedTokens (h : d.IsRead) (gap : Gap) :
    spokenRuns (d.printedTokens gap) = if d.text = [] then [] else [d.printedTokens gap] := by
  simp only [h.text_eq_nil_iff]
  cases hterms : d.terms with
  | nil =>
    rw [if_pos rfl, spokenRuns_eq_nil_iff, printedTokens, hterms, h.test?_eq_none hterms]
    intro k hk
    simp only [openTokens, Part.testTokens, Option.map_none, Option.getD_none,
      List.append_nil] at hk
    exact .inr (isBlankText_of_mem_gap hk)
  | cons t rest =>
    rw [if_neg (List.cons_ne_nil t rest)]
    obtain ⟨k, hk, hspoken⟩ := exists_spoken gap t rest
    obtain ⟨rolls, hpasses⟩ := rollRun_openTokens gap d.terms
    refine spokenRuns_of_fits (fun k hk => ?_) ⟨k, ?_, hspoken⟩
      (hpasses.append (Part.testTokens_rollPasses d.test? rfl)).1
    · rcases List.mem_append.mp hk with hk | hk
      · rcases kind_of_mem_openTokens hk with h | h | h <;> simp [h]
      · rcases Part.kind_of_mem_testTokens hk with h | h <;> simp [h]
    · exact List.mem_append_left _ (hterms ▸ hk)

/-- An expression that was read is read again from each run that its written form makes up. -/
theorem IsRead.forall₂_printedTokens (h : d.IsRead) (shown : ∀ t ∈ d.test?, t.hidden = false)
    (gap : Gap) :
    List.Forall₂ (fun e run => e.Rereads (.ofTokens .generic run)) ([d].filter fun e => e.text ≠ [])
      (spokenRuns (d.printedTokens gap)) := by
  rw [h.spokenRuns_printedTokens]
  by_cases hnil : d.text = []
  · simp [hnil]
  · simpa [hnil] using h.rereads shown gap

/-- Each member of a written group that has a written form has a run of its own. -/
theorem forall₂_spokenRuns {rest : List Dice} (read : ∀ e ∈ d :: rest, e.IsRead)
    (shown : ∀ e ∈ d :: rest, ∀ t ∈ e.test?, t.hidden = false) (gap : Gap) :
    List.Forall₂ (fun e run => e.Rereads (.ofTokens .generic run))
      ((d :: rest).filter fun e => e.text ≠ [])
      (spokenRuns (cut System.generic.rules .description
        (gap.text ++ Text.join "; ".toList ((d :: rest).map text)))) := by
  induction rest generalizing d gap with
  | nil =>
    have hjoin : Text.join "; ".toList ([d].map text) = d.text := by
      simp [Text.join, List.intercalate]
    obtain ⟨hd, -⟩ := List.forall_mem_cons.mp read
    obtain ⟨htest, -⟩ := List.forall_mem_cons.mp shown
    rw [hjoin, hd.cut_text htest]
    exact hd.forall₂_printedTokens htest gap
  | cons e rest ih =>
    obtain ⟨hd, hread⟩ := List.forall_mem_cons.mp read
    obtain ⟨htest, hshown⟩ := List.forall_mem_cons.mp shown
    rw [join_cons, ← List.append_assoc,
      cut_separated (fun _ => System.separates_of_mem_rules) System.generic.separator_mem_rules,
      spokenRuns_separated, hd.cut_text htest, ← List.singleton_append, List.filter_append]
    exact List.rel_append (hd.forall₂_printedTokens htest gap) (ih hread hshown .space)

/-- An expression without a written form is read again from nothing as the empty part. -/
theorem IsRead.rereads_empty (h : d.IsRead) (unwritten : d.text = []) :
    d.Rereads ⟨[Part.empty]⟩ := by
  have hterms := h.text_eq_nil_iff.mp unwritten
  refine ⟨?_, (h.test?_eq_none hterms).symm⟩
  rw [hterms]
  rfl

end Dice

namespace Group

/-- The members that are left of a group that is written and read again. -/
def printed (g : Group) : List Dice :=
  match g.dice.filter fun d => d.text ≠ [] with
  | [] => g.dice.take 1
  | dice => dice

/-- The group is a single expression, or all its members have a written form. -/
def IsPrinted (g : Group) : Prop := g.dice.length = 1 ∨ ∀ d ∈ g.dice, d.text ≠ []

variable {g : Group}

theorem printed_of_isPrinted (h : g.IsPrinted) : g.printed = g.dice := by
  rw [printed]
  rcases h with h | h
  · obtain ⟨d, hd⟩ := List.length_eq_one_iff.mp h
    rw [hd]
    by_cases hnil : d.text = [] <;> simp [hnil]
  · rw [List.filter_eq_self.mpr (by simpa using h)]
    cases g.dice <;> rfl

theorem length_printed_lt (nonempty : g.dice ≠ []) (h : ¬g.IsPrinted) :
    g.printed.length < g.dice.length := by
  obtain ⟨hlength, hunwritten⟩ := not_or.mp h
  have hpos := List.length_pos_iff.mpr nonempty
  rw [printed]
  split
  · rw [List.length_take]
    omega
  · simp only [not_forall, ne_eq, not_not] at hunwritten
    obtain ⟨d, hd, hnil⟩ := hunwritten
    exact List.length_filter_lt_length_iff_exists.mpr ⟨d, hd, by simp [hnil]⟩

/-- A group that plain dice were read as is read again member by member. -/
theorem rereads_parse {settings : Settings} (generic : settings.system = .generic)
    (nonempty : g.dice ≠ []) (read : ∀ d ∈ g.dice, d.IsRead)
    (shown : ∀ d ∈ g.dice, ∀ t ∈ d.test?, t.hidden = false) :
    List.Forall₂ Dice.Rereads g.printed ((Engine.ofSettings settings).parse g.text).dice := by
  have hsystem : System.ofSettings settings = .generic := by rw [System.ofSettings, generic]
  obtain ⟨d, rest, hdice⟩ := List.exists_cons_of_ne_nil nonempty
  have hruns : List.Forall₂ (fun e run => e.Rereads (.ofTokens .generic run))
      (g.dice.filter fun e => e.text ≠ [])
      (spokenRuns (cut System.generic.rules .description g.text)) := by
    rw [hdice] at read shown
    rw [text, hdice]
    exact Dice.forall₂_spokenRuns read shown .none
  rw [Engine.dice_parse, hsystem, diceOfTokens_eq, printed]
  split
  -- Nothing was written: the tokens are all silent and one empty expression is read.
  · rename_i hnone
    rw [hnone, List.forall₂_nil_left_iff] at hruns
    have hunwritten : d.text = [] := by
      rw [hdice, List.filter_eq_nil_iff] at hnone
      simpa using hnone d List.mem_cons_self
    rw [if_pos hruns, Dice.ofTokens_of_silent .generic (spokenRuns_eq_nil_iff.mp hruns), hdice]
    have hd := (read d (hdice ▸ List.mem_cons_self)).rereads_empty hunwritten
    exact .cons hd .nil
  · rename_i dice hsome
    have hne : spokenRuns (cut System.generic.rules .description g.text) ≠ [] := by
      intro hnil
      rw [hnil, List.forall₂_nil_right_iff] at hruns
      exact hsome hruns
    rw [if_neg hne, List.forall₂_map_right_iff]
    exact hruns

end Group

end Tabletop
