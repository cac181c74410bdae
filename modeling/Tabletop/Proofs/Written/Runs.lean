import Tabletop.Proofs.Token.Fits
import Tabletop.Proofs.Written.Parts

/-!
# Runs of written tokens

How the two cutters treat the tokens of written words. Only dice, flat terms and tests matter to
them; in particular the tokens of a part always make up one run.
-/

namespace Tabletop

open Written Token

namespace Token

/-- The cutter for parts takes no notice of tokens that are neither dice nor modifiers. -/
theorem partCutter_idle {tokens : List Token}
    (idle : ∀ t ∈ tokens, t.kind ≠ .dice ∧ t.kind ≠ .modifier) (m : PartMemory) :
    partCutter.Passes m tokens m := by
  refine Cutter.passes_of_idle fun t ht => ?_
  obtain ⟨hdice, hmodifier⟩ := idle t ht
  cases hk : t.kind <;> simp_all [partCutter]

theorem partCutter_die (lead : Option Lead) (w : DieWord) :
    partCutter.Passes partCutter.fresh [w.token lead] ⟨true, false, false⟩ :=
  Cutter.passes_single rfl

theorem breaks_flatToken (m : PartMemory) (lead : Lead) (n : Numeral) :
    partCutter.breaks m (flatToken lead n) =
      (m.modifier || m.times || (lead.sign == .times && m.dice)) :=
  congrArg (fun s => m.modifier || m.times || (s == Sign.times && m.dice))
    (Sign.ofCapture_symbol lead.sign)

theorem remember_flatToken (m : PartMemory) (lead : Lead) (n : Numeral) :
    partCutter.remember m (flatToken lead n) = ⟨m.dice, true, lead.sign == .times⟩ :=
  congrArg (fun s => PartMemory.mk m.dice true (s == Sign.times)) (Sign.ofCapture_symbol lead.sign)

theorem partCutter_flat {m : PartMemory} (first : m.modifier = false ∧ m.times = false)
    {lead : Lead} (n : Numeral) (joins : lead.sign = .times → m.dice = false) :
    partCutter.Passes m [flatToken lead n] ⟨m.dice, true, lead.sign == .times⟩ := by
  have hbreaks : partCutter.breaks m (flatToken lead n) = false := by
    rw [breaks_flatToken, first.1, first.2]
    cases hs : lead.sign <;> simp_all
  have h := Cutter.passes_single hbreaks
  rwa [remember_flatToken] at h

/-- Tokens other than unsigned dice and tests fit into every run for an expression. -/
theorem rollCutter_calm {tokens : List Token}
    (calm : ∀ t ∈ tokens, t.kind ≠ .test ∧ (t.kind = .dice → t.capture 1 ≠ none))
    (m : RollMemory) : ∃ rolls, rollCutter.Passes m tokens ⟨rolls, m.tests⟩ := by
  induction tokens generalizing m with
  | nil => exact ⟨m.rolls, Cutter.passes_nil _⟩
  | cons t rest ih =>
    obtain ⟨⟨htest, hdice⟩, hrest⟩ := List.forall_mem_cons.mp calm
    have hbreaks : rollCutter.breaks m t = false := by
      cases hk : t.kind <;> simp_all [rollCutter]
    have hremember : (rollCutter.remember m t).tests = m.tests := by
      cases hk : t.kind <;> simp_all [rollCutter]
    obtain ⟨rolls, hpasses⟩ := ih hrest (rollCutter.remember m t)
    rw [hremember] at hpasses
    exact ⟨rolls, (Cutter.passes_single hbreaks).append hpasses⟩

/-- A die fits where it has a sign or nothing was rolled or tested before. -/
theorem rollCutter_die {m : RollMemory} {lead : Option Lead}
    (fits : lead = none → m.rolls = false ∧ m.tests = false) (w : DieWord) :
    rollCutter.Passes m [w.token lead] ⟨true, m.tests⟩ := by
  have hbreaks : rollCutter.breaks m (w.token lead) = false := by
    cases lead with
    | none => simp [rollCutter, DieWord.token, fits rfl]
    | some l => rfl
  exact Cutter.passes_single hbreaks

/-- Tokens that all fit into one run, and say something, make up one expression. -/
theorem spokenRuns_of_fits {tokens : List Token} (whole : ∀ t ∈ tokens, t.kind ≠ .separator)
    (spoken : ∃ t ∈ tokens, t.isBlankText = false)
    (fits : rollCutter.Fits rollCutter.fresh tokens) : spokenRuns tokens = [tokens] := by
  obtain ⟨t, ht, hspoken⟩ := spoken
  have hwhole : ∀ t ∈ tokens, (t.kind == .separator) = false := by simpa using whole
  have hany : tokens.any (fun t => !t.isBlankText) = true :=
    List.any_eq_true.mpr ⟨t, ht, by rw [hspoken]; rfl⟩
  rw [spokenRuns, rollRuns, List.splitOnP_eq_singleton hwhole, List.flatMap_singleton,
    Cutter.runs_of_fits (List.ne_nil_of_mem ht) fits]
  exact List.filter_eq_self.mpr fun run hrun => List.mem_singleton.mp hrun ▸ hany

theorem kind_of_mem_gap {gap : Gap} {t : Token} (h : t ∈ gap.tokens) : t.kind = .description :=
  kind_of_mem_skippedTokens h

/-- Blanks between terms fit into every run. -/
theorem partCutter_gap (gap : Gap) (m : PartMemory) : partCutter.Passes m gap.tokens m :=
  partCutter_idle (fun _ ht => by simp [kind_of_mem_gap ht]) m

theorem rollCutter_gap (gap : Gap) (m : RollMemory) : rollCutter.Passes m gap.tokens m :=
  Cutter.passes_of_idle fun _ ht => by simp [rollCutter, kind_of_mem_gap ht]

end Token

namespace Part

section

variable {system : System} {p : Part}

theorem kind_of_mem_markTokens {kind : Kind} {mark : Text} {n : Option Nat} {t : Token}
    (h : t ∈ markTokens kind mark n) : t.kind = .description ∨ t.kind = kind := by
  cases n with
  | none => simp [markTokens] at h
  | some n =>
    refine (List.mem_append.mp h).imp kind_of_mem_gap fun h => ?_
    rw [List.mem_singleton.mp h]
    rfl

/-- The marks behind dice are no terms, tests or separators. -/
theorem kind_of_mem_marks {t : Token} (h : t ∈ markTokens .hunger ['h'] p.hunger ++
    markTokens .crit "crit".toList p.critThreshold) :
    t.kind = .description ∨ t.kind = .hunger ∨ t.kind = .crit := by
  cases List.mem_append.mp h with
  | inl h => exact (kind_of_mem_markTokens h).imp id .inl
  | inr h => exact (kind_of_mem_markTokens h).imp id .inr

theorem kind_of_mem_testTokens {test : Option Test} {t : Token} (h : t ∈ testTokens test) :
    t.kind = .description ∨ t.kind = .test := by
  cases test with
  | none => simp [testTokens] at h
  | some test =>
    refine (List.mem_append.mp h).imp kind_of_mem_gap fun h => ?_
    rw [List.mem_singleton.mp h]
    rfl

theorem kind_of_mem_modifierTokens {n : Int} {t : Token} (h : t ∈ modifierTokens n) :
    t.kind = .modifier := by
  rw [modifierTokens] at h
  split at h
  · rw [List.mem_singleton.mp h]
    rfl
  · split at h
    · rw [List.mem_singleton.mp h]
      rfl
    · simp at h

/-- There is no separator among the tokens of a part. -/
theorem kind_ne_separator (p : Part) (gap : Gap) (lead : Option Lead) :
    ∀ t ∈ p.tokens gap lead, t.kind ≠ .separator := by
  have hgap : ∀ t ∈ gap.tokens, t.kind ≠ .separator := by
    intro t ht
    simp [kind_of_mem_gap ht]
  have hmodifier : ∀ t ∈ modifierTokens p.modifier, t.kind ≠ .separator := by
    intro t ht
    simp [kind_of_mem_modifierTokens ht]
  have hmarks : ∀ t ∈ markTokens .hunger ['h'] p.hunger ++
      markTokens .crit "crit".toList p.critThreshold, t.kind ≠ .separator := by
    intro t ht
    obtain h | h | h := kind_of_mem_marks ht <;> simp [h]
  have htest : ∀ t ∈ testTokens p.test, t.kind ≠ .separator := by
    intro t ht
    obtain h | h := kind_of_mem_testTokens ht <;> simp [h]
  rw [tokens]
  refine List.forall_mem_append.mpr ⟨List.forall_mem_append.mpr ⟨hgap, ?_⟩, htest⟩
  split
  · exact List.forall_mem_cons.mpr
      ⟨by simp [DieWord.token], List.forall_mem_append.mpr ⟨hmodifier, hmarks⟩⟩
  · simp [flatToken]

theorem modifierTokens_passes (n : Int) :
    partCutter.Passes ⟨true, false, false⟩ (modifierTokens n) ⟨true, n != 0, false⟩ := by
  rw [modifierTokens]
  split
  · rw [show (n != 0) = true by simp; omega]
    exact partCutter_flat ⟨rfl, rfl⟩ _ (by simp)
  · split
    · rw [show (n != 0) = true by simp; omega]
      exact partCutter_flat ⟨rfl, rfl⟩ _ (by simp)
    · rw [show (n != 0) = false by simp; omega]
      exact Cutter.passes_nil _

theorem testTokens_passes (test : Option Test) (m : PartMemory) :
    partCutter.Passes m (testTokens test) m :=
  partCutter_idle (fun _ ht => by obtain h | h := kind_of_mem_testTokens ht <;> simp [h]) m

/-- The tokens of dice make up one run for a part. -/
theorem IsDie.partRun (die : p.IsDie system) (gap : Gap) (lead : Option Lead) :
    partCutter.Passes partCutter.fresh (p.tokens gap lead) ⟨true, p.modifier != 0, false⟩ := by
  have hmarks : partCutter.Passes ⟨true, p.modifier != 0, false⟩
      (markTokens .hunger ['h'] p.hunger ++ markTokens .crit "crit".toList p.critThreshold)
      ⟨true, p.modifier != 0, false⟩ :=
    partCutter_idle (fun _ ht => by obtain h | h | h := kind_of_mem_marks ht <;> simp [h]) _
  have hsides : 0 < p.sides := die.sides.1
  rw [tokens, if_pos hsides]
  exact ((partCutter_gap gap _).append ((partCutter_die lead p.dieWord).append
    ((modifierTokens_passes p.modifier).append hmarks))).append (testTokens_passes p.test _)

/-- The tokens of a flat term make up one run for a part. -/
theorem IsFlat.partRun (flat : p.IsFlat) :
    partCutter.Passes partCutter.fresh (p.tokens .none (some p.lead))
      ⟨false, true, p.sign == .times⟩ := by
  have hsides : p.sides = 0 := by rw [flat.alone]
  have hflat : partCutter.Passes partCutter.fresh
      [flatToken p.lead (.ofNat p.modifier.natAbs)] ⟨false, true, p.sign == .times⟩ :=
    partCutter_flat ⟨rfl, rfl⟩ _ fun _ => rfl
  rw [tokens, if_neg (by omega)]
  exact hflat.append (testTokens_passes p.test _)

theorem testTokens_rollPasses (test : Option Test) {m : RollMemory} (untested : m.tests = false) :
    rollCutter.Passes m (testTokens test) ⟨m.rolls, test.isSome⟩ := by
  cases test with
  | none =>
    obtain ⟨rolls, tests⟩ := m
    obtain rfl : tests = false := untested
    exact Cutter.passes_nil _
  | some test =>
    exact (rollCutter_gap .space m).append (Cutter.passes_single untested)

/-- The tokens of a part fit into the run of an expression, if it has a sign or opens the run and
nothing was tested before. -/
theorem rollRun (p : Part) (gap : Gap) (lead : Option Lead) {m : RollMemory}
    (untested : m.tests = false) (opens : lead = none → m.rolls = false) :
    ∃ rolls, rollCutter.Passes m (p.tokens gap lead) ⟨rolls, p.test.isSome⟩ := by
  have hbody : ∃ rolls, rollCutter.Passes m (if 0 < p.sides then
        p.dieWord.token lead :: (modifierTokens p.modifier ++
          (markTokens .hunger ['h'] p.hunger ++ markTokens .crit "crit".toList p.critThreshold))
      else [flatToken (lead.getD p.lead) (.ofNat p.modifier.natAbs)]) ⟨rolls, m.tests⟩ := by
    split
    · have hcalm : ∀ t ∈ modifierTokens p.modifier ++ (markTokens .hunger ['h'] p.hunger ++
          markTokens .crit "crit".toList p.critThreshold),
          t.kind ≠ .test ∧ (t.kind = .dice → t.capture 1 ≠ none) := by
        refine List.forall_mem_append.mpr ⟨fun t ht => ?_, fun t ht => ?_⟩
        · simp [kind_of_mem_modifierTokens ht]
        · obtain h | h | h := kind_of_mem_marks ht <;> simp [h]
      obtain ⟨rolls, hpasses⟩ := rollCutter_calm hcalm ⟨true, m.tests⟩
      exact ⟨rolls, (rollCutter_die (fun h => ⟨opens h, untested⟩) p.dieWord).append hpasses⟩
    · exact ⟨true, Cutter.passes_single rfl⟩
  obtain ⟨rolls, hbody⟩ := hbody
  rw [untested] at hbody
  exact ⟨rolls, ((rollCutter_gap gap m).append hbody).append (testTokens_rollPasses p.test rfl)⟩

end

end Part

end Tabletop
