import Tabletop.Proofs.Part.Bare
import Tabletop.Proofs.Written.Printed

/-!
# Reading printed expressions

An expression that is written and read again has the parts that its terms are read as, without a
number that opens it, and the test that it had.
-/

namespace Tabletop

open Written Token

namespace Dice

/-- Parts stay as they are if those with a test have dice beside them. -/
theorem normalized_of_sides {parts : List Part}
    (h : (Part.testOf parts).isSome → ∃ p ∈ parts, 0 < p.sides) : normalized parts = ⟨parts⟩ := by
  cases htest : Part.testOf parts with
  | none =>
    refine normalized_of_untested fun p hp => ?_
    exact List.findSome?_eq_none_iff.mp htest p hp
  | some t =>
    rw [htest] at h
    rw [normalized, if_pos (by simpa using h rfl)]

end Dice

namespace Part

variable {p : Part}

theorem inRange_of_mem_modifierTerms {n : Int}
    (range : -Total.greatest ≤ n ∧ n ≤ Total.greatest) {t : Term} (h : t ∈ modifierTerms n) :
    t.operand.InRange := by
  rw [modifierTerms] at h
  split at h
  · simp at h
  · rw [List.mem_singleton.mp h, Operand.InRange, Numeral.value_ofNat]
    omega

/-- The terms of a part that was read have no number that is too large. -/
theorem IsRead.inRange (h : p.IsRead) {t : Term} (ht : t ∈ p.terms) : t.operand.InRange := by
  rw [terms] at ht
  split at ht
  · rcases List.mem_cons.mp ht with rfl | ht
    · refine ⟨by simpa [dieWord] using h.count, by simpa [dieWord] using h.sides, fun r hr => ?_⟩
      obtain ⟨rule, hrule, rfl⟩ := Option.map_eq_some_iff.mp hr
      simpa using h.rule rule hrule
    · exact inRange_of_mem_modifierTerms h.modifier ht
  · split at ht
    · simp at ht
    · rw [List.mem_singleton.mp ht, Operand.InRange, Numeral.value_ofNat]
      have := h.modifier
      omega

end Part

namespace Written

def readParts : List Term → List Part
  | [] => [.empty]
  | t :: rest => readOn t.part t.operand.isDice rest

/-- The token opens an expression with the term: a plus before dice may be left out. -/
def Term.Opens (t : Term) (k : Token) : Prop :=
  k = t.token ∨ t.lead.sign = .plus ∧ ∃ w, t.operand = .dice w ∧ k = w.token none

theorem Term.Opens.isTerm {t : Term} {k : Token} (h : t.Opens k) : k.isTerm = true := by
  rcases h with rfl | ⟨-, w, -, rfl⟩
  · rw [token]
    cases t.operand <;> rfl
  · rfl

theorem Term.Opens.passes {t : Term} {k : Token} (h : t.Opens k) :
    ∃ m, partCutter.Passes partCutter.fresh [k] m ∧ Waits m t.operand.isDice := by
  rcases h with rfl | ⟨-, w, hoperand, rfl⟩
  · exact passes_part t
  · rw [hoperand]
    exact ⟨_, partCutter_die none w, rfl⟩

theorem Term.Opens.gives {t : Term} {k : Token} (h : t.Opens k) (range : t.operand.InRange) :
    Part.Gives .generic [k] .empty t.part := by
  rcases h with rfl | ⟨hsign, w, hoperand, rfl⟩
  · exact gives_part range
  · rw [hoperand] at range
    rw [Term.part, hoperand, hsign]
    exact Part.gives_die .empty range

theorem tokens_of_alone {t : Term} (alone : t.gap = .none) : t.tokens = [t.token] := by
  rw [Term.tokens, alone]
  rfl

/-- The tokens of terms are all terms. -/
theorem filter_flatMap_tokens {terms : List Term} (alone : ∀ t ∈ terms, t.gap = .none) :
    (terms.flatMap Term.tokens).filter isTerm = terms.flatMap Term.tokens := by
  refine List.filter_eq_self.mpr fun k hk => ?_
  obtain ⟨t, ht, hk⟩ := List.mem_flatMap.mp hk
  rw [tokens_of_alone (alone t ht), List.mem_singleton] at hk
  exact Term.Opens.isTerm (.inl hk)

theorem filter_skippedTokens (s : Text) : (skippedTokens s).filter isTerm = [] := by
  rw [skippedTokens]
  split <;> rfl

theorem filter_testTokens (test : Option Test) : (Part.testTokens test).filter isTerm = [] := by
  rw [List.filter_eq_nil_iff]
  intro t ht
  obtain h | h := Part.kind_of_mem_testTokens ht <;> simp [isTerm, h]

/-- The first token of a term that opens an expression, with the blanks before it. -/
theorem exists_opens (gap : Gap) {t : Term} (stays : t.fades = false) :
    ∃ k, t.Opens k ∧ t.openTokens gap = gap.tokens ++ [k] := by
  rw [Term.fades] at stays
  rw [Term.openTokens]
  cases hsign : t.lead.sign with
  | plus =>
    cases hoperand : t.operand with
    | dice w => exact ⟨w.token none, .inr ⟨hsign, w, hoperand, rfl⟩, rfl⟩
    | number n => simp [hsign, hoperand, Operand.isDice] at stays
  | minus | times =>
    refine ⟨t.token, .inl rfl, ?_⟩
    cases t.operand <;> rfl

/-- Of the tokens of an expression, those of the terms that are heard are left. -/
theorem filter_openTokens (gap : Gap) {terms : List Term} (alone : ∀ t ∈ terms, t.gap = .none)
    (test : Option Test) :
    match heard terms with
    | [] => (openTokens gap terms ++ Part.testTokens test).filter isTerm = []
    | t :: rest => ∃ k, t.Opens k ∧
      (openTokens gap terms ++ Part.testTokens test).filter isTerm =
        k :: rest.flatMap Term.tokens := by
  have hgap : gap.tokens.filter isTerm = [] := filter_skippedTokens gap.text
  rw [List.filter_append, filter_testTokens, List.append_nil]
  cases terms with
  | nil => exact hgap
  | cons t rest =>
    obtain ⟨-, hrest⟩ := List.forall_mem_cons.mp alone
    rw [openTokens, List.filter_append, filter_flatMap_tokens hrest, heard]
    cases hfades : t.fades with
    | false =>
      obtain ⟨k, hk, htokens⟩ := exists_opens gap hfades
      refine ⟨k, hk, ?_⟩
      rw [htokens, List.filter_append, hgap, List.filter_cons_of_pos hk.isTerm]
      rfl
    | true =>
      obtain ⟨n, hoperand, hsign⟩ := exists_number_of_fades hfades
      have hskipped : (t.openTokens gap).filter isTerm = [] := by
        rw [Term.openTokens, hoperand, hsign]
        exact filter_skippedTokens _
      rw [hskipped, if_pos rfl, List.nil_append]
      cases rest with
      | nil => rfl
      | cons u more =>
        rw [List.flatMap_cons, tokens_of_alone (hrest u List.mem_cons_self)]
        exact ⟨u.token, .inl rfl, rfl⟩

theorem mem_of_mem_heard {terms : List Term} {t : Term} (h : t ∈ heard terms) : t ∈ terms := by
  cases terms with
  | nil => exact h
  | cons u rest =>
    rw [heard] at h
    split at h
    · exact List.mem_cons_of_mem u h
    · exact h

/-- Dice are heard wherever they stand. -/
theorem mem_heard_of_isDice {terms : List Term} {t : Term} (h : t ∈ terms)
    (dice : t.operand.isDice = true) : t ∈ heard terms := by
  cases terms with
  | nil => exact h
  | cons u rest =>
    rw [heard]
    split
    · rename_i fades
      refine (List.mem_cons.mp h).resolve_left ?_
      rintro rfl
      simp [Term.fades, dice] at fades
    · exact h

/-- The terms that are heard are read as their parts. -/
theorem bare_openTokens (gap : Gap) {terms : List Term} (alone : ∀ t ∈ terms, t.gap = .none)
    (range : ∀ t ∈ terms, t.operand.InRange) (test : Option Test)
    (nonempty : openTokens gap terms ++ Part.testTokens test ≠ []) :
    ((partRuns (openTokens gap terms ++ Part.testTokens test)).map (Part.ofTokens .generic)).map
      Part.bare = readParts (heard terms) := by
  have hfilter := filter_openTokens gap alone test
  cases hheard : heard terms with
  | nil =>
    rw [hheard] at hfilter
    exact Part.bare_partRuns_of_filter_eq_nil nonempty hfilter
  | cons t rest =>
    rw [hheard] at hfilter
    obtain ⟨k, hk, hfilter⟩ := hfilter
    have hrange : ∀ u ∈ t :: rest, u.operand.InRange :=
      fun u hu => range u (mem_of_mem_heard (hheard ▸ hu))
    obtain ⟨ht, hrest⟩ := List.forall_mem_cons.mp hrange
    obtain ⟨m, hpasses, hwaits⟩ := hk.passes
    -- The filtered tokens are those of terms without blanks between them.
    have hruns := partRuns_terms hrest .none _ (List.cons_ne_nil k [])
      hpasses hwaits (hk.gives ht) (isSimple_part ht)
    rw [Part.bare_partRuns (by simp [hfilter]), hfilter]
    simpa [Gap.tokens, Gap.none, readParts] using hruns

/-- Where terms have dice with sides, so have the parts that they are read as. -/
theorem exists_sides_readOn {p : Part} {waits : Bool} {terms : List Term}
    (h : 0 < p.sides ∨ ∃ t ∈ terms, t.operand.isDice = true ∧ 0 < t.part.sides) :
    ∃ q ∈ readOn p waits terms, 0 < q.sides := by
  induction terms generalizing p waits with
  | nil => simpa [readOn] using h
  | cons t rest ih =>
    rw [readOn]
    split
    · rename_i hjoins
      refine ih ?_
      rcases h with hp | ⟨u, hu, hdice, hsides⟩
      · left
        obtain ⟨sign, modifier, hmodified⟩ := p.exists_withModifier_eq t.token
        rw [hmodified]
        exact hp
      · refine .inr ⟨u, (List.mem_cons.mp hu).resolve_left ?_, hdice, hsides⟩
        rintro rfl
        simp [Term.joins, hdice] at hjoins
    · rcases h with hp | ⟨u, hu, hdice, hsides⟩
      · exact ⟨p, List.mem_cons_self, hp⟩
      · have hlater : 0 < t.part.sides ∨
            ∃ u ∈ rest, u.operand.isDice = true ∧ 0 < u.part.sides := by
          rcases List.mem_cons.mp hu with rfl | hu
          · exact .inl hsides
          · exact .inr ⟨u, hu, hdice, hsides⟩
        obtain ⟨q, hq, hqsides⟩ := ih hlater
        exact ⟨q, List.mem_cons_of_mem p hq, hqsides⟩

theorem exists_sides_readParts {terms : List Term} {t : Term} (h : t ∈ terms)
    (dice : t.operand.isDice = true) (sides : 0 < t.part.sides) :
    ∃ q ∈ readParts terms, 0 < q.sides := by
  cases terms with
  | nil => simp at h
  | cons u rest =>
    refine exists_sides_readOn ?_
    rcases List.mem_cons.mp h with rfl | h
    · exact .inl sides
    · exact .inr ⟨t, h, dice, sides⟩

theorem readParts_ne_nil (terms : List Term) : readParts terms ≠ [] := by
  cases terms with
  | nil => simp [readParts]
  | cons t rest => exact readOn_ne_nil _ _ _

theorem kind_of_isTerm {k : Token} (h : k.isTerm = true) : k.kind = .dice ∨ k.kind = .modifier := by
  simpa [isTerm] using h

/-- There are no tests and no separators among the tokens of terms. -/
theorem kind_of_mem_openTokens {gap : Gap} {terms : List Term} {k : Token}
    (h : k ∈ openTokens gap terms) :
    k.kind = .description ∨ k.kind = .dice ∨ k.kind = .modifier := by
  cases terms with
  | nil => exact .inl (kind_of_mem_gap h)
  | cons t rest =>
    rw [openTokens, List.mem_append] at h
    rcases h with h | h
    · cases hfades : t.fades with
      | true =>
        obtain ⟨n, hoperand, hsign⟩ := exists_number_of_fades hfades
        rw [Term.openTokens, hoperand, hsign] at h
        exact .inl (kind_of_mem_skippedTokens h)
      | false =>
        obtain ⟨first, hfirst, htokens⟩ := exists_opens gap hfades
        rw [htokens, List.mem_append, List.mem_singleton] at h
        refine h.imp kind_of_mem_gap ?_
        rintro rfl
        exact kind_of_isTerm hfirst.isTerm
    · obtain ⟨u, -, hk⟩ := List.mem_flatMap.mp h
      rw [Term.tokens, List.mem_append, List.mem_singleton] at hk
      refine hk.imp kind_of_mem_gap ?_
      rintro rfl
      exact kind_of_isTerm (Term.Opens.isTerm (.inl rfl))

theorem openTokens_cons_ne_nil (gap : Gap) (t : Term) (rest : List Term) :
    openTokens gap (t :: rest) ≠ [] := by
  refine List.append_ne_nil_of_left_ne_nil ?_ _
  cases hfades : t.fades with
  | true =>
    obtain ⟨n, hoperand, hsign⟩ := exists_number_of_fades hfades
    rw [Term.openTokens, hoperand, hsign]
    simp [skippedTokens, n.nonempty]
  | false =>
    obtain ⟨k, -, htokens⟩ := exists_opens gap hfades
    simp [htokens]

end Written

namespace Dice

/-- What an expression that was written and read again has of the first one. -/
structure Rereads (d d' : Dice) : Prop where
  parts : d'.parts.map Part.bare = readParts (heard d.terms)
  test : d'.test? = d.test?

def printedTokens (gap : Gap) (d : Dice) : List Token :=
  openTokens gap d.terms ++ Part.testTokens d.test?

variable {d : Dice}

theorem gap_of_mem_terms {t : Term} (h : t ∈ d.terms) : t.gap = .none := by
  obtain ⟨p, -, ht⟩ := List.mem_flatMap.mp h
  exact Part.gap_of_mem_terms ht

theorem IsRead.inRange (h : d.IsRead) {t : Term} (ht : t ∈ d.terms) : t.operand.InRange := by
  obtain ⟨p, hp, ht⟩ := List.mem_flatMap.mp ht
  exact (h.parts p hp).inRange ht

theorem IsRead.isCanonical (h : d.IsRead) (shown : ∀ t ∈ d.test?, t.hidden = false) :
    ∀ t ∈ d.test?, t.IsCanonical := by
  intro t ht
  obtain ⟨p, hp, htest⟩ := List.exists_of_findSome?_eq_some ht
  exact (h.parts p hp).test t htest (shown t ht)

theorem IsRead.cut_text (h : d.IsRead) (shown : ∀ t ∈ d.test?, t.hidden = false) (gap : Gap) :
    cut System.generic.rules .description (gap.text ++ d.text) = d.printedTokens gap := by
  rw [h.text_eq]
  refine cut_openText gap (fun t => gap_of_mem_terms) (h.isCanonical shown) fun tested => ?_
  obtain ⟨t, ht, hdice, -⟩ := h.exists_dice tested
  exact ⟨t, ht, hdice⟩

/-- The test tokens of an expression are read as its test. -/
theorem IsRead.testOf_printedTokens (h : d.IsRead) (shown : ∀ t ∈ d.test?, t.hidden = false)
    (gap : Gap) :
    Part.testOf ((partRuns (d.printedTokens gap)).map (Part.ofTokens .generic)) = d.test? := by
  have hopen : ∀ k ∈ openTokens gap d.terms, k.isTest = false := by
    intro k hk
    rcases kind_of_mem_openTokens hk with h | h | h <;> simp [isTest, h]
  cases htest : d.test? with
  | none =>
    -- There is no test token, so any test will do.
    have hnone : ∀ k ∈ d.printedTokens gap, k.isTest = false := by
      simpa [printedTokens, htest, Part.testTokens] using hopen
    have hany : (d.printedTokens gap).any isTest = false := by simpa using hnone
    have hreads : ∀ k ∈ d.printedTokens gap, k.isTest = true →
        Test.ofToken? k = some ⟨.vs, .ge, 0, false⟩ := by
      intro k hk hkind
      simp [hnone k hk] at hkind
    rw [Part.testOf_partRuns hreads, hany]
    rfl
  | some t =>
    have hcanonical := h.isCanonical shown t htest
    have hsize : ((Numeral.ofNat t.value.natAbs).value : Int) ≤ Total.greatest := by
      have := hcanonical.value
      rw [Numeral.value_ofNat]
      omega
    have hread : Test.ofToken? (testToken t.target t.op (.ofNat t.value.natAbs)) = some t := by
      have hvalue : ((Numeral.ofNat t.value.natAbs).value : Int) = t.value := by
        have := hcanonical.value
        rw [Numeral.value_ofNat]
        omega
      rw [ofToken?_testToken hcanonical.op hsize, hvalue, ← hcanonical.shown]
    have hreads : ∀ k ∈ d.printedTokens gap, k.isTest = true → Test.ofToken? k = some t := by
      rw [printedTokens, htest]
      refine List.forall_mem_append.mpr ⟨fun k hk hkind => ?_, ?_⟩
      · simp [hopen k hk] at hkind
      · refine List.forall_mem_append.mpr ⟨fun k hk hkind => ?_, fun k hk _ => ?_⟩
        · simp [isTest, kind_of_mem_gap hk] at hkind
        · rw [List.mem_singleton.mp hk]
          exact hread
    have hany : (d.printedTokens gap).any isTest = true := by
      refine List.any_eq_true.mpr ⟨testToken t.target t.op (.ofNat t.value.natAbs), ?_, rfl⟩
      simp [printedTokens, htest, Part.testTokens]
    rw [Part.testOf_partRuns hreads, hany]
    rfl

/-- An expression that is written and read again has the parts of the terms that are heard, and the
test that it had. -/
theorem IsRead.rereads (h : d.IsRead) (shown : ∀ t ∈ d.test?, t.hidden = false) (gap : Gap) :
    d.Rereads (.ofTokens .generic (d.printedTokens gap)) := by
  have htest := h.testOf_printedTokens shown gap
  by_cases hnil : d.printedTokens gap = []
  · have hterms : heard d.terms = [] := by
      cases hd : d.terms with
      | nil => rfl
      | cons t rest =>
        rw [printedTokens, List.append_eq_nil_iff, hd] at hnil
        exact absurd hnil.1 (openTokens_cons_ne_nil gap t rest)
    rw [hnil] at htest ⊢
    refine ⟨?_, htest⟩
    rw [hterms]
    rfl
  · have hbare : ((partRuns (d.printedTokens gap)).map (Part.ofTokens .generic)).map Part.bare =
        readParts (heard d.terms) :=
      bare_openTokens gap (fun t => gap_of_mem_terms) (fun t => h.inRange) d.test? hnil
    have hsides : d.test?.isSome →
        ∃ p ∈ (partRuns (d.printedTokens gap)).map (Part.ofTokens .generic), 0 < p.sides := by
      intro tested
      obtain ⟨t, ht, hdice, hsides⟩ := h.exists_dice tested
      obtain ⟨q, hq, hqsides⟩ := exists_sides_readParts (mem_heard_of_isDice ht hdice) hdice hsides
      rw [← hbare] at hq
      obtain ⟨p, hp, rfl⟩ := List.mem_map.mp hq
      exact ⟨p, hp, hqsides⟩
    have hof : ofTokens .generic (d.printedTokens gap) =
        ⟨(partRuns (d.printedTokens gap)).map (Part.ofTokens .generic)⟩ := by
      rw [ofTokens]
      split
      · rename_i hparts
        rw [hparts] at hbare
        exact absurd hbare.symm (readParts_ne_nil _)
      · exact normalized_of_sides (htest ▸ hsides)
    rw [hof]
    exact ⟨hbare, htest⟩

end Dice

end Tabletop
