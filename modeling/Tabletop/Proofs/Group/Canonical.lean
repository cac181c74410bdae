import Mathlib.Data.List.Chain
import Tabletop.Proofs.Written.Runs

/-!
# Reading back what was written

A group of which the written form tells everything can be read back from it. The text is cut into
the tokens of one part after the other; each expression is one run of tokens, and each part is
one run within it.
-/

namespace Tabletop

open Written Token

/-- One part can stand behind another one in an expression: the test comes last, and a flat term
that is added or subtracted does not look like the modifier of the part before it. -/
structure Part.Follows (system : System) (p q : Part) : Prop where
  untested : p.test = none
  canonical : q.IsDie system ∨ q.IsFlat ∧ (q.sign = .times ∨ p.modifier ≠ 0)

/-- An expression of which the written form tells everything. -/
structure Dice.IsCanonical (system : System) (d : Dice) : Prop where
  first : ∃ p ∈ d.parts.head?, p.IsDie system
  later : d.parts.IsChain (Part.Follows system)
  test : ∀ t ∈ d.test?, t.IsCanonical

namespace Part

/-- The sign before the first part, which is left out when it is a plus. -/
def opening (p : Part) : Option Lead := if p.sign = .plus then none else some p.lead

def laterText (p : Part) : Text := p.signedText ++ testText p.test

def laterTokens (p : Part) : List Token := p.tokens .none (some p.lead)

section

variable {system : System} {p : Part} {rest : List Part}

theorem shownSign_of_sides (h : 0 < p.sides) : p.shownSign = p.sign := if_neg (by omega)

theorem map_opening (p : Part) : (p.opening.map Lead.sign).getD .plus = p.sign := by
  rw [opening]
  split
  · rename_i h
    exact h.symm
  · rfl

theorem forall_later (h : (p :: rest).IsChain (Follows system)) :
    ∀ q ∈ rest, q.IsDie system ∨ q.IsFlat := by
  induction rest generalizing p with
  | nil => simp
  | cons q rest ih =>
    rw [List.isChain_cons_cons] at h
    exact List.forall_mem_cons.mpr ⟨h.1.canonical.imp id And.left, ih h.2⟩

theorem testOf_of_follows {q : Part} (h : Follows system p q) :
    testOf (p :: q :: rest) = testOf (q :: rest) := by
  simp [testOf, h.untested]

/-- The test of an expression stands behind its last part. -/
theorem testText_testOf (h : (p :: rest).IsChain (Follows system)) :
    rest.flatMap signedText ++ testText (testOf (p :: rest)) =
      testText p.test ++ rest.flatMap laterText := by
  induction rest generalizing p with
  | nil => simp [testOf]
  | cons q rest ih =>
    rw [List.isChain_cons_cons] at h
    rw [testOf_of_follows h.1, List.flatMap_cons, List.append_assoc, ih h.2, h.1.untested]
    simp [laterText, testText]

theorem isWritten_of_canonical (h : p.IsDie system ∨ p.IsFlat) : p.isWritten = true := by
  cases h with
  | inl die =>
    have hsides : 0 < p.sides := die.sides.1
    simp [isWritten, hsides]
  | inr flat =>
    have hmodifier : p.modifier ≠ 0 := by have := flat.modifier.1; omega
    simp [isWritten, hmodifier]

/-- The written form of an expression, part by part. -/
theorem expressionText_eq (first : p.IsDie system) (h : (p :: rest).IsChain (Follows system)) :
    expressionText (p :: rest) =
      (p.opening.map Lead.text).getD [] ++ p.text ++ testText p.test ++
        rest.flatMap laterText := by
  have hwritten : ∀ q ∈ p :: rest, q.isWritten = true :=
    List.forall_mem_cons.mpr ⟨isWritten_of_canonical (.inl first),
      fun q hq => isWritten_of_canonical (forall_later h q hq)⟩
  have hterms : termsText (p :: rest) =
      (p.opening.map Lead.text).getD [] ++ p.text ++ rest.flatMap signedText := by
    rw [termsText, shownSign_of_sides first.sides.1, opening]
    split
    · rfl
    · rw [signedText, shownSign_of_sides first.sides.1]
      rfl
  have hany : (p :: rest).any isWritten = true := by simp [hwritten p]
  have htest : expressionText (p :: rest) =
      termsText (p :: rest) ++ testText (testOf (p :: rest)) := by
    rw [expressionText_of_isWritten fun _ => hany, List.filter_eq_self.mpr hwritten]
  rw [htest, hterms, List.append_assoc, testText_testOf h, List.append_assoc _ (testText _)]

/-- The test of each part is one that its written form tells everything about. -/
theorem forall_tested (h : (p :: rest).IsChain (Follows system))
    (canonical : ∀ t ∈ testOf (p :: rest), t.IsCanonical) :
    ∀ q ∈ p :: rest, ∀ t ∈ q.test, t.IsCanonical := by
  induction rest generalizing p with
  | nil =>
    simpa [testOf] using canonical
  | cons q rest ih =>
    rw [List.isChain_cons_cons] at h
    rw [testOf_of_follows h.1] at canonical
    exact List.forall_mem_cons.mpr ⟨by simp [h.1.untested], ih h.2 canonical⟩

/-- The tokens of a later part give it back. -/
theorem ofTokens_laterTokens (canonical : p.IsDie system ∨ p.IsFlat)
    (tested : ∀ t ∈ p.test, t.IsCanonical) : ofTokens system p.laterTokens = p := by
  cases canonical with
  | inl die => exact ofTokens_of_gives (die.gives tested .none rfl) die.plain.1
  | inr flat => exact ofTokens_of_gives (flat.gives tested) (by rw [flat.alone])

theorem stops_laterText (p : Part) : Stops p.laterText :=
  stops_cons (endsWord_symbol _) _

theorem reads_laterText (canonical : p.IsDie system ∨ p.IsFlat)
    (tested : ∀ t ∈ p.test, t.IsCanonical) : Reads system p.laterText p.laterTokens := by
  cases canonical with
  | inl die =>
    have hreads := die.reads tested .none (some p.lead)
    rw [laterText, signedText, shownSign_of_sides die.sides.1]
    exact hreads
  | inr flat => exact flat.reads tested

/-- The first token of a part that follows does not fit into the run of the part before. -/
theorem breaks_of_follows {q : Part} {m : PartMemory} (ends : (m.dice || m.modifier) = true)
    (modified : p.modifier ≠ 0 → m.modifier = true) (h : Follows system p q) :
    ∃ t more, q.laterTokens = t :: more ∧ partCutter.breaks m t = true := by
  rcases h.canonical with die | ⟨flat, hsign⟩
  · have hsides : 0 < q.sides := die.sides.1
    exact ⟨q.dieWord.token (some q.lead), _,
      by rw [laterTokens, tokens, if_pos hsides]; rfl, ends⟩
  · have hsides : q.sides = 0 := by rw [flat.alone]
    refine ⟨flatToken q.lead (.ofNat q.modifier.natAbs), _,
      by rw [laterTokens, tokens, if_neg (by omega)]; rfl, ?_⟩
    rw [breaks_flatToken]
    cases hsign with
    | inl hsign =>
      have htimes : q.lead.sign = .times := hsign
      rw [htimes]
      cases hd : m.dice <;> simp_all
    | inr hp =>
      rw [modified hp]
      rfl

/-- The run that a part makes up, and what is remembered of it. -/
theorem partRun_later (canonical : p.IsDie system ∨ p.IsFlat) :
    ∃ m : PartMemory, partCutter.Passes partCutter.fresh p.laterTokens m ∧
      (m.dice || m.modifier) = true ∧ (p.modifier ≠ 0 → m.modifier = true) := by
  cases canonical with
  | inl die => exact ⟨_, die.partRun .none (some p.lead), rfl, by simp⟩
  | inr flat => exact ⟨_, flat.partRun, rfl, fun _ => rfl⟩

/-- Each part of an expression has a run of its own. -/
theorem partRuns_later {run : List Token} {m : PartMemory} (nonempty : run ≠ [])
    (passes : partCutter.Passes partCutter.fresh run m) (ends : (m.dice || m.modifier) = true)
    (modified : p.modifier ≠ 0 → m.modifier = true) (h : (p :: rest).IsChain (Follows system)) :
    partRuns (run ++ rest.flatMap laterTokens) = run :: rest.map laterTokens := by
  induction rest generalizing p run m with
  | nil =>
    rw [List.flatMap_nil, List.append_nil]
    exact Cutter.runs_of_fits nonempty passes.1
  | cons q rest ih =>
    rw [List.isChain_cons_cons] at h
    obtain ⟨t, more, htokens, hbreaks⟩ := breaks_of_follows ends modified h.1
    obtain ⟨m', hpasses, hends, hmodified⟩ := partRun_later (h.1.canonical.imp id And.left)
    have hrest := ih (by rw [htokens]; simp) hpasses hends hmodified h.2
    rw [← passes.2] at hbreaks
    rw [partRuns, List.flatMap_cons, htokens, List.cons_append,
      Cutter.runs_append_cons nonempty passes.1 hbreaks, List.map_cons, htokens,
      ← List.cons_append, ← htokens]
    exact congrArg (run :: ·) hrest

/-- The tokens of all parts of an expression make up one run. -/
theorem rollRun_later {tokens : List Token} {m m' : RollMemory}
    (passes : rollCutter.Passes m tokens m') (tests : m'.tests = p.test.isSome)
    (h : (p :: rest).IsChain (Follows system)) :
    rollCutter.Fits m (tokens ++ rest.flatMap laterTokens) := by
  induction rest generalizing p tokens m' with
  | nil =>
    rw [List.flatMap_nil, List.append_nil]
    exact passes.1
  | cons q rest ih =>
    rw [List.isChain_cons_cons] at h
    have huntested : m'.tests = false := by rw [tests, h.1.untested]; rfl
    obtain ⟨rolls, hpasses⟩ := q.rollRun .none (some q.lead) huntested (by simp)
    rw [List.flatMap_cons, ← List.append_assoc]
    exact ih (passes.append hpasses) rfl h.2

end

end Part

namespace Dice

def tokens (gap : Gap) (d : Dice) : List Token :=
  match d.parts with
  | [] => []
  | p :: rest => p.tokens gap p.opening ++ rest.flatMap Part.laterTokens

variable {system : System} {d : Dice}

theorem IsCanonical.reads (canonical : d.IsCanonical system) (gap : Gap) :
    Reads system (gap.text ++ d.text) (d.tokens gap) := by
  obtain ⟨parts⟩ := d
  obtain ⟨⟨p, hp, first⟩, later, test⟩ := canonical
  obtain ⟨rest, rfl⟩ := List.head?_eq_some_iff.mp hp
  have htested := Part.forall_tested later test
  obtain ⟨htest, htests⟩ := List.forall_mem_cons.mp htested
  have hstops : ∀ q ∈ rest, Stops q.laterText := fun q _ => q.stops_laterText
  have hrest : Reads system (rest.flatMap Part.laterText) (rest.flatMap Part.laterTokens) :=
    .flatMap (fun q hq => Part.reads_laterText (Part.forall_later later q hq) (htests q hq)) hstops
  rw [text, Part.expressionText_eq first later]
  have h := (first.reads htest gap p.opening).append hrest (.flatMap hstops)
  change Reads system _ (p.tokens gap p.opening ++ rest.flatMap Part.laterTokens)
  simpa only [List.append_assoc] using h

theorem IsCanonical.ofTokens (canonical : d.IsCanonical system) (gap : Gap) :
    Dice.ofTokens system (d.tokens gap) = d := by
  obtain ⟨parts⟩ := d
  obtain ⟨⟨p, hp, first⟩, later, test⟩ := canonical
  obtain ⟨rest, rfl⟩ := List.head?_eq_some_iff.mp hp
  obtain ⟨htest, htests⟩ := List.forall_mem_cons.mp (Part.forall_tested later test)
  have hsides : 0 < p.sides := first.sides.1
  have hnonempty : p.tokens gap p.opening ≠ [] := by
    rw [Part.tokens, if_pos hsides]
    simp
  have hruns : partRuns (tokens gap ⟨p :: rest⟩) =
      p.tokens gap p.opening :: rest.map Part.laterTokens :=
    Part.partRuns_later hnonempty (first.partRun gap p.opening) rfl (by simp) later
  have hfirst : Part.ofTokens system (p.tokens gap p.opening) = p :=
    Part.ofTokens_of_gives (first.gives htest gap p.map_opening) first.plain.1
  have hrest : (rest.map Part.laterTokens).map (Part.ofTokens system) = rest := by
    rw [List.map_map]
    refine (List.map_congr_left fun q hq => ?_).trans (List.map_id rest)
    exact Part.ofTokens_laterTokens (Part.forall_later later q hq) (htests q hq)
  have hnormal : normalized (p :: rest) = ⟨p :: rest⟩ := by
    rw [normalized, if_pos (by simp [hsides])]
  rw [Dice.ofTokens, hruns, List.map_cons, hfirst, hrest]
  exact hnormal

theorem IsCanonical.spokenRuns (canonical : d.IsCanonical system) (gap : Gap) :
    Token.spokenRuns (d.tokens gap) = [d.tokens gap] := by
  obtain ⟨parts⟩ := d
  obtain ⟨⟨p, hp, first⟩, later, test⟩ := canonical
  obtain ⟨rest, rfl⟩ := List.head?_eq_some_iff.mp hp
  have hsides : 0 < p.sides := first.sides.1
  have hdie : p.dieWord.token p.opening ∈ tokens gap ⟨p :: rest⟩ := by
    simp [tokens, Part.tokens, hsides]
  obtain ⟨rolls, hpasses⟩ := p.rollRun gap p.opening (m := ⟨false, false⟩) rfl fun _ => rfl
  have hrest : ∀ t ∈ rest.flatMap Part.laterTokens, t.kind ≠ .separator := by
    intro t ht
    obtain ⟨q, -, ht⟩ := List.mem_flatMap.mp ht
    exact q.kind_ne_separator .none (some q.lead) t ht
  have hwhole : ∀ t ∈ tokens gap ⟨p :: rest⟩, t.kind ≠ .separator :=
    List.forall_mem_append.mpr ⟨p.kind_ne_separator gap p.opening, hrest⟩
  exact Token.spokenRuns_of_fits hwhole ⟨_, hdie, rfl⟩ (Part.rollRun_later hpasses rfl later)

/-- A separator stands between two expressions, and a space behind it. -/
theorem join_cons (d d' : Dice) (rest : List Dice) :
    Text.join "; ".toList ((d :: d' :: rest).map text) =
      d.text ++ ';' :: (Gap.space.text ++ Text.join "; ".toList ((d' :: rest).map text)) := by
  simp [Text.join, Gap.space, List.intercalate]

/-- Each expression of a written group has a run of its own. -/
theorem spokenRuns_join {rest : List Dice}
    (canonical : ∀ e ∈ d :: rest, e.IsCanonical system) (gap : Gap) :
    Token.spokenRuns (cut system.rules .description
        (gap.text ++ Text.join "; ".toList ((d :: rest).map text))) =
      d.tokens gap :: rest.map (tokens .space) := by
  induction rest generalizing d gap with
  | nil =>
    have hd := canonical d List.mem_cons_self
    have hjoin : Text.join "; ".toList ([d].map text) = d.text := by
      simp [Text.join, List.intercalate]
    rw [hjoin, (hd.reads gap).cut_eq, hd.spokenRuns gap]
    rfl
  | cons d' rest ih =>
    obtain ⟨hd, hrest⟩ := List.forall_mem_cons.mp canonical
    rw [join_cons, ← List.append_assoc,
      cut_separated (fun _ => System.separates_of_mem_rules) system.separator_mem_rules,
      spokenRuns_separated, (hd.reads gap).cut_eq, hd.spokenRuns gap, ih hrest .space]
    rfl

end Dice

/-- Reading undoes writing: a group of which the written form tells everything is read back from
it. -/
theorem dice_parse_text {settings : Settings} {g : Group} (nonempty : g.dice ≠ [])
    (canonical : ∀ d ∈ g.dice, d.IsCanonical (.ofSettings settings)) :
    ((Engine.ofSettings settings).parse g.text).dice = g.dice := by
  obtain ⟨d, rest, hdice⟩ := List.exists_cons_of_ne_nil nonempty
  rw [hdice] at canonical
  have hruns : Token.spokenRuns (cut (System.ofSettings settings).rules .description g.text) =
      d.tokens .none :: rest.map (Dice.tokens .space) := by
    rw [Group.text, hdice]
    exact Dice.spokenRuns_join canonical .none
  obtain ⟨hd, hrest⟩ := List.forall_mem_cons.mp canonical
  have hback :
      (rest.map (Dice.tokens .space)).map (Dice.ofTokens (.ofSettings settings)) = rest := by
    rw [List.map_map]
    refine (List.map_congr_left fun e he => ?_).trans (List.map_id rest)
    exact (hrest e he).ofTokens .space
  rw [Engine.dice_parse, Group.diceOfTokens_eq, hruns, if_neg (List.cons_ne_nil _ _), List.map_cons,
    hd.ofTokens .none, hback, hdice]

/-- An attack with a threshold of its own and its damage, written and read back. -/
theorem dice_parse_text_attack :
    let attack : Dice := ⟨[{ count := 1, sides := 20, modifier := 7, critThreshold := some 19 },
      { sign := .minus, modifier := 2, test := some ⟨.ac, .ge, 15, false⟩ }]⟩
    let damage : Dice := ⟨[
      { count := 0, sides := 6, modifier := -3, dropKeep := some ⟨.drop, .highest, 12⟩ },
      { sign := .times, modifier := 2 }, { count := 1000, sides := maxCount, sign := .minus }]⟩
    let g : Group := { dice := [attack, damage] }
    (g.dice ≠ [] ∧ ∀ d ∈ g.dice, d.IsCanonical (.ofSettings (.forSystem .pathfinder))) ∧
      g.text = "1d20+7 crit19-2 AC 15; 0d6dh12-3*2-1000d4294967295".toList ∧
      ((Engine.ofSettings (.forSystem .pathfinder)).parse g.text).dice = g.dice := by
  intro attack damage g
  have hattack : attack.IsCanonical (.ofSettings (.forSystem .pathfinder)) := by
    refine ⟨⟨_, rfl, by constructor <;> decide⟩, .cons_cons ⟨rfl, ?_⟩ (.singleton _), ?_⟩
    · exact .inr ⟨⟨by decide, rfl⟩, .inr (by decide)⟩
    · rintro t ⟨⟩
      exact ⟨rfl, by decide, fun _ => rfl⟩
  have hdamage : damage.IsCanonical (.ofSettings (.forSystem .pathfinder)) := by
    refine ⟨⟨_, rfl, by constructor <;> decide⟩, .cons_cons ⟨rfl, ?_⟩
      (.cons_cons ⟨rfl, ?_⟩ (.singleton _)), ?_⟩
    · exact .inr ⟨⟨by decide, rfl⟩, .inl rfl⟩
    · exact .inl (by constructor <;> decide)
    · rintro t ⟨⟩
  have canonical : ∀ d ∈ g.dice, d.IsCanonical (.ofSettings (.forSystem .pathfinder)) :=
    List.forall_mem_cons.mpr ⟨hattack, List.forall_mem_cons.mpr ⟨hdamage, by simp⟩⟩
  have nonempty : g.dice ≠ [] := by decide
  exact ⟨⟨nonempty, canonical⟩, by decide, dice_parse_text nonempty canonical⟩

end Tabletop
