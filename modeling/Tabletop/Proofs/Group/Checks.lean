import Tabletop.Proofs.Group.Totals
import Tabletop.Proofs.Roll.Checks

/-!
# Checks in a command

A command of tests, numbers that are added or subtracted, and text asks for one check for each of
its tests. Each check has the numbers up to the next test for its bonus, and the first one also
those before it. It is rolled with one d20 and nothing else.
-/

namespace Tabletop

namespace Token

def tests (tokens : List Token) : Nat := tokens.countP fun t => t.kind == .test

theorem tests_eq_zero_iff {tokens : List Token} :
    tests tokens = 0 ↔ ∀ t ∈ tokens, t.kind ≠ .test := by
  simp [tests, List.countP_eq_zero]

@[simp] theorem tests_append (tokens more : List Token) :
    tests (tokens ++ more) = tests tokens + tests more := List.countP_append

/-- A test of a command and the tokens up to the next test. -/
structure Check where
  test : Token
  behind : List Token
  isTest : test.kind = .test
  untested : ∀ u ∈ behind, u.kind ≠ .test

namespace Check

def tokens (c : Check) : List Token := c.test :: c.behind

theorem tests_tokens (c : Check) : tests c.tokens = 1 := by
  rw [tokens, tests, List.countP_cons_of_pos (by simp [c.isTest])]
  exact congrArg (· + 1) (tests_eq_zero_iff.mpr c.untested)

/-- The tokens are something without a test, and then checks. -/
structure Split (tokens lead : List Token) (checks : List Check) : Prop where
  join : tokens = lead ++ checks.flatMap Check.tokens
  untested : ∀ u ∈ lead, u.kind ≠ .test

theorem exists_split (tokens : List Token) : ∃ lead checks, Split tokens lead checks := by
  induction tokens with
  | nil => exact ⟨[], [], rfl, by simp⟩
  | cons t rest ih =>
    obtain ⟨lead, checks, rfl, hlead⟩ := ih
    by_cases hkind : t.kind = .test
    · exact ⟨[], ⟨t, lead, hkind, hlead⟩ :: checks, rfl, by simp⟩
    · exact ⟨t :: lead, checks, rfl, List.forall_mem_cons.mpr ⟨hkind, hlead⟩⟩

variable {tokens lead : List Token} {checks : List Check}

/-- A command of checks has one check for each test. -/
theorem Split.tests_eq (split : Split tokens lead checks) : tests tokens = checks.length := by
  have hchecks (checks : List Check) : tests (checks.flatMap Check.tokens) = checks.length := by
    induction checks with
    | nil => rfl
    | cons c rest ih =>
      rw [List.flatMap_cons, tests_append, tests_tokens, ih, List.length_cons, Nat.add_comm]
  rw [split.join, tests_append, tests_eq_zero_iff.mpr split.untested, hchecks, Nat.zero_add]

/-- The check of a test that is given by its place. -/
theorem exists_split_at {before between after : List Token} {t : Token} (isTest : t.kind = .test)
    (untested : ∀ u ∈ between, u.kind ≠ .test) (next : ∀ u ∈ after.head?, u.kind = .test) :
    ∃ lead earlier later,
      Split (before ++ t :: (between ++ after)) lead
        (earlier ++ ⟨t, between, isTest, untested⟩ :: later) ∧
      earlier.length = tests before ∧ (tests before = 0 → lead = before) := by
  obtain ⟨lead, earlier, hbefore⟩ := exists_split before
  obtain ⟨nothing, later, hafter⟩ := exists_split after
  obtain rfl : nothing = [] := by
    cases nothing with
    | nil => rfl
    | cons u rest =>
      exact absurd (next u (by rw [hafter.join]; rfl)) (hafter.untested u List.mem_cons_self)
  refine ⟨lead, earlier, later, ⟨?_, hbefore.untested⟩, hbefore.tests_eq.symm, fun hnone => ?_⟩
  · conv => lhs; rw [hbefore.join, hafter.join]
    simp [Check.tokens]
  · rw [hbefore.tests_eq, List.length_eq_zero_iff] at hnone
    rw [hbefore.join, hnone, List.flatMap_nil, List.append_nil]

def runs (lead : List Token) : List Check → List (List Token)
  | [] => []
  | c :: rest => (lead ++ c.tokens) :: rest.map Check.tokens

@[simp] theorem length_runs (lead : List Token) (checks : List Check) :
    (runs lead checks).length = checks.length := by
  cases checks <;> simp [runs]

/-- The run of a check at its place. -/
theorem getElem?_runs (lead : List Token) (earlier : List Check) (c : Check) (later : List Check) :
    (runs lead (earlier ++ c :: later))[earlier.length]? =
      some ((if earlier.length = 0 then lead else []) ++ c.tokens) := by
  cases earlier with
  | nil => rfl
  | cons first more => simp [runs]

theorem exists_of_mem_runs {run : List Token} (h : run ∈ runs lead checks) :
    ∃ lead', ∃ c : Check, run = lead' ++ c.tokens ∧ (lead' = lead ∨ lead' = []) ∧
      ∀ u ∈ run, u ∈ lead ++ checks.flatMap Check.tokens := by
  cases checks with
  | nil => cases h
  | cons first rest =>
    rcases List.mem_cons.mp h with rfl | h
    · refine ⟨lead, first, rfl, .inl rfl, fun u hu => ?_⟩
      rw [List.flatMap_cons, ← List.append_assoc]
      exact List.mem_append_left _ hu
    · obtain ⟨c, hc, rfl⟩ := List.mem_map.mp h
      refine ⟨[], c, rfl, .inr rfl, fun u hu => List.mem_append_right _ ?_⟩
      exact List.mem_flatMap.mpr ⟨c, List.mem_cons_of_mem _ hc, hu⟩

/-- A single test and tokens without dice around it fit into one run. -/
theorem apart_tokens {c : Check} (untested : ∀ u ∈ lead, u.kind ≠ .test)
    (undiced : ∀ u ∈ lead ++ c.tokens, u.kind ≠ .dice) :
    (lead ++ c.tokens).Pairwise fun u t => ¬RollClash u t := by
  have htests : (lead ++ c.tokens).Pairwise fun u t => ¬(u.kind = .test ∧ t.kind = .test) := by
    refine List.pairwise_append.mpr ⟨?_, List.pairwise_cons.mpr ⟨?_, ?_⟩, ?_⟩
    · exact List.pairwise_of_forall_mem_list fun u hu t _ h => untested u hu h.1
    · exact fun t ht h => c.untested t ht h.2
    · exact List.pairwise_of_forall_mem_list fun u hu t _ h => c.untested u hu h.1
    · exact fun u hu t _ h => untested u hu h.1
  refine htests.imp_of_mem fun _ ht hapart hclash => ?_
  rcases hclash with h | ⟨-, h, -⟩
  · exact hapart h
  · exact undiced _ ht h

/-- Without dice each check makes a run: the test of the next one does not fit into it. -/
theorem runs_rollCutter {c : Check} {rest : List Check} (untested : ∀ u ∈ lead, u.kind ≠ .test)
    (undiced : ∀ u ∈ lead ++ (c :: rest).flatMap Check.tokens, u.kind ≠ .dice) :
    rollCutter.runs (lead ++ (c :: rest).flatMap Check.tokens) = runs lead (c :: rest) := by
  have hne (c : Check) (lead : List Token) : lead ++ c.tokens ≠ [] := by simp [Check.tokens]
  rw [List.flatMap_cons, ← List.append_assoc] at undiced ⊢
  have hfits := (guards_rollCutter.fits_iff _).mpr
    (apart_tokens untested fun u hu => undiced u (List.mem_append_left _ hu))
  induction rest generalizing lead c with
  | nil =>
    rw [List.flatMap_nil, List.append_nil, Cutter.runs_of_fits (hne c lead) hfits]
    rfl
  | cons next rest ih =>
    have hbreaks : rollCutter.breaks (rollCutter.after rollCutter.fresh (lead ++ c.tokens))
        next.test = true :=
      (guards_rollCutter _ _).mpr ⟨c.test, by simp [Check.tokens], .inl ⟨c.isTest, next.isTest⟩⟩
    have hsplit : (next :: rest).flatMap Check.tokens =
        next.test :: (next.behind ++ rest.flatMap Check.tokens) := rfl
    have hrest : ∀ u ∈ [] ++ next.tokens ++ rest.flatMap Check.tokens, u.kind ≠ .dice :=
      fun u hu => undiced u (List.mem_append_right _ hu)
    rw [hsplit, Cutter.runs_append_cons (hne c lead) hfits hbreaks]
    refine congrArg _ (ih (by simp) hrest ?_)
    exact (guards_rollCutter.fits_iff _).mpr
      (apart_tokens (by simp) fun u hu => hrest u (List.mem_append_left _ hu))

/-- The runs for the expressions of a command of checks. -/
theorem Split.expressionRuns_eq (split : Split tokens lead checks) (tested : checks ≠ [])
    (plain : ∀ u ∈ tokens, u.kind ≠ .dice ∧ u.kind ≠ .separator) :
    expressionRuns tokens = runs lead checks := by
  obtain ⟨c, rest, rfl⟩ := List.exists_cons_of_ne_nil tested
  have hwhole : ∀ u ∈ tokens, (u.kind == .separator) = false := fun u hu => by
    simpa using (plain u hu).2
  have hspoken : ∀ run ∈ runs lead (c :: rest), (run.any fun t => !t.isBlankText) = true := by
    have hany (c : Check) (lead : List Token) :
        ((lead ++ c.tokens).any fun t => !t.isBlankText) = true :=
      List.any_eq_true.mpr
        ⟨c.test, by simp [Check.tokens], by simp [isBlankText, c.isTest]⟩
    refine List.forall_mem_cons.mpr ⟨hany c lead, ?_⟩
    exact List.forall_mem_map.mpr fun next _ => hany next []
  have hruns : rollCutter.runs tokens = runs lead (c :: rest) := by
    rw [split.join] at plain ⊢
    exact runs_rollCutter split.untested fun u hu => (plain u hu).1
  have hne : runs lead (c :: rest) ≠ [] := List.cons_ne_nil _ _
  rw [expressionRuns, spokenRuns, rollRuns, List.splitOnP_eq_singleton hwhole,
    List.flatMap_singleton, hruns, List.filter_eq_self.mpr hspoken, if_neg hne]

end Check

theorem kind_of_written {t : Token} (h : t.IsBonus ∨ t.IsReadTest) :
    t.kind ≠ .dice ∧ t.kind ≠ .separator := by
  rcases h with (h | ⟨h, -⟩) | ⟨h, -⟩ <;> simp [h]

/-- The run of a check is read as one. -/
theorem Check.isCheck_ofTokens {lead : List Token} {c : Check}
    (untested : ∀ u ∈ lead, u.kind ≠ .test)
    (written : ∀ u ∈ lead ++ c.tokens, u.IsBonus ∨ u.IsReadTest) :
    ∃ test, Test.ofToken? c.test = some test ∧
      (Dice.ofTokens .generic (lead ++ c.tokens)).IsCheck test (bonus c.behind + bonus lead) := by
  have hmem : c.test ∈ lead ++ c.tokens := by simp [tokens]
  have hread : Test.ofToken? c.test ≠ none := by
    rcases written c.test hmem with (h | ⟨h, -⟩) | ⟨-, h⟩
    · simp [c.isTest] at h
    · simp [c.isTest] at h
    · exact h
  obtain ⟨test, htest⟩ := Option.ne_none_iff_exists'.mp hread
  have hbonus : bonus (lead ++ c.tokens) = bonus c.behind + bonus lead := by
    rw [bonus_append, tokens, bonus_cons_of_ne (by simp [c.isTest]), Int.add_comm]
  refine ⟨test, htest, ?_⟩
  rw [← hbonus]
  exact Dice.isCheck_ofTokens (fun u hu => (written u hu).imp_right And.left)
    (apart_tokens untested fun u hu => (kind_of_written (written u hu)).1) hmem c.isTest htest

end Token

/-- By a script, an expression plays what is drawn for its parts. -/
theorem Roll.snd_ofDice_script (system : System) (d : Dice) (s : Script) :
    (Roll.ofDice system d s).2 = s.after (d.parts.map Part.draws).sum :=
  (Script.each_of_cost PartRoll.snd_roll_script d.parts s).1

/-- One face is drawn for a check. -/
theorem Dice.IsCheck.draws {d : Dice} {test : Test} {bonus : Int} (check : d.IsCheck test bonus) :
    (d.parts.map Part.draws).sum = 1 := by
  have hplayed := (check.ofDice ⟨[], 0⟩).1
  rw [Roll.snd_ofDice_script] at hplayed
  simpa [Script.after] using hplayed

open Token PartRoll

namespace Engine

variable {settings : Settings} {text : Text}

/-- Checks are rolled one after the other, each with the next face of the script. -/
theorem rolls_checks (generic : settings.system = .generic)
    (checks : ∀ d ∈ ((ofSettings settings).parse text).dice, ∃ test bonus, d.IsCheck test bonus)
    (s : Script) :
    ((ofSettings settings).evaluate text s).2 =
        s.after ((ofSettings settings).parse text).dice.length ∧
      ∀ i : Nat, ((ofSettings settings).evaluate text s).1.roll.rolls[i]? =
        ((ofSettings settings).parse text).dice[i]?.map fun d =>
          (Roll.ofDice .generic d (s.after i)).1 := by
  have hsystem : System.ofSettings settings = .generic := by rw [System.ofSettings, generic]
  have hcost {dice : List Dice} (h : ∀ d ∈ dice, ∃ test bonus, d.IsCheck test bonus) :
      (dice.map fun d => (d.parts.map Part.draws).sum).sum = dice.length := by
    induction dice with
    | nil => rfl
    | cons d rest ih =>
      obtain ⟨⟨_, _, hd⟩, hrest⟩ := List.forall_mem_cons.mp h
      rw [List.map_cons, List.sum_cons, hd.draws, ih hrest, List.length_cons, Nat.add_comm]
  obtain ⟨hstate, hplace⟩ := Script.each_of_cost (Roll.snd_ofDice_script .generic)
    ((ofSettings settings).parse text).dice s
  refine ⟨?_, fun i => ?_⟩
  · change (Roller.each (Roll.ofDice (.ofSettings settings)) _ s).2 = _
    rw [hsystem, hstate, hcost checks]
  · rw [rolls_evaluate generic, hplace]
    by_cases hi : i < ((ofSettings settings).parse text).dice.length
    · rw [hcost fun d hd => checks d (List.mem_of_mem_take hd), List.length_take_of_le hi.le]
    · rw [List.getElem?_eq_none (by omega)]
      rfl

/-- The expressions of a command of checks, and what they are read as. -/
theorem dice_parse_checks (generic : settings.system = .generic)
    (written : ∀ t ∈ (ofSettings settings).tokenize text, t.IsBonus ∨ t.IsReadTest)
    (tested : ∃ t ∈ (ofSettings settings).tokenize text, t.kind = .test) {lead : List Token}
    {checks : List Check} (split : Check.Split ((ofSettings settings).tokenize text) lead checks) :
    ((ofSettings settings).parse text).dice =
        (Check.runs lead checks).map (Dice.ofTokens .generic) ∧
      ∀ d ∈ ((ofSettings settings).parse text).dice, ∃ test bonus, d.IsCheck test bonus := by
  have hsystem : System.ofSettings settings = .generic := by rw [System.ofSettings, generic]
  have hne : checks ≠ [] := by
    rintro rfl
    obtain ⟨t, ht, hkind⟩ := tested
    exact tests_eq_zero_iff.mp split.tests_eq t ht hkind
  have hdice : ((ofSettings settings).parse text).dice =
      (Check.runs lead checks).map (Dice.ofTokens .generic) := by
    change Group.diceOfTokens (.ofSettings settings) ((ofSettings settings).tokenize text) = _
    rw [hsystem, Group.diceOfTokens_eq_map,
      split.expressionRuns_eq hne fun u hu => kind_of_written (written u hu)]
  refine ⟨hdice, ?_⟩
  rw [hdice]
  refine List.forall_mem_map.mpr fun run hrun => ?_
  obtain ⟨lead', c, rfl, hlead', hmem⟩ := Check.exists_of_mem_runs hrun
  have huntested : ∀ u ∈ lead', u.kind ≠ .test := by
    rcases hlead' with rfl | rfl
    · exact split.untested
    · simp
  obtain ⟨test, -, hcheck⟩ := Check.isCheck_ofTokens huntested fun u hu =>
    written u (split.join ▸ hmem u hu)
  exact ⟨test, _, hcheck⟩

/-- A command whose tokens are tests, numbers that are added or subtracted and text, all numbers in
range, has one expression for each test in their order. Under plain rules the expression of a test
carries the test and is rolled with one face of the script, the next one that was not played, as a
d20 shows it. If no value on the way leaves the range of totals, it comes to that face and the
numbers up to the next test, for the first test also those before it. -/
theorem checks_evaluate (generic : settings.system = .generic)
    (written : ∀ t ∈ (ofSettings settings).tokenize text, t.IsBonus ∨ t.IsReadTest)
    (tested : ∃ t ∈ (ofSettings settings).tokenize text, t.kind = .test) (s : Script) :
    let tokens := (ofSettings settings).tokenize text
    let dice := ((ofSettings settings).parse text).dice
    let evaluated := (ofSettings settings).evaluate text s
    dice.length = tests tokens ∧ evaluated.1.roll.rolls.length = tests tokens ∧
      evaluated.2 = s.after (tests tokens) ∧
      ∀ before t between after, tokens = before ++ t :: (between ++ after) → t.kind = .test →
        (∀ u ∈ between, u.kind ≠ .test) → (∀ u ∈ after.head?, u.kind = .test) →
        let i := tests before
        let face := max 1 (min 20 (s.faceAt (s.played + i)))
        ∃ d roll test, dice[i]? = some d ∧ evaluated.1.roll.rolls[i]? = some roll ∧
          Test.ofToken? t = some test ∧ d.test? = some test ∧ roll.test? = some test ∧
          roll.parts.flatMap PartRoll.faces = [face] ∧
          (Within roll.parts →
            roll.total = face + (bonus between + if i = 0 then bonus before else 0)) := by
  intro tokens dice evaluated
  obtain ⟨lead, checks, hsplit⟩ := Check.exists_split tokens
  obtain ⟨hdice, hchecks⟩ := dice_parse_checks generic written tested hsplit
  obtain ⟨hstate, hplace⟩ := rolls_checks generic hchecks s
  have hlength : dice.length = tests tokens := by
    rw [hsplit.tests_eq, ← Check.length_runs lead, ← List.length_map (Dice.ofTokens .generic)]
    exact congrArg List.length hdice
  have hrolls : evaluated.1.roll.rolls.length = dice.length := by
    rw [show evaluated.1.roll.rolls = _ from rolls_evaluate generic text s, Roller.length_each]
  refine ⟨hlength, hrolls.trans hlength, hlength ▸ hstate, ?_⟩
  intro before t between after hposition hkind hbetween hafter i face
  obtain ⟨front, earlier, later, hsplit, hearlier, hfront⟩ :=
    Check.exists_split_at hkind hbetween hafter
  rw [← hposition] at hsplit
  obtain ⟨hdice, -⟩ := dice_parse_checks generic written tested hsplit
  have hrun := Check.getElem?_runs front earlier ⟨t, between, hkind, hbetween⟩ later
  rw [hearlier] at hrun
  have huntested : ∀ u ∈ (if i = 0 then front else []), u.kind ≠ .test := by
    split
    · exact hsplit.untested
    · simp
  have hbonus : bonus (if i = 0 then front else []) = if i = 0 then bonus before else 0 := by
    split
    · next hzero => rw [hfront hzero]
    · rfl
  obtain ⟨-, -, -, -, hmem⟩ := Check.exists_of_mem_runs (List.mem_of_getElem? hrun)
  obtain ⟨test, hread, hcheck⟩ := Check.isCheck_ofTokens huntested fun u hu =>
    written u (show u ∈ tokens from hsplit.join ▸ hmem u hu)
  have hat := congrArg (fun d : List Dice => d[i]?) hdice
  rw [List.getElem?_map, hrun] at hat
  obtain ⟨-, hfaces, htest, htotal⟩ := hcheck.ofDice (s.after i)
  refine ⟨_, _, test, hat, (hplace i).trans (congrArg _ hat), hread, hcheck.test, htest, hfaces, ?_⟩
  rw [hbonus] at htotal
  exact htotal

/-- Two checks, the first one with a number before it and a face that the d20 does not have. -/
theorem checks_evaluate_two :
    let e := ofSettings (.forSystem .generic)
    let text := "+2 Fort ac 15 -3 +4 dc 12-1".toList
    let s : Script := ⟨[25, 7], 0⟩
    let tokens := e.tokenize text
    let t : Token := ⟨.test, "ac 15".toList, 8, [some "ac".toList, some "15".toList]⟩
    let between := (tokens.drop 3).take 5
    ((∀ t ∈ tokens, t.IsBonus ∨ t.IsReadTest) ∧ (∃ t ∈ tokens, t.kind = .test) ∧
      tokens = tokens.take 2 ++ t :: (between ++ tokens.drop 8)) ∧
      (e.parse text).dice.length = 2 ∧ (e.evaluate text s).2 = s.after 2 ∧
      ∃ roll, (e.evaluate text s).1.roll.rolls[0]? = some roll ∧
        roll.test? = some ⟨.ac, .ge, 15, false⟩ ∧ roll.parts.flatMap PartRoll.faces = [20] ∧
        Within roll.parts ∧ roll.total = 20 + (1 + 2) := by
  intro e text s tokens t between
  have written : ∀ t ∈ tokens, t.IsBonus ∨ t.IsReadTest := by decide +kernel
  have tested : ∃ t ∈ tokens, t.kind = .test := by decide +kernel
  have position : tokens = tokens.take 2 ++ t :: (between ++ tokens.drop 8) := by decide +kernel
  have untested : ∀ u ∈ between, u.kind ≠ .test := by decide +kernel
  have next : ∀ u ∈ (tokens.drop 8).head?, u.kind = .test := by decide +kernel
  have within : ∀ roll ∈ (e.evaluate text s).1.roll.rolls[0]?, Within roll.parts := by
    decide +kernel
  obtain ⟨hlength, -, hstate, hchecks⟩ := checks_evaluate rfl written tested s
  obtain ⟨d, roll, test, -, hroll, hread, -, htest, hfaces, htotal⟩ :=
    hchecks _ t between _ position rfl untested next
  have hcount : tests tokens = 2 := by decide +kernel
  have hfirst : tests (tokens.take 2) = 0 := by decide +kernel
  have hbonus : bonus between = 1 ∧ bonus (tokens.take 2) = 2 := by decide +kernel
  rw [hcount] at hlength hstate
  rw [hfirst] at hroll hfaces htotal
  rw [if_pos rfl, hbonus.1, hbonus.2] at htotal
  have hsame : Test.ofToken? t = some ⟨.ac, .ge, 15, false⟩ := by decide
  exact ⟨⟨written, tested, position⟩, hlength, hstate, roll, hroll,
    htest.trans (hread.symm.trans hsame), hfaces, within roll hroll, htotal (within roll hroll)⟩

end Engine

end Tabletop
