import Tabletop.Proofs.Token.Spelled

/-!
# Tokens are read as what they match

Every token of a command is a match of its rule, so what its groups captured is a word of the
pattern in their brackets. A test token is a target and a value, and a dice token with a rule for
dropping or keeping has the letters for it. Both are read as what they name exactly if their
letters are plain.
-/

namespace Tabletop

theorem CharSet.has_exactly_iff {c d : Char} : (exactly [d]).has c = true ↔ c = d := by
  simp [has]

theorem Pattern.Says.least_le {p : Pattern} {word : Text} {said : List (Nat × Text)}
    (h : p.Says word said) : p.least ≤ word.length := by
  induction p generalizing word said with
  | empty | edge | start | maybe => exact Nat.zero_le _
  | one set =>
    obtain ⟨⟨c, rfl, -⟩, -⟩ := h
    exact Nat.le_refl 1
  | many set least => exact h.1
  | seq p q ihp ihq =>
    obtain ⟨u, v, a, b, rfl, -, hu, hv⟩ := h
    rw [List.length_append]
    exact Nat.add_le_add (ihp hu) (ihq hv)
  | alt p q ihp ihq =>
    rcases h with h | h
    · exact Nat.le_trans (Nat.min_le_left _ _) (ihp h)
    · exact Nat.le_trans (Nat.min_le_right _ _) (ihq h)
  | group number p ih =>
    obtain ⟨inner, -, h⟩ := h
    exact ih h

namespace Token

/-- A token that matches a rule is a word of its pattern and captured what the groups hold. -/
theorem IsMatch.says {rule : Rule} {t : Token} (h : t.IsMatch rule) :
    ∃ said, rule.pattern.Says t.raw said ∧ ∀ group, 0 < group → group ≤ rule.pattern.groups →
      t.capture group = (said.lookup group).filter fun s => !s.isEmpty := by
  obtain ⟨before, text, s, hs, -, -, hraw, hcaptures⟩ := h
  refine ⟨_, hraw ▸ Pattern.says_of_here? hs, fun group hpos hle => ?_⟩
  have hindex : group - 1 < rule.pattern.groups := by omega
  rw [capture, if_neg (by omega), hcaptures, Found.groupTexts_eq, List.getElem?_map,
    List.getElem?_range hindex]
  simp only [Option.map_some, Option.join_some, Nat.sub_add_cancel (Nat.succ_le_of_lt hpos)]
  rfl

/-- What the only group of a number captured is a word of the pattern in its brackets. -/
theorem IsMatch.says_capture {rule : Rule} {t : Token} (h : t.IsMatch rule) {group : Nat}
    {p : Pattern} (hpos : 0 < group) (hle : group ≤ rule.pattern.groups)
    (honly : (rule.pattern.numbered.filter fun q => q.1 == group) = [(group, p)]) :
    ∀ held ∈ t.capture group, ∃ said, p.Says held said := by
  intro held hheld
  obtain ⟨said, hsays, hcapture⟩ := h.says
  rw [Option.mem_def, hcapture group hpos hle, Option.filter_eq_some_iff,
    List.lookup_eq_some_iff] at hheld
  obtain ⟨⟨earlier, later, rfl, -⟩, -⟩ := hheld
  obtain ⟨q, hq, hword⟩ := hsays.of_mem_said (List.mem_append_right _ (.head _))
  have hmem : (group, q) ∈ rule.pattern.numbered.filter fun q => q.1 == group :=
    List.mem_filter.mpr ⟨hq, beq_self_eq_true group⟩
  rw [honly, List.mem_singleton, Prod.mk.injEq] at hmem
  exact hmem.2 ▸ hword

end Token

theorem isBlank_of_isDigit {c : Char} (h : isDigit c = true) : isBlank c = false := by
  rw [Bool.eq_false_iff]
  intro hblank
  have hnone := forall_isBlank (fun c => !isDigit c) (by decide) hblank
  simp [h] at hnone

theorem ne_bar_of_isDigit {c : Char} (h : isDigit c = true) : c ≠ '|' := by
  rintro rfl
  exact absurd h (by decide)

namespace Test

/-- How the value of a test is written: a number, which stands between bars if it is hidden. -/
def Writes (number : Text) (hidden : Bool) (written : Text) : Prop :=
  if hidden then
    ∃ blanks blanks', (∀ c ∈ blanks ++ blanks', isBlank c = true) ∧
      written = "||".toList ++ (blanks ++ number ++ blanks') ++ "||".toList
  else written = number

/-- The value of a test is read, whether or not it is hidden. -/
theorem writes_of_says {written : Text} {said : List (Nat × Text)}
    (h : (Pattern.anyOf [Pattern.digits, Pattern.concat (Pattern.chars "||" ++
      [Pattern.blanks, Pattern.digits, Pattern.blanks] ++ Pattern.chars "||")]).Says written said) :
    ∃ number hidden, number ≠ [] ∧ (∀ c ∈ number, isDigit c = true) ∧
      Writes number hidden written := by
  rcases h with ⟨hlength, hdigits, -⟩ | h
  · exact ⟨written, false, List.ne_nil_of_length_pos hlength, hdigits, rfl⟩
  · obtain ⟨_, _, _, _, rfl, -, ⟨⟨c, rfl, hc⟩, -⟩, h⟩ := h
    obtain ⟨_, _, _, _, rfl, -, ⟨⟨c', rfl, hc'⟩, -⟩, h⟩ := h
    obtain ⟨blanks, _, _, _, rfl, -, ⟨-, hblanks, -⟩, h⟩ := h
    obtain ⟨number, _, _, _, rfl, -, ⟨hlength, hdigits, -⟩, h⟩ := h
    obtain ⟨blanks', _, _, _, rfl, -, ⟨-, hblanks', -⟩, h⟩ := h
    obtain ⟨rfl, -⟩ := (@Pattern.says_chars "||" _ _).mp h
    obtain rfl : c = '|' := CharSet.has_exactly_iff.mp hc
    obtain rfl : c' = '|' := CharSet.has_exactly_iff.mp hc'
    refine ⟨number, true, List.ne_nil_of_length_pos hlength, hdigits, blanks, blanks', ?_, ?_⟩
    · exact List.forall_mem_append.mpr ⟨hblanks, hblanks'⟩
    · simp

/-- A number between bars is unbarred and trimmed, and every other number is left as it is. -/
theorem trim_unbarred {number written : Text} {hidden : Bool} (hnumber : number ≠ [])
    (hdigits : ∀ c ∈ number, isDigit c = true) (h : Writes number hidden written) :
    (unbarred? written.trim).isSome = hidden ∧
      Text.trim ((unbarred? written.trim).getD written.trim) = number := by
  have hplain : ∀ c ∈ number, isBlank c = false := fun c hc => isBlank_of_isDigit (hdigits c hc)
  have hfirst : ∀ c ∈ number.head?, isBlank c = false := fun c hc =>
    hplain c (List.mem_of_mem_head? hc)
  have hlast : ∀ c ∈ number.getLast?, isBlank c = false := fun c hc =>
    hplain c (List.mem_of_getLast? hc)
  cases hidden with
  | false =>
    obtain rfl : written = number := h
    have hnone : unbarred? written = none := by
      obtain ⟨c, rest, rfl⟩ := List.exists_cons_of_ne_nil hnumber
      have hbar : ('|' == c) = false := by
        simpa using (ne_bar_of_isDigit (hdigits c (.head _))).symm
      simp [unbarred?, List.isPrefixOf?, hbar]
    rw [Text.trim_eq_self hplain, hnone]
    exact ⟨rfl, Text.trim_eq_self hplain⟩
  | true =>
    obtain ⟨blanks, blanks', hblanks, rfl⟩ := h
    rw [List.forall_mem_append] at hblanks
    have htrim : Text.trim ("||".toList ++ (blanks ++ number ++ blanks') ++ "||".toList) =
        "||".toList ++ (blanks ++ number ++ blanks') ++ "||".toList := by
      have hbars (middle : Text) :
          Text.trim ([] ++ ("||".toList ++ middle ++ "||".toList) ++ []) =
            "||".toList ++ middle ++ "||".toList := by
        refine Text.trim_between (by simp) ?_ ?_ (by simp)
        · rw [List.append_assoc, List.head?_append_of_ne_nil _ (by decide)]
          exact fun c hc => Option.some.inj hc ▸ by decide
        · rw [List.getLast?_append_of_ne_nil _ (by decide)]
          exact fun c hc => Option.some.inj hc ▸ by decide
      simpa using hbars (blanks ++ number ++ blanks')
    have hunbarred : unbarred? ("||".toList ++ (blanks ++ number ++ blanks') ++ "||".toList) =
        some (blanks ++ number ++ blanks') := by
      rw [unbarred?, List.append_assoc, List.isPrefixOf?_eq_some_iff_append_eq.mpr rfl]
      exact List.isSuffixOf?_eq_some_iff_append_eq.mpr rfl
    rw [htrim, hunbarred]
    exact ⟨rfl, Text.trim_between hblanks.1 hfirst hlast hblanks.2⟩

/-- A test token has a target and a number, and is read as the test of what the target is read
as. -/
theorem ofToken?_of_isMatch {t : Token} (h : t.IsMatch .test) :
    ∃ spelled number hidden written, t.capture 1 = some spelled ∧ t.capture 2 = some written ∧
      Pattern.target.Says spelled [] ∧ number ≠ [] ∧ (∀ c ∈ number, isDigit c = true) ∧
      Writes number hidden written ∧
      ofToken? t = (Decimal.readTotal? number).map fun value =>
        ⟨(Target.ofSpelling spelled).1, (Target.ofSpelling spelled).2, value, hidden⟩ := by
  obtain ⟨said, hsays, hcapture⟩ := h.says
  obtain ⟨spelled, _, _, _, -, rfl, ⟨inner, rfl, htarget⟩, hrest⟩ := hsays
  obtain ⟨_, written, _, _, -, rfl, ⟨-, -, rfl⟩, inner', rfl, hvalue⟩ := hrest
  obtain rfl : inner = [] := htarget.said_eq_nil rfl
  have hspelled : spelled ≠ [] := List.ne_nil_of_length_pos htarget.least_le
  have hwritten : written ≠ [] := List.ne_nil_of_length_pos hvalue.least_le
  obtain ⟨number, hidden, hnumber, hdigits, hwrites⟩ := writes_of_says hvalue
  obtain rfl : inner' = [] := hvalue.said_eq_nil rfl
  have hfirst : t.capture 1 = some spelled := by
    rw [hcapture 1 (by decide) (by decide)]
    simp [hspelled, List.lookup_cons]
  have hsecond : t.capture 2 = some written := by
    rw [hcapture 2 (by decide) (by decide)]
    simp [hwritten]
  refine ⟨spelled, number, hidden, written, hfirst, hsecond, htarget, hnumber, hdigits, hwrites, ?_⟩
  obtain ⟨hhidden, htrim⟩ := trim_unbarred hnumber hdigits hwrites
  simp only [ofToken?, hfirst, hsecond, Option.bind_eq_bind, Option.bind_some, htrim, hhidden]
  cases Decimal.readTotal? number <;> rfl

end Test

namespace DropKeep

/-- The rule that letters name where case does not matter. Without an end, `k` keeps the highest
and `d` drops the lowest. -/
def named (letter : Text) (ending : Option Text) (number : Nat) : DropKeep :=
  let ending := ending.map fun e => e.map foldCase
  if letter.map foldCase = ['k'] then
    ⟨.keep, if ending = some ['l'] then .lowest else .highest, number⟩
  else ⟨.drop, if ending = some ['h'] then .highest else .lowest, number⟩

/-- An end that the pattern takes is plain, as no other character counts as its letters. -/
theorem lower_ending {ending : Option Text}
    (h : ∀ e ∈ ending, ∃ said, (Pattern.one (.anyCase ['h', 'l'])).Says e said) :
    (ending.map Text.lower = ending.map fun e => e.map foldCase) ∧
      (ending.map fun e => e.map foldCase) ∈ [none, some ['h'], some ['l']] := by
  cases ending with
  | none => exact ⟨rfl, .head _⟩
  | some e =>
    obtain ⟨-, ⟨c, rfl, hc⟩, -⟩ := h e rfl
    have hfold : foldCase c = 'h' ∨ foldCase c = 'l' := by simpa [CharSet.has] using hc
    have hlower : foldCase c = c.toLower := by
      refine foldCase_eq_toLower ?_
      rcases hfold with h | h <;> rw [h] <;> decide
    constructor
    · rw [Option.map_some, Option.map_some, Text.lower, List.map_singleton, List.map_singleton,
        hlower]
    · rcases hfold with h | h <;> simp [h]

/-- Letters that the pattern takes are read as the rule that they name if the first one is plain,
and as no rule otherwise. -/
theorem ofCaptures?_of_says {letter : Text} {ending : Option Text} {said : List (Nat × Text)}
    (hletter : (Pattern.one (.anyCase ['k', 'd'])).Says letter said)
    (hending : ∀ e ∈ ending, ∃ said, (Pattern.one (.anyCase ['h', 'l'])).Says e said)
    (number : Nat) :
    ofCaptures? letter ending number =
      if letter.IsPlain then some (named letter ending number) else none := by
  obtain ⟨hlower, hends⟩ := lower_ending hending
  obtain ⟨⟨c, rfl, hc⟩, -⟩ := hletter
  by_cases hplain : Text.IsPlain [c]
  · rw [if_pos hplain, ofCaptures?, hlower, hplain.lower_eq, named]
    have hfold : foldCase c = 'k' ∨ foldCase c = 'd' := by simpa [CharSet.has] using hc
    generalize ending.map (fun e => e.map foldCase) = folded at hends
    simp only [List.mem_cons, List.not_mem_nil, or_false] at hends
    rw [List.map_singleton]
    rcases hfold with h | h <;> rw [h] <;> rcases hends with rfl | rfl | rfl <;> rfl
  · rw [if_neg hplain]
    obtain ⟨c', hc', stranger⟩ := Text.exists_of_not_isPlain hplain
    obtain rfl := List.mem_singleton.mp hc'
    rcases stranger with rfl | rfl
    · rfl
    · exact absurd hc (by decide)

/-- A dice token with a letter and a count is read with the rule that it names if the letter is
plain, and without a rule otherwise. -/
theorem dropKeep_withDice_of_isMatch {t : Token} (h : t.IsMatch .dice) {letter : Text}
    {number : Nat} (hletter : t.capture 4 = some letter) (hnumber : t.count? 6 = some number)
    (p : Part) :
    (p.withDice t).dropKeep =
      if letter.IsPlain then some (named letter (t.capture 5) number) else none := by
  have hsays := h.says_capture (by decide) (by decide) rfl letter hletter
  have hending : ∀ e ∈ t.capture 5, ∃ said, (Pattern.one (.anyCase ['h', 'l'])).Says e said :=
    h.says_capture (by decide) (by decide) rfl
  obtain ⟨said, hsays⟩ := hsays
  rw [← ofCaptures?_of_says hsays hending, Part.withDice]
  simp only [hletter, hnumber, Option.bind_eq_bind, Option.bind_some]

end DropKeep

/-- Every token of a command is text without a rule or the match of a rule. -/
theorem Engine.mem_tokenize {settings : Settings} {text : Text} {t : Token}
    (h : t ∈ (ofSettings settings).tokenize text) :
    t.kind = .description ∨ ∃ rule ∈ (System.ofSettings settings).rules, t.IsMatch rule := by
  have htokens : (ofSettings settings).tokenize text =
      Token.rescan (System.ofSettings settings).rules .description 0 text :=
    Token.tokenize_eq_rescan_of_uniform (fun _ => System.isUniform_of_mem_rules) _ _
  rw [htokens] at h
  rcases Token.mem_cut (List.mem_map_of_mem h) with ⟨raw, -, hunmatched⟩ | hmatch
  · exact .inl (congrArg Token.kind hunmatched)
  · exact .inr hmatch

theorem Engine.isMatch_of_kind {settings : Settings} {text : Text} {t : Token}
    (h : t ∈ (ofSettings settings).tokenize text) :
    (t.kind = .test → t.IsMatch .test) ∧ (t.kind = .dice → t.IsMatch .dice) := by
  rcases mem_tokenize h with hkind | ⟨rule, hrule, hmatch⟩
  · simp [hkind]
  · have hkind : t.kind = rule.kind := by
      obtain ⟨_, _, _, -, -, hkind, -⟩ := hmatch
      exact hkind
    have hrules : rule ∈ [.separator, .dice, .modifier, .test, .crit, .hunger] :=
      List.mem_cons.mpr (System.mem_rules hrule)
    simp only [List.mem_cons, List.not_mem_nil, or_false] at hrules
    rcases hrules with rfl | rfl | rfl | rfl | rfl | rfl
    all_goals
      rw [hkind]
      constructor
      all_goals
        intro hsame
        first | exact hmatch | cases hsame

/-- Whatever the tokens of a command match is read as what it names, exactly where it is plain.
A test token with a number in range makes a test. Its target and operator are those of the
alternative that its target is a word of; if it is not plain, its spelling is unknown and it reads
as `>=`. A dice token with a letter and a count in range makes dice with the rule that the letter
names, or without a rule if the letter is not plain. -/
theorem Engine.reads_tokenize (settings : Settings) (text : Text) :
    ∀ t ∈ (ofSettings settings).tokenize text,
      (t.kind = .test →
        ∃ spelled number hidden written, t.capture 1 = some spelled ∧ t.capture 2 = some written ∧
          number ≠ [] ∧ (∀ c ∈ number, isDigit c = true) ∧ Test.Writes number hidden written ∧
          (∃ a ∈ Target.alternatives, a.1.pattern.Says spelled []) ∧
          ∀ a ∈ Target.alternatives, a.1.pattern.Says spelled [] →
            (Target.spelled? spelled = if spelled.IsPlain then some a.2 else none) ∧
            ∀ value ∈ Decimal.readTotal? number,
              (Test.ofToken? t = some ⟨a.2.1, a.2.2, value, hidden⟩ ↔ spelled.IsPlain) ∧
              (¬spelled.IsPlain → Test.ofToken? t = some ⟨.operator, .ge, value, hidden⟩)) ∧
      (t.kind = .dice → ∀ letter ∈ t.capture 4, ∀ number ∈ t.count? 6, ∀ p : Part,
        (p.withDice t).dropKeep =
          if letter.IsPlain then some (.named letter (t.capture 5) number) else none) := by
  intro t ht
  obtain ⟨htest, hdice⟩ := isMatch_of_kind ht
  refine ⟨fun hkind => ?_, fun hkind letter hletter number hnumber =>
    DropKeep.dropKeep_withDice_of_isMatch (hdice hkind) hletter hnumber⟩
  obtain ⟨spelled, number, hidden, written, hspelled, hwritten, htarget, hnumber, hdigits, hwrites,
    hread⟩ := Test.ofToken?_of_isMatch (htest hkind)
  refine ⟨spelled, number, hidden, written, hspelled, hwritten, hnumber, hdigits, hwrites, ?_,
    fun a ha hsays => ⟨Target.spelled?_eq ha hsays, fun value hvalue => ?_⟩⟩
  · obtain ⟨c, hc, hsays⟩ := Pattern.says_iff_choices.mp htarget
    rw [Target.choices_target] at hc
    obtain ⟨a, ha, rfl⟩ := List.mem_map.mp hc
    exact ⟨a, ha, hsays⟩
  · rw [hread, Option.mem_def.mp hvalue, Option.map_some, Option.some_inj]
    constructor
    · rw [← Target.ofSpelling_eq_iff ha hsays, Prod.ext_iff, Test.mk.injEq]
      tauto
    · intro hplain
      rw [Target.ofSpelling_eq, Target.spelled?_of_not_isPlain hplain]
      rfl

/-- A target behind `vs` in capital letters, and dice of which the highest are kept. -/
theorem Engine.reads_tokenize_behind_vs :
    let settings : Settings := .forSystem .generic
    let text := "4d6kh3 vs  KAC 15".toList
    let test : Token :=
      ⟨.test, "vs  KAC 15".toList, 7, [some "vs  KAC".toList, some "15".toList]⟩
    let dice : Token := ⟨.dice, "4d6kh3".toList, 0,
      [none, some ['4'], some ['6'], some ['k'], some ['h'], some ['3']]⟩
    (test ∈ (ofSettings settings).tokenize text ∧ dice ∈ (ofSettings settings).tokenize text) ∧
      Test.ofToken? test = some ⟨.kac, .ge, 15, false⟩ ∧
      ∀ p : Part, (p.withDice dice).dropKeep = some ⟨.keep, .highest, 3⟩ := by
  intro settings text test dice
  have htest : test ∈ (ofSettings settings).tokenize text := by decide +kernel
  have hdice : dice ∈ (ofSettings settings).tokenize text := by decide +kernel
  refine ⟨⟨htest, hdice⟩, ?_, fun p => ?_⟩
  · obtain ⟨spelled, number, hidden, written, hspelled, hwritten, -, -, hwrites, -, hread⟩ :=
      (reads_tokenize settings text test htest).1 rfl
    obtain rfl : "vs  KAC".toList = spelled := Option.some.inj hspelled
    obtain rfl : "15".toList = written := Option.some.inj hwritten
    have hsays : (Target.Spelling.behindVs "kac").pattern.Says "vs  KAC".toList [] :=
      ⟨[], _, [], [], rfl, rfl, ⟨rfl, rfl⟩,
        ['v'], _, [], [], rfl, rfl, ⟨⟨'v', rfl, rfl⟩, rfl⟩,
        ['s'], _, [], [], rfl, rfl, ⟨⟨'s', rfl, rfl⟩, rfl⟩,
        [' ', ' '], _, [], [], rfl, rfl, ⟨by decide, List.all_eq_true.mp rfl, rfl⟩,
        Pattern.says_word.mpr ⟨by decide, rfl⟩⟩
    have hshown : hidden = false := by
      cases hidden with
      | false => rfl
      | true =>
        obtain ⟨blanks, blanks', -, hbars⟩ := hwrites
        exact absurd (congrArg List.head? hbars) (by simp)
    subst hshown
    obtain rfl : "15".toList = number := hwrites
    obtain ⟨-, hvalue⟩ := hread (.behindVs "kac", .kac, .ge) (by decide) hsays
    exact (hvalue 15 (by decide)).1.mpr (by decide)
  · exact (reads_tokenize settings text dice hdice).2 rfl ['k'] rfl 3 rfl p

/-- The Kelvin sign is taken for a letter by the patterns and not by the readers. -/
theorem Engine.reads_tokenize_kelvin :
    let e := ofSettings (.forSystem .generic)
    ((.name "kac", .kac, .ge) ∈ Target.alternatives ∧
        (Target.Spelling.name "kac").pattern.Says "\u212aac".toList [] ∧
        ∃ t ∈ e.tokenize "\u212aac 15".toList, t.kind = .test ∧
          t.capture 1 = some "\u212aac".toList ∧
          Test.ofToken? t = some ⟨.operator, .ge, 15, false⟩) ∧
      ∃ t ∈ e.tokenize "4d6\u212a3".toList, t.kind = .dice ∧
        t.capture 4 = some ['\u212a'] ∧ t.count? 6 = some 3 ∧
        (Part.empty.withDice t).dropKeep = none := by
  intro e
  have hsays : (Target.Spelling.name "kac").pattern.Says "\u212aac".toList [] :=
    ⟨[], _, [], [], rfl, rfl, ⟨rfl, rfl⟩, Pattern.says_word.mpr ⟨by decide, rfl⟩⟩
  exact ⟨⟨by decide, hsays, by decide +kernel⟩, by decide +kernel⟩

end Tabletop
