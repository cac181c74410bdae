import Tabletop.Proofs.Group.Runs
import Tabletop.Proofs.Text.Words
import Tabletop.Proofs.Token.Decoded

/-!
# Unclaimed text

Text without a meaning of its own describes what is rolled. So does a test whose number is out of
range, for it makes no test. Nothing of that is lost on the way through runs of tokens and parts,
nothing is added to it and nothing changes its place: leaving blanks aside, the descriptions of all
parts together are the unclaimed text of the command.
-/

namespace Tabletop

namespace Token

/-- What stands for the number of a test, without blanks and bars around it. -/
def testNumber (t : Token) : Text :=
  let written := Text.trim ((t.capture 2).getD [])
  Text.trim ((Test.unbarred? written).getD written)

/-- Whether the token is text without a rule or a test whose number cannot be read. -/
def isUnclaimed (t : Token) : Bool :=
  t.kind == .description || t.kind == .test && (Decimal.readTotal? t.testNumber).isNone

def leftover (tokens : List Token) : Text := (tokens.filter isUnclaimed).flatMap Token.raw

@[simp] theorem leftover_nil : leftover [] = [] := rfl

@[simp] theorem leftover_append (tokens more : List Token) :
    leftover (tokens ++ more) = leftover tokens ++ leftover more := by
  simp [leftover]

theorem leftover_flatten (runs : List (List Token)) :
    leftover runs.flatten = runs.flatMap leftover := by
  induction runs with
  | nil => rfl
  | cons run rest ih => simp [ih]

theorem leftover_single (t : Token) : leftover [t] = if t.isUnclaimed then t.raw else [] := by
  rw [leftover, List.filter_singleton]
  split <;> simp_all

/-- The token leaves its text exactly if it is unclaimed. -/
def Leaves (system : System) (t : Token) : Prop :=
  ∀ d : Part.Draft, (d.add system t).loose = d.loose ++ leftover [t]

end Token

/-- A test with a target makes no test exactly if its number cannot be read. -/
theorem Test.ofToken?_isNone {t : Token} {spelled written : Text}
    (first : t.capture 1 = some spelled) (second : t.capture 2 = some written) :
    (ofToken? t).isNone = (Decimal.readTotal? t.testNumber).isNone := by
  simp only [ofToken?, Token.testNumber, first, second, Option.bind_eq_bind, Option.bind_some,
    Option.getD_some]
  cases Decimal.readTotal? _ <;> rfl

/-- What the system's own rules match, the system understands. -/
theorem System.isSome_absorb?_of_mem_ownRules {system : System} {rule : Token.Rule}
    (h : rule ∈ system.ownRules) {t : Token} (hkind : t.kind = rule.kind) (p : Part) :
    (system.absorb? p t).isSome := by
  cases system with
  | generic => cases h
  | pathfinder | vampire =>
    obtain rfl := List.mem_singleton.mp h
    simp [absorb?, hkind, Token.Rule.crit, Token.Rule.hunger]

namespace Part

variable {system : System}

namespace Draft

/-- Text without a rule is left, and what is understood leaves nothing. -/
theorem leaves_of_kind {t : Token} (h : t.kind ≠ .test)
    (claimed : t.kind ≠ .description → t.kind ∉ [.separator, .dice, .modifier] →
      ∀ p, (system.absorb? p t).isSome) : t.Leaves system := by
  intro d
  rw [Token.leftover_single, Token.isUnclaimed, add]
  cases hkind : t.kind with
  | description => simp [System.absorb?, hkind]
  | test => exact absurd hkind h
  | separator | dice | modifier => simp
  | crit | hunger =>
    have habsorbs := claimed (by simp [hkind]) (by simp [hkind]) d.part
    obtain ⟨q, hq⟩ := Option.isSome_iff_exists.mp habsorbs
    simp [hq]

/-- A test that cannot be made is left. -/
theorem leaves_of_test {t : Token} (h : t.kind = .test) {spelled written : Text}
    (first : t.capture 1 = some spelled) (second : t.capture 2 = some written) :
    t.Leaves system := by
  intro d
  have hnone := Test.ofToken?_isNone first second
  rw [Token.leftover_single, Token.isUnclaimed, ← hnone, add, h]
  cases Test.ofToken? t <;> simp

/-- What tokens leave is put together in their order. -/
theorem loose_foldl {tokens : List Token} (leaves : ∀ t ∈ tokens, t.Leaves system) (d : Draft) :
    (tokens.foldl (add system) d).loose = d.loose ++ Token.leftover tokens := by
  induction tokens generalizing d with
  | nil => simp
  | cons t rest ih =>
    obtain ⟨ht, hrest⟩ := List.forall_mem_cons.mp leaves
    rw [List.foldl_cons, ih hrest, ht d, List.append_assoc, ← Token.leftover_append,
      List.singleton_append]

end Draft

/-- A part is described by what its tokens leave. -/
theorem ink_description_ofTokens {run : List Token} (leaves : ∀ t ∈ run, t.Leaves system) :
    (ofTokens system run).description.ink = (Token.leftover run).ink := by
  obtain ⟨save, hread⟩ := exists_ofTokens_eq system run
  rw [hread, Text.ink_squeeze, Draft.loose_foldl leaves, List.nil_append]

end Part

/-- The parts of an expression are described by what its tokens leave. -/
theorem Dice.ink_descriptions_ofTokens {system : System} {tokens : List Token}
    (leaves : ∀ t ∈ tokens, t.Leaves system) :
    Text.ink ((ofTokens system tokens).parts.flatMap Part.description) =
      (Token.leftover tokens).ink := by
  have hmem : ∀ run ∈ Token.termRuns tokens, ∀ t ∈ run, t.Leaves system := by
    intro run hrun t ht
    refine leaves t ?_
    rw [← Token.flatten_termRuns tokens]
    exact List.mem_flatten.mpr ⟨run, hrun, ht⟩
  calc Text.ink ((ofTokens system tokens).parts.flatMap Part.description)
      = Text.ink (((Token.termRuns tokens).map (Part.ofTokens system)).flatMap
          Part.description) := by
        rw [ofTokens_eq_normalized, List.flatMap_def, map_normalized (fun _ => rfl),
          ← List.flatMap_def]
    _ = (Token.termRuns tokens).flatMap fun run => (Part.ofTokens system run).description.ink := by
        rw [List.flatMap_map, Text.ink_flatMap]
    _ = (Token.termRuns tokens).flatMap fun run => (Token.leftover run).ink :=
        List.flatMap_congr fun run hrun => Part.ink_description_ofTokens (hmem run hrun)
    _ = (Token.leftover tokens).ink := by
        rw [← Text.ink_flatMap, ← Token.leftover_flatten, Token.flatten_termRuns]

namespace Token

theorem leftover_filter_separator (tokens : List Token) :
    leftover (tokens.filter fun t => t.kind != .separator) = leftover tokens := by
  rw [leftover, List.filter_filter, leftover]
  congr 2
  funext t
  cases hkind : t.kind <;> simp [isUnclaimed, hkind]

/-- A run that is left out says nothing. -/
theorem ink_leftover_of_silent {run : List Token} (silent : ∀ t ∈ run, t.isBlankText = true) :
    (leftover run).ink = [] := by
  rw [leftover, Text.ink_flatMap, List.flatMap_eq_nil_iff]
  intro t ht
  have hblank := silent t (List.mem_filter.mp ht).1
  rw [isBlankText, Bool.and_eq_true, List.isEmpty_iff, Text.trim_eq_nil_iff] at hblank
  exact Text.ink_eq_nil_iff.mpr hblank.2

theorem ink_leftover_spoken {runs : List (List Token)} :
    Text.ink ((runs.filter fun run => run.any fun t => !t.isBlankText).flatMap leftover) =
      Text.ink (runs.flatMap leftover) := by
  induction runs with
  | nil => rfl
  | cons run rest ih =>
    rw [List.filter_cons]
    split
    · simp [ih]
    · next hsilent =>
      have hblank : ∀ t ∈ run, t.isBlankText = true := by simpa using hsilent
      simp [ih, ink_leftover_of_silent hblank]

/-- What is left in the runs for expressions is all that is left. -/
theorem ink_leftover_expressionRuns (tokens : List Token) :
    Text.ink ((expressionRuns tokens).flatMap leftover) = (leftover tokens).ink := by
  rw [expressionRuns]
  split
  · simp
  · rw [spokenRuns, ink_leftover_spoken, ← leftover_flatten, flatten_rollRuns,
      leftover_filter_separator]

theorem mem_of_mem_expressionRuns {tokens run : List Token} (h : run ∈ expressionRuns tokens)
    {t : Token} (ht : t ∈ run) : t ∈ tokens := by
  rw [expressionRuns] at h
  split at h
  · exact List.mem_singleton.mp h ▸ ht
  · have hmem : t ∈ (rollRuns tokens).flatten :=
      List.mem_flatten.mpr ⟨run, (List.mem_filter.mp h).1, ht⟩
    rw [flatten_rollRuns] at hmem
    exact (List.mem_filter.mp hmem).1

end Token

/-- Every token of a command leaves its text exactly if it is unclaimed. -/
theorem Engine.leaves_of_mem_tokenize {settings : Settings} {text : Text} {t : Token}
    (h : t ∈ (ofSettings settings).tokenize text) : t.Leaves (.ofSettings settings) := by
  by_cases htest : t.kind = .test
  · obtain ⟨spelled, _, _, written, hfirst, hsecond, -⟩ :=
      Test.ofToken?_of_isMatch ((isMatch_of_kind h).1 htest)
    exact Part.Draft.leaves_of_test htest hfirst hsecond
  · refine Part.Draft.leaves_of_kind htest fun hdescription hshared p => ?_
    obtain ⟨rule, hrule, hmatch⟩ := (mem_tokenize h).resolve_left hdescription
    have hkind : t.kind = rule.kind := by
      obtain ⟨_, _, _, -, -, hkind, -⟩ := hmatch
      exact hkind
    rcases List.mem_append.mp hrule with hown | hrest
    · exact System.isSome_absorb?_of_mem_ownRules hown hkind p
    · have hkinds : ∀ r ∈ Token.Rule.shared, r.kind = .test ∨
          r.kind ∈ [.separator, .dice, .modifier] := by
        simp [Token.Rule.shared, Token.Rule.separator, Token.Rule.dice, Token.Rule.modifier,
          Token.Rule.test]
      rcases hkinds rule hrest with hsame | hsame
      · exact absurd (hkind.trans hsame) htest
      · exact absurd (hkind ▸ hsame) hshared

/-- Leaving blanks aside, the descriptions of all parts of a command, one behind the other, are the
text of its unclaimed tokens in their order. -/
theorem Engine.ink_descriptions_parse (settings : Settings) (text : Text) :
    Text.ink ((((ofSettings settings).parse text).dice.flatMap Dice.parts).flatMap
        Part.description) =
      (Token.leftover ((ofSettings settings).tokenize text)).ink := by
  have hleaves : ∀ t ∈ (ofSettings settings).tokenize text, t.Leaves (.ofSettings settings) :=
    fun t ht => leaves_of_mem_tokenize ht
  change Text.ink (((Group.diceOfTokens (.ofSettings settings) _).flatMap Dice.parts).flatMap
    Part.description) = _
  generalize (ofSettings settings).tokenize text = tokens at *
  calc _ = (Token.expressionRuns tokens).flatMap fun run =>
          Text.ink ((Dice.ofTokens (.ofSettings settings) run).parts.flatMap Part.description) := by
        rw [Group.diceOfTokens_eq_map, List.flatMap_map, List.flatMap_assoc, Text.ink_flatMap]
    _ = (Token.expressionRuns tokens).flatMap fun run => (Token.leftover run).ink :=
        List.flatMap_congr fun run hrun => Dice.ink_descriptions_ofTokens fun t ht =>
          hleaves t (Token.mem_of_mem_expressionRuns hrun ht)
    _ = (Token.leftover tokens).ink := by
        rw [← Text.ink_flatMap, Token.ink_leftover_expressionRuns]

end Tabletop
