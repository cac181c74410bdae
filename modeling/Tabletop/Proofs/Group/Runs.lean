import Tabletop.Proofs.Group.Joined
import Tabletop.Proofs.Part.Kept

/-!
# Runs of a command

Between separators the tokens of a command fall into the longest runs that hold a single roll, and
the tokens of an expression into the longest runs that hold a single term. Whatever a token says of
a part is therefore found in the part that is read from its run.
-/

namespace Tabletop

namespace Token

/-- The runs that the expressions of a command are read from: those that say something, or else all
tokens at once. -/
def expressionRuns (tokens : List Token) : List (List Token) :=
  if spokenRuns tokens = [] then [tokens] else spokenRuns tokens

end Token

theorem Group.diceOfTokens_eq_map (system : System) (tokens : List Token) :
    diceOfTokens system tokens = (Token.expressionRuns tokens).map (Dice.ofTokens system) := by
  rw [diceOfTokens_eq, Token.expressionRuns]
  split <;> rfl

namespace Token

/-- No run for an expression holds a second roll, not even where nothing is said. -/
theorem apart_of_mem_expressionRuns {tokens run : List Token} (h : run ∈ expressionRuns tokens) :
    run.Pairwise fun u t => ¬RollClash u t := by
  rw [expressionRuns] at h
  split at h
  · next silent =>
    obtain rfl := List.mem_singleton.mp h
    refine List.pairwise_of_forall_mem_list fun u _ t ht hclash => ?_
    have hkind : t.kind = .test ∨ t.kind = .dice := hclash.imp And.right (And.left ∘ And.right)
    rcases spokenRuns_eq_nil_iff.mp silent t ht with hsep | hblank
    · simp [hsep] at hkind
    · simp only [isBlankText, Bool.and_eq_true, beq_iff_eq] at hblank
      simp [hblank.1] at hkind
  · obtain ⟨hmem, -⟩ := List.mem_filter.mp h
    obtain ⟨piece, -, hrun⟩ := List.mem_flatMap.mp hmem
    exact (guards_rollCutter.longest_runs piece).apart run hrun

/-- The runs that the parts of an expression are read from; without tokens that is an empty run. -/
def termRuns (tokens : List Token) : List (List Token) :=
  if partRuns tokens = [] then [[]] else partRuns tokens

theorem flatten_termRuns (tokens : List Token) : (termRuns tokens).flatten = tokens := by
  have hflatten : (partRuns tokens).flatten = tokens := partCutter.join_runs tokens
  rw [termRuns]
  split
  · next hnil => simpa [hnil] using hflatten
  · exact hflatten

/-- No run for a part holds a second term. -/
theorem apart_of_mem_termRuns {tokens run : List Token} (h : run ∈ termRuns tokens) :
    run.Pairwise fun u t => ¬PartClash u t := by
  rw [termRuns] at h
  split at h
  · obtain rfl := List.mem_singleton.mp h
    exact .nil
  · exact (guards_partCutter.longest_runs tokens).apart run h

end Token

/-- An expression is read part by part. -/
theorem Dice.ofTokens_eq_normalized (system : System) (tokens : List Token) :
    ofTokens system tokens =
      normalized ((Token.termRuns tokens).map (Part.ofTokens system)) := by
  have hempty : Part.ofTokens system [] = .empty := Part.ofTokens_of_foldl rfl rfl (by simp)
  rw [ofTokens, Token.termRuns]
  split
  · next hnil => simp [List.map_eq_nil_iff.mp hnil, hempty]
  · next hne => rw [if_neg (fun hnil => hne (List.map_eq_nil_iff.mpr hnil))]

namespace Token

/-- No token is lost between separators, and the runs there are the longest that hold one roll. So
are the runs for parts the longest that hold one term. These are the runs that a command is read
from: no part loses anything that a token of its run said of it, and no multiplier is read into a
part with dice. -/
theorem runs_longest (tokens : List Token) :
    (∃ pieces : List (List (List Token)),
      pieces.map List.flatten = tokens.splitOnP (fun t => t.kind == .separator) ∧
      pieces.flatten = rollRuns tokens ∧ ∀ runs ∈ pieces, Longest RollClash runs) ∧
    (partRuns tokens).flatten = tokens ∧ (∀ run ∈ partRuns tokens, run ≠ []) ∧
    Longest PartClash (partRuns tokens) ∧
    ∀ system,
      Group.diceOfTokens system tokens = (expressionRuns tokens).map (Dice.ofTokens system) ∧
      ∀ expression ∈ expressionRuns tokens, ∀ run ∈ partRuns expression,
        (Part.ofTokens system run).Keeps run ∧
        ∀ before t after, run = before ++ t :: after → t.IsMultiplier →
          (before.foldl (Part.Draft.add system) ⟨.empty, []⟩).part.sides = 0 := by
  have longest (tokens : List Token) : Longest PartClash (partRuns tokens) :=
    guards_partCutter.longest_runs tokens
  refine ⟨⟨(tokens.splitOnP fun t => t.kind == .separator).map rollCutter.runs, ?_, ?_, ?_⟩,
    partCutter.join_runs tokens, partCutter.ne_nil_of_mem_runs tokens, longest tokens, ?_⟩
  · rw [List.map_map]
    exact List.map_id'' (fun piece => rollCutter.join_runs piece) _
  · rw [rollRuns, List.flatMap_def]
  · rw [List.forall_mem_map]
    exact fun piece _ => guards_rollCutter.longest_runs piece
  · intro system
    refine ⟨Group.diceOfTokens_eq_map system tokens, fun expression hexpression run hrun => ?_⟩
    have apart := (longest expression).apart run hrun
    have within : run.Sublist expression := by
      have h := List.sublist_flatten_of_mem hrun
      rwa [partRuns, partCutter.join_runs] at h
    have tested := (apart_of_mem_expressionRuns hexpression).sublist within
    refine ⟨Part.keeps_ofTokens apart tested, ?_⟩
    rintro before t after rfl hmultiplier
    obtain ⟨-, -, hbefore⟩ := List.pairwise_append.mp apart
    exact Part.sides_foldl_of_isMultiplier system
      (fun u hu => hbefore u hu t List.mem_cons_self) hmultiplier

/-- Two terms with dice of their own and a test. -/
theorem runs_longest_tested :
    let tokens := cut System.generic.rules .description "2d8+1*1d4 ac 12".toList
    tokens ∈ expressionRuns tokens ∧
      (partRuns tokens).map (List.map Token.kind) =
        [[.dice, .modifier], [.dice, .description, .test]] ∧
      ∀ run ∈ partRuns tokens, (Part.ofTokens .generic run).Keeps run := by
  intro tokens
  have hexpression : tokens ∈ expressionRuns tokens := by decide +kernel
  refine ⟨hexpression, by decide +kernel, fun run hrun => ?_⟩
  obtain ⟨-, -, -, -, keeps⟩ := runs_longest tokens
  exact ((keeps .generic).2 tokens hexpression run hrun).1

/-- The number behind a die without sides replaces the sign of the die. -/
theorem runs_longest_sidesless :
    let tokens := cut System.generic.rules .description "+10*1d0+5".toList
    tokens ∈ expressionRuns tokens ∧ ∃ run ∈ partRuns tokens,
      (∃ t ∈ run, t.kind = .dice ∧ Sign.ofCapture (t.capture 1) = .times) ∧
        Part.ofTokens .generic run = { count := 1, sides := 0, modifier := 5, sign := .plus } := by
  decide +kernel

end Token

end Tabletop
