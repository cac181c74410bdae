import Tabletop.Engine
import Tabletop.Proofs.Text.Blank
import Tabletop.Proofs.Token.Cut

/-!
# Reading a command

The expressions of a command depend only on what its text is cut into, not on where the tokens
stand. The rules of every game system are uniform, so the scanner may be replaced by the plain
reading.
-/

namespace Tabletop

theorem splitOnP_map {α β : Type} {p : β → Bool} {q : α → Bool} {f : α → β}
    (h : ∀ a, p (f a) = q a) (items : List α) :
    (items.map f).splitOnP p = (items.splitOnP q).map (List.map f) := by
  induction items with
  | nil => rfl
  | cons a rest ih =>
    rw [List.map_cons, List.splitOnP_cons_eq_if_modifyHead, List.splitOnP_cons_eq_if_modifyHead,
      h, ih]
    split
    · rfl
    · cases rest.splitOnP q <;> rfl

namespace Token

section

variable {c : Cutter} {f : Token → Token}

theorem Cutter.runOn_map (remember : ∀ m t, c.remember m (f t) = c.remember m t)
    (breaks : ∀ m t, c.breaks m (f t) = c.breaks m t) (m : c.Memory) (tokens : List Token) :
    c.runOn m (tokens.map f) =
      ((c.runOn m tokens).1.map f, (c.runOn m tokens).2.map (List.map f)) := by
  induction tokens generalizing m with
  | nil => rfl
  | cons t rest ih =>
    cases hb : c.breaks m t <;> simp [runOn, remember, breaks, hb, ih]

/-- A change to tokens that a cutter does not notice leaves the runs as they are. -/
theorem Cutter.runs_map (remember : ∀ m t, c.remember m (f t) = c.remember m t)
    (breaks : ∀ m t, c.breaks m (f t) = c.breaks m t) (tokens : List Token) :
    c.runs (tokens.map f) = (c.runs tokens).map (List.map f) := by
  cases tokens with
  | nil => rfl
  | cons t rest => simp [runs, remember, runOn_map remember breaks]

end

theorem rollRuns_map_bare (tokens : List Token) :
    rollRuns (tokens.map bare) = (rollRuns tokens).map (List.map bare) := by
  rw [rollRuns, splitOnP_map (q := fun t => t.kind == .separator) (fun t => rfl), rollRuns,
    List.flatMap_map, List.map_flatMap]
  simp only [Cutter.runs_map (c := rollCutter) (f := bare) (fun _ _ => rfl) (fun _ _ => rfl)]

theorem partRuns_map_bare (tokens : List Token) :
    partRuns (tokens.map bare) = (partRuns tokens).map (List.map bare) :=
  Cutter.runs_map (c := partCutter) (f := bare) (fun _ _ => rfl) (fun _ _ => rfl) tokens

def spokenRuns (tokens : List Token) : List (List Token) :=
  (rollRuns tokens).filter fun run => run.any fun t => !t.isBlankText

theorem spokenRuns_map_bare (tokens : List Token) :
    spokenRuns (tokens.map bare) = (spokenRuns tokens).map (List.map bare) := by
  rw [spokenRuns, rollRuns_map_bare, List.filter_map, spokenRuns]
  congr 2
  funext run
  exact List.any_map

end Token

namespace Part

variable {system : System}

/-- The last word on a part without a description changes nothing. -/
theorem finish_of_plain {p : Part} (plain : p.description = []) : system.finish p = p := by
  cases system with
  | pathfinder threshold infers =>
    cases infers with
    | false => rfl
    | true =>
      have hsave : Pattern.saveWord.occursIn p.description = false := by rw [plain]; decide
      simp [System.finish, hsave]
  | generic | vampire => rfl

/-- The part that some tokens describe, where only blanks are left over. -/
theorem ofTokens_of_foldl {tokens : List Token} {p : Part} {loose : Text}
    (h : tokens.foldl (Draft.add system) ⟨empty, []⟩ = ⟨p, loose⟩) (plain : p.description = [])
    (blank : ∀ c ∈ loose, isBlank c = true) : ofTokens system tokens = p := by
  have hsame : { p with description := [] } = p := by rw [← plain]
  rw [ofTokens, h]
  simp only [Text.squeeze_eq_nil blank, hsame]
  exact finish_of_plain plain

theorem ofTokens_map_bare (system : System) (tokens : List Token) :
    ofTokens system (tokens.map Token.bare) = ofTokens system tokens := by
  rw [ofTokens, List.foldl_map]
  rfl

end Part

theorem Dice.ofTokens_map_bare (system : System) (tokens : List Token) :
    ofTokens system (tokens.map Token.bare) = ofTokens system tokens := by
  have parts : (Token.partRuns (tokens.map Token.bare)).map (Part.ofTokens system) =
      (Token.partRuns tokens).map (Part.ofTokens system) := by
    rw [Token.partRuns_map_bare, List.map_map]
    exact List.map_congr_left fun run _ => Part.ofTokens_map_bare system run
  rw [ofTokens, parts, ofTokens]

namespace Group

theorem diceOfTokens_eq (system : System) (tokens : List Token) :
    diceOfTokens system tokens =
      if Token.spokenRuns tokens = [] then [.ofTokens system tokens]
      else (Token.spokenRuns tokens).map (Dice.ofTokens system) := by
  rw [diceOfTokens]
  split
  next h => exact (if_pos h).symm
  next h => exact (if_neg h).symm

theorem exists_ofTokens_of_mem {system : System} {tokens : List Token} {d : Dice}
    (h : d ∈ diceOfTokens system tokens) : ∃ run, d = Dice.ofTokens system run := by
  rw [diceOfTokens] at h
  split at h
  · exact ⟨tokens, List.mem_singleton.mp h⟩
  · obtain ⟨run, -, rfl⟩ := List.mem_map.mp h
    exact ⟨run, rfl⟩

theorem diceOfTokens_map_bare (system : System) (tokens : List Token) :
    diceOfTokens system (tokens.map Token.bare) = diceOfTokens system tokens := by
  have runs : (Token.spokenRuns (tokens.map Token.bare)).map (Dice.ofTokens system) =
      (Token.spokenRuns tokens).map (Dice.ofTokens system) := by
    rw [Token.spokenRuns_map_bare, List.map_map]
    exact List.map_congr_left fun run _ => Dice.ofTokens_map_bare system run
  have none : Token.spokenRuns (tokens.map Token.bare) = [] ↔ Token.spokenRuns tokens = [] := by
    rw [Token.spokenRuns_map_bare, List.map_eq_nil_iff]
  rw [diceOfTokens_eq, diceOfTokens_eq, runs, Dice.ofTokens_map_bare]
  simp only [none]

end Group

namespace System

theorem mem_rules {system : System} {rule : Token.Rule} (h : rule ∈ system.rules) :
    rule = .separator ∨ rule ∈ [.dice, .modifier, .test, .crit, .hunger] := by
  cases system
  all_goals
    simp only [rules, ownRules, Token.Rule.ahead, Token.Rule.shared, List.cons_append,
      List.nil_append, List.mem_cons, List.not_mem_nil, or_false] at h ⊢
    grind

/-- What holds of the rules for the notation and of those for marks holds of every rule but the
one for separators. -/
theorem forall_rules (holds : Token.Rule → Bool)
    (h : [.dice, .modifier, .test, .crit, .hunger].all holds = true) {system : System}
    {rule : Token.Rule} (hrule : rule ∈ system.rules) : rule = .separator ∨ holds rule = true :=
  (mem_rules hrule).imp id (List.all_eq_true.mp h rule)

theorem isUniform_of_mem_rules {system : System} {rule : Token.Rule} (h : rule ∈ system.rules) :
    rule.pattern.isUniform = true := by
  cases forall_rules (fun r => r.pattern.isUniform) (by decide) h with
  | inl separator => exact separator ▸ by decide
  | inr uniform => exact uniform

end System

/-- Reading a command is reading what its text is cut into. -/
theorem Engine.dice_parse (settings : Settings) (text : Text) :
    ((ofSettings settings).parse text).dice =
      Group.diceOfTokens (.ofSettings settings)
        (Token.cut (System.ofSettings settings).rules .description text) := by
  have tokens : (ofSettings settings).tokenize text =
      Token.rescan (System.ofSettings settings).rules .description 0 text :=
    Token.tokenize_eq_rescan_of_uniform (fun _ => System.isUniform_of_mem_rules) _ _
  rw [parse, tokens, Token.cut, Group.diceOfTokens_map_bare]
  rfl

end Tabletop
