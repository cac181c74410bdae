import Mathlib.Data.List.Forall2
import Tabletop.Proofs.Token.Hits

/-!
# Scanning with memory

The scanner looks at the cursor with every rule, and otherwise trusts what it remembers. Only
the character before the cursor could make a remembered match wrong, and only for a match at the
cursor itself: further on a search from the cursor and one from an earlier place see the same
text and the same characters before it. So a remembered match beyond the cursor is the match
that a search would find again, unless the search stops at an empty match at the cursor. It does
not where the patterns are uniform, and then the scanner cuts a text like the plain reading does.
-/

namespace Tabletop

namespace Pattern

/-- A search that goes past its first character goes on as one from the next character. -/
theorem search_of_skipped_pos {p : Pattern} {before : Option Char} {c : Char} {rest : Text}
    {f : Found} (h : p.search before (c :: rest) = some f) (hf : 0 < f.skipped) :
    p.search (some c) rest = some { f with skipped := f.skipped - 1 } := by
  simp only [search] at h
  split at h
  · cases h
    simp [Found.atOnce] at hf
  · obtain ⟨g, hg, rfl⟩ := Option.map_eq_some_iff.mp h
    simpa [Found.later] using hg

theorem search_tail_eq_none {p : Pattern} {before : Option Char} {c : Char} {rest : Text}
    (h : p.search before (c :: rest) = none) : p.search (some c) rest = none := by
  simp only [search] at h
  split at h
  · simp at h
  · exact Option.map_eq_none_iff.mp h

end Pattern

namespace Token

/-- What is remembered of a rule is true of the text behind the character at the cursor. -/
def Ahead.Holds (a : Ahead) (rule : Rule) (cursor : Nat) : Text → Prop
  | [] => True
  | c :: rest =>
    match a with
    | .unknown => True
    | .nowhere => rule.pattern.search (some c) rest = none
    | .known origin found =>
      cursor < origin + found.skipped →
        rule.pattern.search (some c) rest =
          some { found with skipped := origin + found.skipped - cursor - 1 }

namespace Ahead

theorem holds_step {a : Ahead} {rule : Rule} {cursor : Nat} {c : Char} {rest : Text}
    (h : a.Holds rule cursor (c :: rest)) : a.Holds rule (cursor + 1) rest := by
  cases rest with
  | nil => trivial
  | cons d rest =>
    cases a with
    | unknown => trivial
    | nowhere => exact Pattern.search_tail_eq_none h
    | known origin found =>
      intro hlt
      have hf := h (by omega)
      have hnext := Pattern.search_of_skipped_pos hf (by simp only; omega)
      rw [hnext]
      congr 2

/-- The cursor may go on by any number of characters. -/
theorem holds_drop {a : Ahead} {rule : Rule} {cursor : Nat} {text : Text} (n : Nat)
    (h : a.Holds rule cursor text) : a.Holds rule (cursor + n) (text.drop n) := by
  induction n generalizing cursor text with
  | zero => exact h
  | succ n ih =>
    cases text with
    | nil => trivial
    | cons c rest =>
      have hstep := ih (holds_step h)
      rwa [Nat.add_right_comm] at hstep

theorem holds_ofSearch (rule : Rule) (cursor : Nat) (text : Text) :
    (ofSearch rule cursor text).Holds rule cursor text := by
  cases text with
  | nil => trivial
  | cons c rest =>
    simp only [ofSearch, Pattern.matcher_search?]
    cases h : rule.pattern.search none (c :: rest) with
    | none => exact Pattern.search_tail_eq_none h
    | some found =>
      intro hlt
      rw [Pattern.search_of_skipped_pos h (by omega)]
      congr 2
      omega

/-- Whether a match is searched for again or kept, what is remembered stays true. -/
theorem holds_refresh {a : Ahead} {rule : Rule} {cursor : Nat} {text : Text}
    (h : a.Holds rule cursor text) : (a.refresh rule cursor text).Holds rule cursor text := by
  cases a with
  | unknown => exact holds_ofSearch rule cursor text
  | nowhere => exact h
  | known origin found =>
    simp only [refresh]
    split
    · exact holds_ofSearch rule cursor text
    · exact h

theorem hit?_ofSearch (rule : Rule) (cursor : Nat) (text : Text) :
    (ofSearch rule cursor text).hit? rule cursor = Hit.first? rule text := by
  simp only [ofSearch, Pattern.matcher_search?, Hit.first?_eq_bind]
  cases rule.pattern.search none text with
  | none => rfl
  | some found => simp [hit?]

/-- Without a hit at the cursor, a search from there finds what one from the next character
finds, if the pattern is solid. -/
theorem search_eq_later {rule : Rule} (solid : rule.pattern.isSolid = true) {c : Char} {rest : Text}
    (here : Hit.here? rule (c :: rest) = none) :
    rule.pattern.search none (c :: rest) =
      (rule.pattern.search (some c) rest).map Found.later := by
  cases hs : rule.pattern.here? none (c :: rest) with
  | none => simp [Pattern.search, hs]
  | some s =>
    have hused := (Pattern.used_of_here? hs).1
    have hzero : s.used = 0 := Hit.here?_eq_none_iff.mp here (.atOnce s) (by simp [hs])
    simp [Pattern.isSolid] at solid
    omega

theorem first?_eq_none_of_isHollow {rule : Rule} (hollow : rule.pattern.isHollow = true)
    (text : Text) : Hit.first? rule text = none :=
  Hit.first?_eq_none_iff.mpr fun _ h => Pattern.length_eq_zero_of_search hollow h

/-- Where no rule has a hit at the cursor, the remembered hit of a uniform rule is the one that
a fresh search finds. -/
theorem hit?_refresh {a : Ahead} {rule : Rule} (uniform : rule.pattern.isUniform = true)
    {cursor : Nat} {c : Char} {rest : Text} (here : Hit.here? rule (c :: rest) = none)
    (h : a.Holds rule cursor (c :: rest)) :
    (a.refresh rule cursor (c :: rest)).hit? rule cursor = Hit.first? rule (c :: rest) := by
  simp only [Pattern.isUniform, Bool.or_eq_true] at uniform
  cases a with
  | unknown => exact hit?_ofSearch rule cursor _
  | nowhere =>
    cases uniform with
    | inl solid =>
      have hnone : rule.pattern.search (some c) rest = none := h
      rw [Hit.first?_eq_bind, search_eq_later solid here, hnone]
      rfl
    | inr hollow =>
      rw [first?_eq_none_of_isHollow hollow]
      rfl
  | known origin found =>
    simp only [refresh]
    split
    · exact hit?_ofSearch rule cursor _
    · rename_i hlt
      have hsome := h (Nat.lt_of_not_le hlt)
      cases uniform with
      | inl solid =>
        rw [Hit.first?_eq_bind, search_eq_later solid here, hsome]
        simp only [hit?, Option.map_some, Option.bind_some, Found.later]
        congr 2
        omega
      | inr hollow =>
        have hzero := Pattern.length_eq_zero_of_search hollow hsome
        rw [first?_eq_none_of_isHollow hollow]
        exact Hit.of?_eq_none_iff.mpr hzero

end Ahead

/-- What is remembered is true for every rule. -/
abbrev Remembers (rules : List Rule) (ahead : List Ahead) (cursor : Nat) (text : Text) : Prop :=
  List.Forall₂ (fun rule a => Ahead.Holds a rule cursor text) rules ahead

/-- One step of the scanner: it picks the hit that the plain reading picks, and what it
remembers stays true. -/
theorem nextHit_eq {rules : List Rule} (uniform : ∀ rule ∈ rules, rule.pattern.isUniform = true)
    {ahead : List Ahead} {cursor : Nat} {text : Text} (nonempty : text ≠ [])
    (h : Remembers rules ahead cursor text) :
    (nextHit rules ahead cursor text).1 = Hit.leftmost? (hits rules text) ∧
      Remembers rules (nextHit rules ahead cursor text).2 cursor text := by
  obtain ⟨c, rest, rfl⟩ := List.exists_cons_of_ne_nil nonempty
  unfold nextHit
  split
  · rename_i hit hhit
    exact ⟨(Hit.leftmost?_hits_of_here? hhit).symm, h⟩
  · rename_i none_here
    have here : ∀ rule ∈ rules, Hit.here? rule (c :: rest) = none :=
      List.findSome?_eq_none_iff.mp none_here
    clear none_here nonempty
    simp only
    induction h with
    | nil => exact ⟨rfl, .nil⟩
    | cons hr h ih =>
      rename_i rule a rules ahead
      obtain ⟨ihhit, ihkeep⟩ := ih (fun r hr => uniform r (List.mem_cons_of_mem _ hr))
        (fun r hr => here r (List.mem_cons_of_mem _ hr))
      have hfirst := Ahead.hit?_refresh (uniform rule List.mem_cons_self)
        (here rule List.mem_cons_self) hr
      refine ⟨?_, .cons (Ahead.holds_refresh hr) ihkeep⟩
      rw [Hit.leftmost?_hits_cons, ← ihhit, ← hfirst, List.zipWith_cons_cons, List.zip_cons_cons]
      simp only [List.filterMap_cons]
      cases (a.refresh rule cursor (c :: rest)).hit? rule cursor with
      | none => rw [Option.merge_none_left]
      | some d => exact Hit.leftmost?_cons d _

/-- Whatever true memory the scanner starts from, it cuts the text like the plain reading. -/
theorem scan_eq_rescan {rules : List Rule}
    (uniform : ∀ rule ∈ rules, rule.pattern.isUniform = true) (fallback : Kind)
    {ahead : List Ahead} {cursor start : Nat} {text : Text}
    (h : Remembers rules ahead cursor text) :
    scan rules fallback ahead cursor start text = rescan rules fallback start text := by
  induction hn : text.length using Nat.strongRecOn
    generalizing ahead cursor start text with
  | ind n ih =>
    rw [scan, rescan]
    by_cases hnil : text = []
    · rw [dif_pos hnil, dif_pos hnil]
    · rw [dif_neg hnil, dif_neg hnil]
      obtain ⟨hpick, hkeep⟩ := nextHit_eq uniform hnil h
      cases hnext : nextHit rules ahead cursor text with
      | mk pick ahead' =>
        rw [hnext] at hpick hkeep
        simp only at hpick hkeep
        rw [← hpick]
        cases pick with
        | none => rfl
        | some c =>
          have hshorter := c.after_lt hnil
          have hafter : Remembers rules ahead' (cursor + c.found.skipped + c.found.length)
              (c.after text) := by
            rw [Nat.add_assoc]
            exact hkeep.imp fun rule a ha => Ahead.holds_drop _ ha
          simp only
          rw [ih _ (hn ▸ hshorter) hafter rfl]

/-- With uniform patterns the scanner needs no memory to explain its tokens. -/
theorem tokenize_eq_rescan_of_uniform {rules : List Rule}
    (uniform : ∀ rule ∈ rules, rule.pattern.isUniform = true) (fallback : Kind) (text : Text) :
    tokenize rules fallback text = rescan rules fallback 0 text := by
  have unknown : Remembers rules (rules.map fun _ => .unknown) 0 text := by
    induction rules with
    | nil => exact .nil
    | cons rule rules ih =>
      refine .cons ?_ (ih fun r hr => uniform r (List.mem_cons_of_mem _ hr))
      cases text <;> trivial
  exact scan_eq_rescan uniform fallback unknown

/-- A pattern that is empty at the start of a search and a character elsewhere is not uniform.
What was remembered of it hides the empty match at the cursor that a fresh search stops at. -/
def mixed : Rule :=
  ⟨.crit, .alt (.seq .start .edge) (.one (.exactly ['x'])), by decide⟩

example : tokenize [mixed, Rule.separator] .description ",;ax".toList ≠
    rescan [mixed, Rule.separator] .description 0 ",;ax".toList := by decide +kernel

namespace Rule

theorem ofText_eq_ok_iff {kind : Kind} {written : Text} {rule : Rule} :
    ofText kind written = .ok rule ↔
      rule.kind = kind ∧ Pattern.read? written = some rule.pattern := by
  cases h : Pattern.read? written with
  | none => simp [ofText, h]
  | some pattern =>
    simp only [ofText, h, ofPattern, Option.some.injEq]
    split
    · constructor
      · intro he; cases he; exact ⟨rfl, rfl⟩
      · rintro ⟨rfl, rfl⟩; rfl
    · rename_i hempty
      constructor
      · intro he; cases he
      · rintro ⟨rfl, rfl⟩; exact absurd rule.needsText hempty

/-- Written patterns of rules: those of the notation and of the game systems, and some others.
The last of these matches empty text only. -/
def writtenForms : List Text :=
  [";", r"(?i)(?:([-+*])\s*)?(\d+)?d(\d+)(?:([kd])([hl])?(\d+))?", r"([-+*])\s*(\d+)",
    r"(?i)((?:\b(?:vs\s*(?:eac|kac|ac|dc)?|gteq|gt|lteq|lt|eq|eac|kac|ac|dc))" ++
      r"|>=|<=|!=|==|=>|=<|<>|=|>|<)\s*(\d+|\|\|\s*\d+\s*\|\|)",
    r"(?i)\bcrit\s*(\d+)\b", r"(?i)\bh(?:unger)?\s*(\d+)\b",
    "x", r"\d+", r"(?i)\bh\d", r"\b"].map String.toList

theorem isUniform_of_writtenForms :
    ∀ written ∈ writtenForms, ∃ p, Pattern.read? written = some p ∧ p.isUniform = true := by
  simp only [writtenForms, List.map_cons, List.map_nil, List.forall_mem_cons]
  refine ⟨⟨_, Pattern.read?_separator, by decide⟩, ⟨_, Pattern.read?_dice, by decide⟩,
    ⟨_, Pattern.read?_modifier, by decide⟩, ⟨_, Pattern.read?_test, by decide⟩,
    ⟨_, Pattern.read?_crit, by decide⟩, ⟨_, Pattern.read?_hunger, by decide⟩, ?_,
    ⟨_, Pattern.read?_digits, by decide⟩, ?_, ?_, fun _ h => absurd h List.not_mem_nil⟩
  · exact ⟨.one (.exactly ['x']), by decide, by decide⟩
  · exact ⟨.concat (.edge :: Pattern.letters "h" ++ [.one .digit]), by decide, by decide⟩
  · exact ⟨.edge, by decide, by decide⟩

end Rule

/-- For every list of rules with these patterns, in any order and of any kinds, the scanner cuts
every text into exactly the tokens of the plain reading. -/
theorem tokenize_eq_rescan {rules : List Rule}
    (accepted : ∀ rule ∈ rules, ∃ written ∈ Rule.writtenForms,
      Rule.ofText rule.kind written = .ok rule)
    (fallback : Kind) (text : Text) :
    tokenize rules fallback text = rescan rules fallback 0 text := by
  refine tokenize_eq_rescan_of_uniform (fun rule hrule => ?_) fallback text
  obtain ⟨written, hw, hrule⟩ := accepted rule hrule
  obtain ⟨p, hp, huniform⟩ := Rule.isUniform_of_writtenForms written hw
  have hpattern := (Rule.ofText_eq_ok_iff.mp hrule).2
  rw [hp] at hpattern
  exact Option.some.inj hpattern ▸ huniform

/-- All ten patterns at once, out of order and partly with the kinds of other rules. -/
theorem tokenize_eq_rescan_all_forms :
    let rules : List Rule := [⟨.hunger, .edge, by decide⟩, .test, ⟨.crit, .digits, by decide⟩,
      ⟨.dice, .concat (.edge :: Pattern.letters "h" ++ [.one .digit]), by decide⟩, .hunger, .dice,
      .crit, .modifier, ⟨.test, .one (.exactly ['x']), by decide⟩, .separator]
    (∀ rule ∈ rules, ∃ written ∈ Rule.writtenForms, Rule.ofText rule.kind written = .ok rule) ∧
      tokenize rules .description "2d6ac15 xh12;".toList =
        rescan rules .description 0 "2d6ac15 xh12;".toList := by
  intro rules
  have accepted : ∀ rule ∈ rules, ∃ written ∈ Rule.writtenForms,
      Rule.ofText rule.kind written = .ok rule := by
    simp only [rules, Rule.writtenForms, List.forall_mem_cons, List.map_cons, List.map_nil,
      Rule.ofText_eq_ok_iff, true_and]
    refine ⟨⟨r"\b".toList, by simp, by decide⟩, ⟨_, by simp, Pattern.read?_test⟩,
      ⟨r"\d+".toList, by simp, Pattern.read?_digits⟩,
      ⟨r"(?i)\bh\d".toList, by simp, by decide⟩, ⟨_, by simp, Pattern.read?_hunger⟩,
      ⟨_, by simp, Pattern.read?_dice⟩, ⟨_, by simp, Pattern.read?_crit⟩,
      ⟨_, by simp, Pattern.read?_modifier⟩, ⟨"x".toList, by simp, by decide⟩,
      ⟨_, by simp, Pattern.read?_separator⟩, fun _ h => absurd h List.not_mem_nil⟩
  exact ⟨accepted, tokenize_eq_rescan accepted _ _⟩

end Token

end Tabletop
