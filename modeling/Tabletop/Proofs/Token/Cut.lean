import Tabletop.Proofs.Token.Memory

/-!
# Cutting a text

The tokens of a text without their places depend on the text alone. They are worked out from
left to right: the winning hit, the text before it, and then what the rest of the text is cut
into. Together they hold every character of the text once.
-/

namespace Tabletop

namespace Token

/-- The token without its place in the command. -/
def bare (t : Token) : Token := { t with start := 0 }

@[simp] theorem bare_kind (t : Token) : t.bare.kind = t.kind := rfl

@[simp] theorem bare_raw (t : Token) : t.bare.raw = t.raw := rfl

namespace Hit

/-- The hit lies within a text, and so does what it captured. -/
structure Within (c : Hit Pattern) (text : Text) : Prop where
  length : c.found.skipped + c.found.length ≤ text.length
  captures : ∀ capture ∈ c.found.captures, capture.length ≤ capture.text.length

theorem within_of_first? {rule : Rule} {text : Text} {c : Hit Pattern}
    (h : first? rule text = some c) : c.Within text := by
  obtain ⟨-, hbounds, hcaptures⟩ := Pattern.bounds_of_search (first?_eq_some_iff.mp h).2
  exact ⟨hbounds, hcaptures⟩

/-- The winner is what some rule finds first. -/
theorem exists_first?_of_leftmost? {rules : List Rule} {text : Text} {c : Hit Pattern}
    (h : leftmost? (hits rules text) = some c) : ∃ rule ∈ rules, first? rule text = some c :=
  List.mem_filterMap.mp (mem_of_leftmost? h)

theorem within_of_leftmost? {rules : List Rule} {text : Text} {c : Hit Pattern}
    (h : leftmost? (hits rules text) = some c) : c.Within text := by
  obtain ⟨rule, -, hfirst⟩ := exists_first?_of_leftmost? h
  exact within_of_first? hfirst

def cut (c : Hit Pattern) (fallback : Kind) (text : Text) : List Token :=
  (c.tokens fallback text 0).map bare

theorem map_bare_tokens (c : Hit Pattern) (fallback : Kind) (text : Text) (start : Nat) :
    (c.tokens fallback text start).map bare = c.cut fallback text := by
  simp only [cut, tokens]
  split <;> rfl

/-- A hit takes exactly the text up to its end. -/
theorem raw_cut {c : Hit Pattern} {text : Text} (fallback : Kind) :
    (c.cut fallback text).flatMap raw ++ c.after text = text := by
  have hsplit : text.take c.found.skipped ++ (text.drop c.found.skipped).take c.found.length ++
      text.drop (c.found.skipped + c.found.length) = text := by
    rw [List.append_assoc, ← List.drop_drop, List.take_append_drop, List.take_append_drop]
  by_cases h : c.found.skipped = 0
  · simp [cut, tokens, token, after, h]
  · simp only [cut, tokens, if_neg h, List.map_cons, List.map_nil, List.flatMap_cons,
      List.flatMap_nil, List.append_nil]
    exact hsplit

end Hit

/-- The token holds a match of a rule, and what the groups captured of it. -/
def IsMatch (rule : Rule) (t : Token) : Prop :=
  ∃ before text s, rule.pattern.here? before text = some s ∧ 0 < s.used ∧
    t.kind = rule.kind ∧ t.raw = text.take s.used ∧
    t.captures = (Found.atOnce s).groupTexts rule.pattern.groups

theorem isMatch_of_first? {rule : Rule} {text : Text} {c : Hit Pattern}
    (h : Hit.first? rule text = some c) (start : Nat) : (c.token text start).IsMatch rule := by
  obtain ⟨rfl, hsearch⟩ := Hit.first?_eq_some_iff.mp h
  obtain ⟨-, before, s, hs, hfs⟩ := Pattern.exists_here?_of_search hsearch
  have hpos := c.nonempty
  rw [hfs] at hpos
  refine ⟨before, text.drop c.found.skipped, s, hs, hpos, rfl, ?_, ?_⟩ <;>
    rw [Hit.token, hfs] <;> rfl

/-- The tokens of a text by the plain reading, without their places. -/
def cut (rules : List Rule) (fallback : Kind) (text : Text) : List Token :=
  (rescan rules fallback 0 text).map bare

section

variable {rules : List Rule} {fallback : Kind}

/-- The place at which a text begins shows in the places of its tokens only. -/
theorem map_bare_rescan (start : Nat) (text : Text) :
    (rescan rules fallback start text).map bare = cut rules fallback text := by
  rw [cut]
  generalize 0 = start'
  induction hn : text.length using Nat.strongRecOn generalizing start start' text with
  | ind n ih =>
    rw [rescan, rescan]
    by_cases hnil : text = []
    · rw [dif_pos hnil, dif_pos hnil]
    · rw [dif_neg hnil, dif_neg hnil]
      cases hc : Hit.leftmost? (hits rules text) with
      | none => rfl
      | some c =>
        have hshorter := c.after_lt hnil
        simp only [List.map_append, Hit.map_bare_tokens]
        rw [ih _ (hn ▸ hshorter) _ _ _ rfl]

@[simp] theorem cut_nil : cut rules fallback [] = [] := by
  rw [cut, rescan]
  rfl

theorem cut_of_leftmost?_eq_none {text : Text} (nonempty : text ≠ [])
    (h : Hit.leftmost? (hits rules text) = none) :
    cut rules fallback text = [.unmatched fallback text 0] := by
  rw [cut, rescan, dif_neg nonempty, h]
  rfl

theorem cut_of_leftmost? {text : Text} (nonempty : text ≠ []) {c : Hit Pattern}
    (h : Hit.leftmost? (hits rules text) = some c) :
    cut rules fallback text = c.cut fallback text ++ cut rules fallback (c.after text) := by
  rw [cut, rescan, dif_neg nonempty, h]
  simp only [List.map_append, Hit.map_bare_tokens, map_bare_rescan]

/-- What a text is cut into, by the length of the text: nothing is left; or there is no hit; or
the winning hit is cut off. -/
theorem cut_induction (rules : List Rule) {motive : Text → Prop} (nil : motive [])
    (rest : ∀ text, text ≠ [] → Hit.leftmost? (hits rules text) = none → motive text)
    (hit : ∀ text c, text ≠ [] → Hit.leftmost? (hits rules text) = some c →
      motive (c.after text) → motive text) (text : Text) : motive text := by
  induction hn : text.length using Nat.strongRecOn generalizing text with
  | ind n ih =>
    by_cases hnil : text = []
    · exact hnil ▸ nil
    · cases hc : Hit.leftmost? (hits rules text) with
      | none => exact rest text hnil hc
      | some c => exact hit text c hnil hc (ih _ (hn ▸ c.after_lt hnil) _ rfl)

/-- No character is lost, and none changes its place. -/
theorem raw_cut (rules : List Rule) (fallback : Kind) (text : Text) :
    (cut rules fallback text).flatMap raw = text := by
  induction text using cut_induction rules with
  | nil => rw [cut_nil]; rfl
  | rest text hnil hnone =>
    rw [cut_of_leftmost?_eq_none hnil hnone]
    simp [unmatched]
  | hit text c hnil hc ih =>
    rw [cut_of_leftmost? hnil hc, List.flatMap_append, ih, Hit.raw_cut]

/-- A token is a match of a rule or else of the fallback kind. -/
theorem mem_cut {t : Token} {text : Text} (h : t ∈ cut rules fallback text) :
    (∃ raw, raw ≠ [] ∧ t = unmatched fallback raw 0) ∨ ∃ rule ∈ rules, t.IsMatch rule := by
  induction text using cut_induction rules with
  | nil => simp at h
  | rest text hnil hnone =>
    rw [cut_of_leftmost?_eq_none hnil hnone, List.mem_singleton] at h
    exact .inl ⟨text, hnil, h⟩
  | hit text c hnil hc ih =>
    rw [cut_of_leftmost? hnil hc, List.mem_append] at h
    cases h with
    | inl h =>
      obtain ⟨rule, hrule, hfirst⟩ := Hit.exists_first?_of_leftmost? hc
      have hmatch := isMatch_of_first? hfirst 0
      simp only [Hit.cut, Hit.tokens] at h
      split at h
      · rw [List.mem_singleton.mp h]
        exact .inr ⟨rule, hrule, hmatch⟩
      · rename_i hskipped
        rcases List.mem_cons.mp h with rfl | h
        · refine .inl ⟨text.take c.found.skipped, ?_, rfl⟩
          simp [hnil, hskipped]
        · rw [List.mem_singleton.mp h]
          exact .inr ⟨rule, hrule, hmatch⟩
    | inr h => exact ih h

end

end Token

end Tabletop
