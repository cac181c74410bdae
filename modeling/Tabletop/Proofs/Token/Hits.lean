import Tabletop.Proofs.Pattern.Reach
import Tabletop.Token.Scanner

/-!
# Hits

Which hit wins at a cursor can be worked out rule by rule, the last rule first: the hit of a
rule wins over the winner of the rules behind it unless that one begins earlier. So a hit at the
cursor itself wins if no rule before its own has one there.
-/

namespace Tabletop

namespace Token

namespace Hit

section

variable {μ : Type} [Matcher μ]

/-- The hit of a rule that a search from the beginning of a text finds. -/
def first? (rule : RuleOf μ) (text : Text) : Option (Hit μ) :=
  (Matcher.search? rule.pattern text).bind (of? rule)

theorem of?_eq_some_iff {rule : RuleOf μ} {found : Found} {c : Hit μ} :
    of? rule found = some c ↔ c.rule = rule ∧ c.found = found := by
  constructor
  · intro h
    simp only [of?] at h
    split at h
    · cases h; exact ⟨rfl, rfl⟩
    · simp at h
  · rintro ⟨rfl, rfl⟩
    simp [of?, c.nonempty]

theorem of?_eq_none_iff {rule : RuleOf μ} {found : Found} :
    of? rule found = none ↔ found.length = 0 := by
  simp only [of?]
  split <;> simp <;> omega

theorem bind_of?_eq_some_iff {rule : RuleOf μ} {found? : Option Found} {c : Hit μ} :
    found?.bind (of? rule) = some c ↔ c.rule = rule ∧ found? = some c.found := by
  rw [Option.bind_eq_some_iff]
  constructor
  · rintro ⟨found, hfound, h⟩
    obtain ⟨hrule, rfl⟩ := of?_eq_some_iff.mp h
    exact ⟨hrule, hfound⟩
  · rintro ⟨hrule, hfound⟩
    exact ⟨c.found, hfound, of?_eq_some_iff.mpr ⟨hrule, rfl⟩⟩

theorem bind_of?_eq_none_iff {rule : RuleOf μ} {found? : Option Found} :
    found?.bind (of? rule) = none ↔ ∀ found, found? = some found → found.length = 0 := by
  simp only [Option.bind_eq_none_iff, of?_eq_none_iff]

theorem here?_eq_some_iff {rule : RuleOf μ} {text : Text} {c : Hit μ} :
    here? rule text = some c ↔
      c.rule = rule ∧ Matcher.here? rule.pattern text = some c.found := bind_of?_eq_some_iff

theorem first?_eq_some_iff {rule : RuleOf μ} {text : Text} {c : Hit μ} :
    first? rule text = some c ↔
      c.rule = rule ∧ Matcher.search? rule.pattern text = some c.found := bind_of?_eq_some_iff

theorem here?_eq_none_iff {rule : RuleOf μ} {text : Text} :
    here? rule text = none ↔
      ∀ found, Matcher.here? rule.pattern text = some found → found.length = 0 :=
  bind_of?_eq_none_iff

theorem first?_eq_none_iff {rule : RuleOf μ} {text : Text} :
    first? rule text = none ↔
      ∀ found, Matcher.search? rule.pattern text = some found → found.length = 0 :=
  bind_of?_eq_none_iff

theorem earlier_of_le {a b : Hit μ} (h : a.found.skipped ≤ b.found.skipped) : earlier a b = a :=
  if_neg (Nat.not_lt.mpr h)

theorem earlier_of_lt {a b : Hit μ} (h : b.found.skipped < a.found.skipped) : earlier a b = b :=
  if_pos h

theorem earlier_eq_or_eq (a b : Hit μ) : earlier a b = a ∨ earlier a b = b := by
  by_cases h : b.found.skipped < a.found.skipped
  · exact .inr (earlier_of_lt h)
  · exact .inl (earlier_of_le (Nat.le_of_not_lt h))

theorem earlier_assoc (a b c : Hit μ) : earlier (earlier a b) c = earlier a (earlier b c) := by
  by_cases hba : b.found.skipped < a.found.skipped <;>
    by_cases hcb : c.found.skipped < b.found.skipped <;>
    by_cases hca : c.found.skipped < a.found.skipped <;>
    simp only [earlier, hba, hcb, hca, ↓reduceIte] <;> omega

theorem foldl_earlier (a b : Hit μ) (rest : List (Hit μ)) :
    rest.foldl earlier (earlier a b) = earlier a (rest.foldl earlier b) := by
  induction rest generalizing b with
  | nil => rfl
  | cons c rest ih => rw [List.foldl_cons, List.foldl_cons, earlier_assoc, ih]

theorem leftmost?_cons (c : Hit μ) (rest : List (Hit μ)) :
    leftmost? (c :: rest) = Option.merge earlier (some c) (leftmost? rest) := by
  cases rest with
  | nil => rfl
  | cons d rest => simp only [leftmost?, List.foldl_cons, foldl_earlier, Option.merge]

theorem mem_of_leftmost? {hits : List (Hit μ)} {c : Hit μ} (h : leftmost? hits = some c) :
    c ∈ hits := by
  induction hits generalizing c with
  | nil => simp [leftmost?] at h
  | cons d rest ih =>
    rw [leftmost?_cons] at h
    rcases Option.merge_eq_or_eq earlier_eq_or_eq (some d) (leftmost? rest) with hfirst | hrest
    · rw [hfirst] at h
      rw [Option.some.inj h]
      exact List.mem_cons_self
    · exact List.mem_cons_of_mem d (ih (hrest ▸ h))

/-- The winner among all rules, worked out from the winner among all but the first. -/
theorem leftmost?_hits_cons (rule : RuleOf μ) (rules : List (RuleOf μ)) (text : Text) :
    leftmost? (hits (rule :: rules) text) =
      Option.merge earlier (first? rule text) (leftmost? (hits rules text)) := by
  cases h : first? rule text with
  | none =>
    have hits_cons : hits (rule :: rules) text = hits rules text := List.filterMap_cons_none h
    rw [hits_cons, Option.merge_none_left]
  | some c =>
    have hits_cons : hits (rule :: rules) text = c :: hits rules text := List.filterMap_cons_some h
    rw [hits_cons, leftmost?_cons]

end

theorem first?_eq_bind (rule : Rule) (text : Text) :
    first? rule text = (rule.pattern.search none text).bind (of? rule) := rfl

theorem skipped_of_here? {rule : Rule} {text : Text} {c : Hit Pattern}
    (h : here? rule text = some c) : c.found.skipped = 0 := by
  obtain ⟨-, hfound⟩ := here?_eq_some_iff.mp h
  obtain ⟨s, -, hs⟩ := Option.map_eq_some_iff.mp hfound
  rw [← hs]
  rfl

/-- A hit right here is what a search finds first. -/
theorem first?_of_here? {rule : Rule} {text : Text} {c : Hit Pattern}
    (h : here? rule text = some c) : first? rule text = some c := by
  obtain ⟨hrule, hfound⟩ := here?_eq_some_iff.mp h
  obtain ⟨s, hs, hat⟩ := Option.map_eq_some_iff.mp hfound
  refine first?_eq_some_iff.mpr ⟨hrule, ?_⟩
  cases text <;> simp [Pattern.search, hs, hat]

/-- Without a hit right here, a search finds one further on if it finds any. -/
theorem skipped_pos_of_first? {rule : Rule} {text : Text} {c : Hit Pattern}
    (h : here? rule text = none) (hc : first? rule text = some c) : 0 < c.found.skipped := by
  obtain ⟨hrule, hfound⟩ := first?_eq_some_iff.mp hc
  have not_here (s : Spot) (hs : rule.pattern.here? none text = some s) : .atOnce s ≠ c.found := by
    intro hat
    have : here? rule text = some c := here?_eq_some_iff.mpr ⟨hrule, by simp [hs, hat]⟩
    simp [this] at h
  rw [Pattern.matcher_search?] at hfound
  cases text with
  | nil =>
    obtain ⟨s, hs, hat⟩ := Option.map_eq_some_iff.mp hfound
    exact absurd hat (not_here s hs)
  | cons a rest =>
    simp only [Pattern.search] at hfound
    split at hfound
    · next s hs => exact absurd (Option.some.inj hfound) (not_here s hs)
    · obtain ⟨g, -, hlater⟩ := Option.map_eq_some_iff.mp hfound
      simp [← hlater, Found.later]

/-- The first rule with a hit at the cursor itself wins. -/
theorem leftmost?_hits_of_here? {rules : List Rule} {text : Text} {c : Hit Pattern}
    (h : (rules.findSome? fun rule => here? rule text) = some c) :
    leftmost? (hits rules text) = some c := by
  induction rules with
  | nil => simp at h
  | cons rule rules ih =>
    rw [leftmost?_hits_cons]
    cases hr : here? rule text with
    | some d =>
      rw [List.findSome?_cons, hr] at h
      obtain rfl : d = c := Option.some.inj h
      rw [first?_of_here? hr]
      have hskip := skipped_of_here? hr
      cases leftmost? (hits rules text) with
      | none => rfl
      | some e => exact congrArg some (earlier_of_le (by omega))
    | none =>
      rw [List.findSome?_cons, hr] at h
      have hskip : c.found.skipped = 0 := by
        obtain ⟨r, -, hc⟩ := List.exists_of_findSome?_eq_some h
        exact skipped_of_here? hc
      rw [ih h]
      cases hf : first? rule text with
      | none => rfl
      | some d =>
        have hpos := skipped_pos_of_first? hr hf
        exact congrArg some (earlier_of_lt (by omega))

end Hit

end Token

end Tabletop
