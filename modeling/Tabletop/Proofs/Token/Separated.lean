import Tabletop.Proofs.Pattern.Wall
import Tabletop.Proofs.Token.Cut

/-!
# Cutting at a separator

Where every rule but the separator's own avoids the separator, a text with one in it is cut into
the tokens of what stands before it, the separator, and the tokens of what stands behind it. A
rule may well look beyond the separator and find something there first; but then the
separator's own hit begins earlier and wins.
-/

namespace Tabletop

namespace Token

def mark : Token := ⟨.separator, [';'], 0, []⟩

namespace Rule

/-- The rule matches no separator, or is the one that does. -/
def Separates (rule : Rule) : Prop :=
  rule = .separator ∨ rule.pattern.isSolid = true ∧ rule.pattern.avoids ';' = true

end Rule

namespace Hit

def onto (tail : Text) (c : Hit Pattern) : Hit Pattern := { c with found := c.found.onto tail }

def atMark (skipped : Nat) : Hit Pattern := ⟨Rule.separator, ⟨skipped, 1, []⟩, Nat.one_pos⟩

section

variable {text : Text} (more : Text)

theorem here?_separator_cons (before : Option Char) (c : Char) (rest : Text) :
    Pattern.separator.here? before (c :: rest) =
      if c = ';' then some ⟨some c, rest, 1, []⟩ else none := by
  by_cases h : c = ';' <;>
    simp [Pattern.here?, Pattern.separator, Pattern.runs, Spot.ofText, Spot.past, CharSet.has, h]

/-- The search for a separator in a text that goes on behind another one. -/
theorem search_separator (before : Option Char) (text : Text) :
    Pattern.separator.search before (text ++ ';' :: more) =
      some (((Pattern.separator.search before text).map (Found.onto (';' :: more))).getD
        ⟨text.length, 1, []⟩) := by
  induction text generalizing before with
  | nil =>
    simp only [List.nil_append, Pattern.search, here?_separator_cons]
    rfl
  | cons c rest ih =>
    rw [List.cons_append, Pattern.search, Pattern.search, here?_separator_cons,
      here?_separator_cons]
    by_cases hc : c = ';'
    · rw [if_pos hc, if_pos hc]; rfl
    · rw [if_neg hc, if_neg hc]
      simp only [ih]
      cases Pattern.separator.search (some c) rest <;> rfl

/-- A hit before the separator stays what its rule finds first. -/
theorem first?_onto {rule : Rule} (separates : rule.Separates) {c : Hit Pattern}
    (h : first? rule text = some c) :
    first? rule (text ++ ';' :: more) = some (c.onto (';' :: more)) := by
  obtain ⟨hrule, hfound⟩ := first?_eq_some_iff.mp h
  refine first?_eq_some_iff.mpr ⟨hrule, ?_⟩
  rcases separates with rfl | ⟨-, avoids⟩
  · change Pattern.separator.search none text = some c.found at hfound
    change Pattern.separator.search none _ = some (c.found.onto _)
    rw [search_separator, hfound]
    rfl
  · exact Pattern.search_onto avoids (by decide) hfound

theorem search_eq_none_of_first? {rule : Rule} (solid : 0 < rule.pattern.least)
    (h : first? rule text = none) : rule.pattern.search none text = none := by
  cases hs : rule.pattern.search none text with
  | none => rfl
  | some found =>
    have := first?_eq_none_iff.mp h found hs
    have := (Pattern.bounds_of_search hs).1
    omega

/-- A rule without a hit before the separator finds none, the separator, or something behind. -/
theorem first?_behind {rule : Rule} (separates : rule.Separates) (h : first? rule text = none)
    {d : Hit Pattern} (hd : first? rule (text ++ ';' :: more) = some d) :
    d = atMark text.length ∨ text.length < d.found.skipped := by
  obtain ⟨hrule, hfound⟩ := first?_eq_some_iff.mp hd
  rcases separates with rfl | ⟨solid, avoids⟩
  · left
    have hsearch := search_separator more none text
    change Pattern.separator.search none _ = some d.found at hfound
    have hnone : Pattern.separator.search none text = none :=
      search_eq_none_of_first? (by decide) h
    rw [hnone, hfound] at hsearch
    obtain ⟨rule, found, nonempty⟩ := d
    simp only [Option.map_none, Option.getD_none, Option.some.injEq] at hsearch
    simp only at hrule
    subst hrule hsearch
    rfl
  · right
    simp only [Pattern.isSolid, decide_eq_true_eq] at solid
    exact Pattern.lt_skipped_of_search_onto avoids (by decide)
      (search_eq_none_of_first? solid h) hfound

theorem leftmost?_hits_eq_none {rules : List Rule} (h : leftmost? (hits rules text) = none) :
    ∀ rule ∈ rules, first? rule text = none := by
  induction rules with
  | nil => simp
  | cons rule rules ih =>
    rw [leftmost?_hits_cons, Option.merge_eq_none_iff] at h
    exact List.forall_mem_cons.mpr ⟨h.1, ih h.2⟩

theorem skipped_earlier_le (a b : Hit Pattern) :
    (earlier a b).found.skipped ≤ a.found.skipped ∧
      (earlier a b).found.skipped ≤ b.found.skipped := by
  by_cases h : b.found.skipped < a.found.skipped
  · rw [earlier_of_lt h]
    omega
  · rw [earlier_of_le (Nat.le_of_not_lt h)]
    omega

theorem skipped_le_of_merge {a b : Option (Hit Pattern)} {c : Hit Pattern}
    (h : Option.merge earlier a b = some c) :
    (∀ d ∈ a, c.found.skipped ≤ d.found.skipped) ∧
      ∀ d ∈ b, c.found.skipped ≤ d.found.skipped := by
  cases a with
  | none =>
    rw [Option.merge_none_left] at h
    simp [h]
  | some a =>
    cases b with
    | none =>
      rw [Option.merge_none_right] at h
      simp [h]
    | some b =>
      obtain rfl : earlier a b = c := Option.some.inj h
      simpa using skipped_earlier_le a b

/-- No rule finds anything before the winner. -/
theorem skipped_le_of_leftmost? {rules : List Rule} {c : Hit Pattern}
    (h : leftmost? (hits rules text) = some c) :
    ∀ rule ∈ rules, ∀ d ∈ first? rule text, c.found.skipped ≤ d.found.skipped := by
  induction rules generalizing c with
  | nil => simp
  | cons rule rules ih =>
    rw [leftmost?_hits_cons] at h
    obtain ⟨hfirst, hrest⟩ := skipped_le_of_merge h
    refine List.forall_mem_cons.mpr ⟨hfirst, fun r hr d hd => ?_⟩
    cases hl : leftmost? (hits rules text) with
    | none => simp [leftmost?_hits_eq_none hl r hr] at hd
    | some b => exact Nat.le_trans (hrest b hl) (ih hl r hr d hd)

theorem earlier_onto (tail : Text) (a b : Hit Pattern) :
    earlier (a.onto tail) (b.onto tail) = (earlier a b).onto tail := by
  by_cases h : b.found.skipped < a.found.skipped
  · rw [earlier_of_lt h]
    exact earlier_of_lt h
  · rw [earlier_of_le (Nat.le_of_not_lt h)]
    exact earlier_of_le (Nat.le_of_not_lt h)

theorem skipped_lt_of_within {c : Hit Pattern} (h : c.Within text) :
    c.found.skipped < text.length := by
  have := h.length
  have := c.nonempty
  omega

theorem length_le_of_behind {d : Hit Pattern}
    (h : d = atMark text.length ∨ text.length < d.found.skipped) :
    text.length ≤ d.found.skipped := by
  rcases h with rfl | h
  · exact Nat.le_refl _
  · exact Nat.le_of_lt h

/-- Without a hit before the separator, the winner is the separator or lies behind it. -/
theorem leftmost?_behind {rules : List Rule} (separates : ∀ rule ∈ rules, rule.Separates)
    (h : leftmost? (hits rules text) = none) {d : Hit Pattern}
    (hd : leftmost? (hits rules (text ++ ';' :: more)) = some d) :
    d = atMark text.length ∨ text.length < d.found.skipped := by
  obtain ⟨rule, hrule, hfirst⟩ := exists_first?_of_leftmost? hd
  exact first?_behind more (separates rule hrule) (leftmost?_hits_eq_none h rule hrule) hfirst

/-- A winner before the separator still wins. -/
theorem leftmost?_onto {rules : List Rule} (separates : ∀ rule ∈ rules, rule.Separates)
    {c : Hit Pattern} (h : leftmost? (hits rules text) = some c) :
    leftmost? (hits rules (text ++ ';' :: more)) = some (c.onto (';' :: more)) := by
  induction rules generalizing c with
  | nil => simp [hits, leftmost?] at h
  | cons rule rules ih =>
    obtain ⟨hseparates, hrest⟩ := List.forall_mem_cons.mp separates
    rw [leftmost?_hits_cons] at h ⊢
    cases hr : first? rule text with
    | none =>
      rw [hr, Option.merge_none_left] at h
      rw [ih hrest h]
      have hskipped := skipped_lt_of_within (within_of_leftmost? h)
      cases hd : first? rule (text ++ ';' :: more) with
      | none => rfl
      | some d =>
        have hbehind := length_le_of_behind (first?_behind more hseparates hr hd)
        exact congrArg some (earlier_of_lt (Nat.lt_of_lt_of_le hskipped hbehind))
    | some a =>
      rw [first?_onto more hseparates hr]
      cases hl : leftmost? (hits rules text) with
      | none =>
        rw [hr, hl, Option.merge_none_right, Option.some.injEq] at h
        subst h
        have hskipped := skipped_lt_of_within (within_of_first? hr)
        cases hd : leftmost? (hits rules (text ++ ';' :: more)) with
        | none => rfl
        | some d =>
          have hbehind := length_le_of_behind (leftmost?_behind more hrest hl hd)
          exact congrArg some (earlier_of_le (Nat.le_trans (Nat.le_of_lt hskipped) hbehind))
      | some b =>
        rw [ih hrest hl]
        rw [hr, hl] at h
        exact congrArg some ((earlier_onto _ a b).trans (congrArg _ (Option.some.inj h)))

/-- Without a hit before the separator, the separator wins. -/
theorem leftmost?_mark {rules : List Rule} (separates : ∀ rule ∈ rules, rule.Separates)
    (separator : .separator ∈ rules) (h : leftmost? (hits rules text) = none) :
    leftmost? (hits rules (text ++ ';' :: more)) = some (atMark text.length) := by
  have hmark : first? Rule.separator (text ++ ';' :: more) = some (atMark text.length) := by
    have hsearch := search_separator more none text
    have hnone : Pattern.separator.search none text = none :=
      search_eq_none_of_first? (by decide) (leftmost?_hits_eq_none h _ separator)
    rw [hnone] at hsearch
    rw [first?_eq_bind, show Rule.separator.pattern.search none _ = _ from hsearch]
    rfl
  cases hd : leftmost? (hits rules (text ++ ';' :: more)) with
  | none => simp [leftmost?_hits_eq_none hd _ separator] at hmark
  | some d =>
    have hle : d.found.skipped ≤ text.length := skipped_le_of_leftmost? hd _ separator _ hmark
    rcases leftmost?_behind more separates h hd with rfl | hlt
    · rfl
    · omega

/-- A hit before the separator gives the same tokens and leaves the rest in front of it. -/
theorem cut_onto {c : Hit Pattern} (h : c.Within text) (fallback : Kind) :
    (c.onto (';' :: more)).cut fallback (text ++ ';' :: more) = c.cut fallback text := by
  have htake : (text ++ ';' :: more).take c.found.skipped = text.take c.found.skipped :=
    List.take_append_of_le_length (by have := h.length; omega)
  have htoken : ((text ++ ';' :: more).drop c.found.skipped).take c.found.length =
      (text.drop c.found.skipped).take c.found.length := by
    rw [List.drop_append_of_le_length (by have := h.length; omega),
      List.take_append_of_le_length (by have := h.length; rw [List.length_drop]; omega)]
  have hgroups := Found.groupTexts_onto h.captures (';' :: more) c.rule.pattern.groups
  simp only [cut, tokens, token, onto, Pattern.matcher_groups]
  rw [hgroups]
  simp only [Found.onto, htake, htoken]

theorem after_onto {c : Hit Pattern} (h : c.Within text) :
    (c.onto (';' :: more)).after (text ++ ';' :: more) = c.after text ++ ';' :: more :=
  List.drop_append_of_le_length h.length

theorem cut_atMark (fallback : Kind) :
    (atMark text.length).cut fallback (text ++ ';' :: more) =
      if text = [] then [mark] else [.unmatched fallback text 0, mark] := by
  by_cases hnil : text = []
  · subst hnil; rfl
  · have hlength : text.length ≠ 0 := fun h => hnil (List.length_eq_zero_iff.mp h)
    rw [if_neg hnil]
    simp [cut, tokens, token, atMark, hlength, bare, mark, unmatched, Found.groupTexts,
      Rule.separator, Pattern.separator, Pattern.groups]

theorem after_atMark : (atMark text.length).after (text ++ ';' :: more) = more := by
  simp [after, atMark]

end

end Hit

/-- A separator joins two texts without touching the tokens of either. -/
theorem cut_separated {rules : List Rule} (separates : ∀ rule ∈ rules, rule.Separates)
    (separator : .separator ∈ rules) (fallback : Kind) (text more : Text) :
    cut rules fallback (text ++ ';' :: more) =
      cut rules fallback text ++ mark :: cut rules fallback more := by
  have nonempty (text : Text) : text ++ ';' :: more ≠ [] := by simp
  induction text using cut_induction rules with
  | nil =>
    have hnone : Hit.leftmost? (hits rules []) = none := by
      cases h : Hit.leftmost? (hits rules []) with
      | none => rfl
      | some c => exact absurd (Hit.skipped_lt_of_within (Hit.within_of_leftmost? h)) (by simp)
    rw [cut_of_leftmost? (nonempty []) (Hit.leftmost?_mark more separates separator hnone),
      Hit.cut_atMark, Hit.after_atMark, cut_nil]
    rfl
  | rest text hnil hnone =>
    rw [cut_of_leftmost? (nonempty text) (Hit.leftmost?_mark more separates separator hnone),
      Hit.cut_atMark, Hit.after_atMark, cut_of_leftmost?_eq_none hnil hnone, if_neg hnil]
    rfl
  | hit text c hnil hc ih =>
    have hwithin := Hit.within_of_leftmost? hc
    rw [cut_of_leftmost? (nonempty text) (Hit.leftmost?_onto more separates hc),
      Hit.cut_onto more hwithin, Hit.after_onto more hwithin, ih, cut_of_leftmost? hnil hc,
      List.append_assoc]

end Token

end Tabletop
