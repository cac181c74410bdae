import Tabletop.Proofs.Pattern.Takes
import Tabletop.Proofs.Text.Blank
import Tabletop.Proofs.Token.Cut

/-!
# Words behind skipped text

Where no rule can be read within some text, a text that begins with it is cut into the text that is
skipped and what lies behind it. Which rule wins there is decided at the first other character
alone: of the rules that can be read there, the first one wins. Blanks are skipped if no rule begins
with one.
-/

namespace Tabletop

def Found.behind (skipped : Nat) (f : Found) : Found := { f with skipped := f.skipped + skipped }

namespace Token

namespace Rule

/-- The rule cannot be read anywhere in the skipped text with some text behind it. -/
def PassesOver (rule : Rule) : Text → Text → Prop
  | [], _ => True
  | c :: skipped, text =>
    (∀ before, rule.pattern.here? before (c :: (skipped ++ text)) = none) ∧
      rule.PassesOver skipped text

theorem PassesOver.append {rule : Rule} {skipped skipped' text : Text}
    (h : rule.PassesOver skipped (skipped' ++ text)) (h' : rule.PassesOver skipped' text) :
    rule.PassesOver (skipped ++ skipped') text := by
  induction skipped with
  | nil => exact h'
  | cons c skipped ih =>
    refine ⟨fun before => ?_, ih h.2⟩
    have hhere := h.1 before
    rwa [← List.append_assoc] at hhere

theorem PassesOver.search {rule : Rule} {skipped text : Text} (h : rule.PassesOver skipped text)
    (before : Option Char) :
    rule.pattern.search before (skipped ++ text) =
      (rule.pattern.search (skipped.getLast?.or before) text).map
        (Found.behind skipped.length) := by
  induction skipped generalizing before with
  | nil =>
    have hbehind : Found.behind ([] : Text).length = id := rfl
    rw [hbehind, Option.map_id]
    rfl
  | cons c skipped ih =>
    have hlast : (c :: skipped).getLast?.or before = skipped.getLast?.or (some c) := by
      cases skipped <;> simp [List.getLast?_cons]
    rw [List.cons_append, Pattern.search, h.1 before, hlast]
    simp only [ih h.2, Option.map_map]
    rfl

/-- The rule needs text and begins with no blank. -/
structure IsQuiet (rule : Rule) : Prop where
  solid : rule.pattern.isSolid = true
  blank : ∀ c, isBlank c = true → rule.pattern.begins c = false

theorem IsQuiet.passesOver {rule : Rule} (quiet : rule.IsQuiet) {blanks : Text}
    (blank : ∀ c ∈ blanks, isBlank c = true) (text : Text) : rule.PassesOver blanks text := by
  induction blanks with
  | nil => trivial
  | cons c blanks ih =>
    obtain ⟨hc, hblanks⟩ := List.forall_mem_cons.mp blank
    exact ⟨fun before => Pattern.here?_eq_none quiet.solid (by simpa using quiet.blank c hc),
      ih hblanks⟩

end Rule

namespace Hit

section

variable {skipped text : Text}

/-- What a rule finds begins behind the skipped text that the rule passes over. -/
theorem length_le_of_first? {rule : Rule} (passed : rule.PassesOver skipped text) {c : Hit Pattern}
    (h : first? rule (skipped ++ text) = some c) : skipped.length ≤ c.found.skipped := by
  obtain ⟨-, hfound⟩ := first?_eq_some_iff.mp h
  rw [Pattern.matcher_search?, passed.search] at hfound
  obtain ⟨g, -, hbehind⟩ := Option.map_eq_some_iff.mp hfound
  rw [← hbehind]
  exact Nat.le_add_left _ _

/-- A rule that cannot be read right behind the skipped text finds nothing there. -/
theorem length_lt_of_first? {rule : Rule} (passed : rule.PassesOver skipped text)
    (fails : rule.pattern.here? skipped.getLast? text = none) {c : Hit Pattern}
    (h : first? rule (skipped ++ text) = some c) : skipped.length < c.found.skipped := by
  obtain ⟨-, hfound⟩ := first?_eq_some_iff.mp h
  rw [Pattern.matcher_search?, passed.search, Option.or_none] at hfound
  obtain ⟨g, hg, hbehind⟩ := Option.map_eq_some_iff.mp hfound
  rw [← hbehind, Found.behind]
  cases text with
  | nil => simp [Pattern.search, fails] at hg
  | cons a rest =>
    simp only [Pattern.search, fails] at hg
    obtain ⟨g, -, rfl⟩ := Option.map_eq_some_iff.mp hg
    simp only [Found.later]
    omega

/-- A rule that can be read right behind the skipped text finds just that. -/
theorem first?_of_reads {rule : Rule} (passed : rule.PassesOver skipped text) {s : Spot}
    (hs : rule.pattern.here? skipped.getLast? text = some s) (used : 0 < s.used) :
    first? rule (skipped ++ text) = some ⟨rule, ⟨skipped.length, s.used, s.captures⟩, used⟩ := by
  have hsearch : rule.pattern.search skipped.getLast? text = some (.atOnce s) := by
    cases text <;> simp [Pattern.search, hs]
  refine first?_eq_some_iff.mpr ⟨rfl, ?_⟩
  rw [Pattern.matcher_search?, passed.search, Option.or_none, hsearch]
  simp [Found.behind, Found.atOnce]

/-- The first rule that can be read right behind the skipped text wins. -/
theorem leftmost?_of_reads {ahead more : List Rule} {rule : Rule}
    (passed : ∀ r ∈ ahead ++ rule :: more, r.PassesOver skipped text)
    (fails : ∀ r ∈ ahead, r.pattern.here? skipped.getLast? text = none) {s : Spot}
    (hs : rule.pattern.here? skipped.getLast? text = some s) (used : 0 < s.used) :
    leftmost? (hits (ahead ++ rule :: more) (skipped ++ text)) =
      some ⟨rule, ⟨skipped.length, s.used, s.captures⟩, used⟩ := by
  induction ahead with
  | nil =>
    obtain ⟨hpassed, hmore⟩ := List.forall_mem_cons.mp passed
    rw [List.nil_append, leftmost?_hits_cons, first?_of_reads hpassed hs used]
    cases hleft : leftmost? (hits more (skipped ++ text)) with
    | none => rfl
    | some c =>
      obtain ⟨r, hr, hfirst⟩ := exists_first?_of_leftmost? hleft
      have hle := length_le_of_first? (hmore r hr) hfirst
      exact congrArg some (earlier_of_le hle)
  | cons r ahead ih =>
    obtain ⟨hpassed, hrules⟩ := List.forall_mem_cons.mp passed
    obtain ⟨hfails, hahead⟩ := List.forall_mem_cons.mp fails
    rw [List.cons_append, leftmost?_hits_cons, ih hrules hahead]
    cases hfirst : first? r (skipped ++ text) with
    | none => rfl
    | some c =>
      have hlt := length_lt_of_first? hpassed hfails hfirst
      exact congrArg some (earlier_of_lt hlt)

/-- Nothing is found in a text that every rule passes over. -/
theorem leftmost?_of_passesOver {rules : List Rule}
    (passed : ∀ rule ∈ rules, rule.pattern.isSolid = true ∧ rule.PassesOver text []) :
    leftmost? (hits rules text) = none := by
  cases hc : leftmost? (hits rules text) with
  | none => rfl
  | some c =>
    obtain ⟨rule, hrule, hfirst⟩ := exists_first?_of_leftmost? hc
    obtain ⟨solid, hpassed⟩ := passed rule hrule
    have hnone : rule.pattern.search none text = none := by
      rw [← List.append_nil text, hpassed.search, Pattern.search_eq_none solid (by simp),
        Option.map_none]
    simp [first?, hnone] at hfirst

end

end Hit

def Rule.groupTexts (rule : Rule) (said : List (Nat × Text)) : List (Option Text) :=
  (List.range rule.pattern.groups).map fun i =>
    (said.lookup (i + 1)).filter fun s => !s.isEmpty

/-- Captures that hold a character show in the texts of the groups as they are. -/
theorem Rule.groupTexts_of_nonempty {rule : Rule} {said : List (Nat × Text)}
    (nonempty : ∀ s ∈ said, s.2 ≠ []) :
    rule.groupTexts said =
      (List.range rule.pattern.groups).map fun i => said.lookup (i + 1) := by
  refine List.map_congr_left fun i _ => ?_
  cases h : said.lookup (i + 1) with
  | none => rfl
  | some text =>
    obtain ⟨before, after, hsaid, -⟩ := List.lookup_eq_some_iff.mp h
    have htext : text ≠ [] := nonempty (i + 1, text) (by simp [hsaid])
    simp [htext]

/-- Skipped text and a word behind it are cut off if the rules before the word's own cannot be read
there. -/
theorem cut_word {skipped word rest : Text} {said : List (Nat × Text)} {ahead more : List Rule}
    {rule : Rule} (nonempty : word ≠ [])
    (passed : ∀ r ∈ ahead ++ rule :: more, r.PassesOver skipped (word ++ rest))
    (fails : ∀ r ∈ ahead, r.pattern.Fails skipped.getLast? (word ++ rest))
    (takes : rule.pattern.Takes skipped.getLast? word rest said) (fallback : Kind) :
    cut (ahead ++ rule :: more) fallback (skipped ++ (word ++ rest)) =
      (if skipped = [] then [] else [.unmatched fallback skipped 0]) ++
        ⟨rule.kind, word, 0, rule.groupTexts said⟩ ::
          cut (ahead ++ rule :: more) fallback rest := by
  obtain ⟨s, hs, hused, hsaid⟩ := takes.here?
  have hpos : 0 < s.used := by rw [hused]; exact List.length_pos_iff.mpr nonempty
  have hleft := Hit.leftmost?_of_reads passed (fun r hr => (fails r hr).here?) hs hpos
  have htexts : (Found.mk skipped.length s.used s.captures).groupTexts rule.pattern.groups =
      rule.groupTexts said := by
    rw [Found.groupTexts_eq, hsaid, Rule.groupTexts]
  rw [cut_of_leftmost? (by simp [nonempty]) hleft]
  simp only [Hit.cut, Hit.tokens, Hit.token, Hit.after, Pattern.matcher_groups, htexts,
    ← List.drop_drop, List.drop_left]
  rw [hused, List.drop_left, List.take_left]
  simp only [List.take_left, List.length_eq_zero_iff]
  split <;> rfl

end Token

end Tabletop
