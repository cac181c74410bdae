import Tabletop.Proofs.Group.Reading
import Tabletop.Proofs.Text.Words
import Tabletop.Proofs.Token.Behind
import Tabletop.Proofs.Token.Fits
import Tabletop.Proofs.Token.Separated

/-!
# Joined commands

A semicolon between two commands gives the expressions of the one and then those of the other.
Only a command that says nothing, because it holds blanks and semicolons alone, has no
expressions of its own to add; if neither says anything, one empty expression is left.
-/

namespace Tabletop

/-- The text holds blanks and semicolons only. -/
def Text.isSilent (s : Text) : Bool := s.all fun c => isBlank c || c == ';'

namespace Pattern

/-- No match begins with a blank or a semicolon, or reaches over a semicolon. -/
def speaks (p : Pattern) : Bool :=
  p.isSolid && p.avoids ';' && !p.begins ';' &&
    blankRanges.members.all fun n => !p.begins (Char.ofNat n)

theorem begins_of_speaks {p : Pattern} (h : p.speaks = true) {c : Char}
    (hc : (isBlank c || c == ';') = true) : p.begins c = false := by
  simp only [speaks, Bool.and_eq_true, Bool.not_eq_eq_eq_not, Bool.not_true] at h
  cases Bool.or_eq_true_iff.mp hc with
  | inl hc => simpa using forall_isBlank (fun c => !p.begins c) h.2 hc
  | inr hc =>
    rw [beq_iff_eq.mp hc]
    exact h.1.2

end Pattern

namespace System

theorem separator_mem_rules (system : System) : .separator ∈ system.rules := by
  simp [rules, Token.Rule.ahead, Token.Rule.shared]

/-- The separator has a rule of its own, and the other rules keep away from it. -/
theorem speaks_of_mem_rules {system : System} {rule : Token.Rule} (h : rule ∈ system.rules) :
    rule = .separator ∨ rule.kind ≠ .separator ∧ rule.pattern.speaks = true := by
  refine (forall_rules (fun r => r.kind != .separator && r.pattern.speaks) (by decide) h).imp id ?_
  intro hspeaks
  rw [Bool.and_eq_true, bne_iff_ne] at hspeaks
  exact hspeaks

theorem separates_of_mem_rules {system : System} {rule : Token.Rule} (h : rule ∈ system.rules) :
    rule.Separates := by
  rcases speaks_of_mem_rules h with rfl | ⟨-, hspeaks⟩
  · exact .inl rfl
  · simp only [Pattern.speaks, Bool.and_eq_true] at hspeaks
    exact .inr hspeaks.1.1

/-- No rule is read as nothing, or begins with a blank. -/
theorem isQuiet_of_mem_rules {system : System} {rule : Token.Rule} (h : rule ∈ system.rules) :
    rule.IsQuiet := by
  rcases speaks_of_mem_rules h with rfl | ⟨-, hspeaks⟩
  · refine ⟨by decide, fun c hc => ?_⟩
    simpa using forall_isBlank (fun c => !Token.Rule.separator.pattern.begins c) (by decide) hc
  · have hsolid : rule.pattern.isSolid = true := by
      simp only [Pattern.speaks, Bool.and_eq_true] at hspeaks
      exact hspeaks.1.1.1
    exact ⟨hsolid, fun c hc => Pattern.begins_of_speaks hspeaks (by rw [hc]; rfl)⟩

end System

namespace Token

/-- Runs for expressions lose the separators and nothing else. -/
theorem flatten_rollRuns (tokens : List Token) :
    (rollRuns tokens).flatten = tokens.filter fun t => t.kind != .separator := by
  have flatten_runs (pieces : List (List Token)) :
      (pieces.flatMap rollCutter.runs).flatten = pieces.flatten := by
    induction pieces with
    | nil => rfl
    | cons piece pieces ih =>
      rw [List.flatMap_cons, List.flatten_append, ih, Cutter.join_runs, List.flatten_cons]
  rw [rollRuns, flatten_runs, flatten_splitOnP]
  rfl

/-- Nothing is said where every token is a separator or blank. -/
theorem spokenRuns_eq_nil_iff {tokens : List Token} :
    spokenRuns tokens = [] ↔ ∀ t ∈ tokens, t.kind = .separator ∨ t.isBlankText = true := by
  have mem (t : Token) :
      (∃ run ∈ rollRuns tokens, t ∈ run) ↔ t ∈ tokens ∧ t.kind ≠ .separator := by
    rw [← List.mem_flatten, flatten_rollRuns, List.mem_filter, bne_iff_ne]
  rw [spokenRuns, List.filter_eq_nil_iff]
  constructor
  · intro h t ht
    by_cases hkind : t.kind = .separator
    · exact .inl hkind
    · obtain ⟨run, hrun, htrun⟩ := (mem t).mpr ⟨ht, hkind⟩
      have hblank := h run hrun
      simp only [List.any_eq_true, not_exists, not_and] at hblank
      exact .inr (by simpa using hblank t htrun)
  · intro h run hrun
    simp only [List.any_eq_true, not_exists, not_and]
    intro t htrun
    obtain ⟨ht, hkind⟩ := (mem t).mp ⟨run, hrun, htrun⟩
    simpa using (h t ht).resolve_left hkind

theorem spokenRuns_separated (tokens more : List Token) :
    spokenRuns (tokens ++ mark :: more) = spokenRuns tokens ++ spokenRuns more := by
  rw [spokenRuns, rollRuns, List.splitOnP_append_cons _ _ (by rfl), List.flatMap_append,
    List.filter_append]
  rfl

theorem raw_of_separator {system : System} {text : Text} {t : Token}
    (ht : t ∈ cut system.rules .description text) (hkind : t.kind = .separator) :
    t.raw = [';'] := by
  rcases mem_cut ht with ⟨raw, -, rfl⟩ | ⟨rule, hrule, before, text, s, hs, hused, hk, hraw, -⟩
  · simp [unmatched] at hkind
  · rcases System.speaks_of_mem_rules hrule with rfl | ⟨hne, -⟩
    · cases text with
      | nil =>
        simp [Rule.separator, Pattern.here?, Pattern.separator, Pattern.runs, Spot.ofText] at hs
      | cons c rest =>
        change Pattern.separator.here? before (c :: rest) = some s at hs
        rw [Hit.here?_separator_cons] at hs
        split at hs
        · rename_i hc
          cases hs
          rw [hraw, hc]
          rfl
        · simp at hs
    · exact absurd (hk.symm.trans hkind) hne

/-- No rule finds anything among blanks. -/
theorem leftmost?_hits_of_blank (system : System) {text : Text}
    (blank : ∀ c ∈ text, isBlank c = true) : Hit.leftmost? (hits system.rules text) = none :=
  Hit.leftmost?_of_passesOver fun _ hrule =>
    have hquiet := System.isQuiet_of_mem_rules hrule
    ⟨hquiet.solid, hquiet.passesOver blank []⟩

/-- Blanks are cut into one token or none. -/
theorem cut_of_blank (system : System) {text : Text} (blank : ∀ c ∈ text, isBlank c = true) :
    cut system.rules .description text =
      if text = [] then [] else [.unmatched .description text 0] := by
  by_cases hnil : text = []
  · rw [hnil, cut_nil, if_pos rfl]
  · rw [cut_of_leftmost?_eq_none hnil (leftmost?_hits_of_blank system blank), if_neg hnil]

/-- The tokens of a silent text are separators and blanks. -/
theorem mem_cut_of_isSilent (system : System) {text : Text} (silent : text.isSilent = true) :
    ∀ t ∈ cut system.rules .description text, t.kind = .separator ∨ t.isBlankText = true := by
  induction hn : text.length using Nat.strongRecOn generalizing text with
  | ind n ih =>
    by_cases hsep : ';' ∈ text
    · obtain ⟨a, b, rfl⟩ := List.append_of_mem hsep
      simp only [Text.isSilent, List.all_append, List.all_cons, Bool.and_eq_true] at silent
      simp only [List.length_append, List.length_cons] at hn
      rw [cut_separated (fun _ => System.separates_of_mem_rules) system.separator_mem_rules]
      have ha := ih a.length (by omega) silent.1 rfl
      have hb := ih b.length (by omega) silent.2.2 rfl
      exact List.forall_mem_append.mpr ⟨ha, List.forall_mem_cons.mpr ⟨.inl rfl, hb⟩⟩
    · have blank : ∀ c ∈ text, isBlank c = true := by
        intro c hc
        have hne : c ≠ ';' := fun h => hsep (h ▸ hc)
        simpa [hne] using List.all_eq_true.mp silent c hc
      rw [cut_of_blank system blank]
      split
      · simp
      · refine List.forall_mem_singleton.mpr (.inr ?_)
        simpa [isBlankText, unmatched, Text.trim_eq_nil_iff] using blank

/-- The tokens of a text say something unless it is silent. -/
theorem spokenRuns_cut_eq_nil_iff (system : System) (text : Text) :
    spokenRuns (cut system.rules .description text) = [] ↔ text.isSilent = true := by
  rw [spokenRuns_eq_nil_iff]
  constructor
  · intro h
    rw [Text.isSilent, List.all_eq_true]
    intro c hc
    rw [← raw_cut system.rules .description text] at hc
    obtain ⟨t, ht, hct⟩ := List.mem_flatMap.mp hc
    cases h t ht with
    | inl hkind =>
      rw [raw_of_separator ht hkind, List.mem_singleton] at hct
      simp [hct]
    | inr hblank =>
      simp only [isBlankText, Bool.and_eq_true, List.isEmpty_iff, Text.trim_eq_nil_iff] at hblank
      rw [hblank.2 c hct]
      rfl
  · exact mem_cut_of_isSilent system

end Token

namespace Part

/-- Separators and blanks leave no trace in a part. -/
theorem ofTokens_of_silent (system : System) {tokens : List Token}
    (silent : ∀ t ∈ tokens, t.kind = .separator ∨ t.isBlankText = true) :
    ofTokens system tokens = empty := by
  have drafted (loose : Text) (hloose : ∀ c ∈ loose, isBlank c = true) :
      ∃ loose', tokens.foldl (Draft.add system) ⟨empty, loose⟩ = ⟨empty, loose'⟩ ∧
        ∀ c ∈ loose', isBlank c = true := by
    induction tokens generalizing loose with
    | nil => exact ⟨loose, rfl, hloose⟩
    | cons t rest ih =>
      obtain ⟨ht, hrest⟩ := List.forall_mem_cons.mp silent
      rw [List.foldl_cons]
      cases ht with
      | inl hkind =>
        rw [show Draft.add system ⟨empty, loose⟩ t = ⟨empty, loose⟩ by simp [Draft.add, hkind]]
        exact ih hrest loose hloose
      | inr hblank =>
        simp only [Token.isBlankText, Bool.and_eq_true, beq_iff_eq, List.isEmpty_iff,
          Text.trim_eq_nil_iff] at hblank
        have hadd : Draft.add system ⟨empty, loose⟩ t = ⟨empty, loose ++ t.raw⟩ := by
          cases system <;> simp [Draft.add, hblank.1, System.absorb?]
        rw [hadd]
        exact ih hrest _ (List.forall_mem_append.mpr ⟨hloose, hblank.2⟩)
  obtain ⟨loose, hfold, hblank⟩ := drafted [] (by simp)
  exact ofTokens_of_foldl hfold rfl hblank

end Part

theorem Dice.ofTokens_of_silent (system : System) {tokens : List Token}
    (silent : ∀ t ∈ tokens, t.kind = .separator ∨ t.isBlankText = true) :
    ofTokens system tokens = ⟨[Part.empty]⟩ := by
  have fits : ∀ m, ∀ t ∈ tokens, Token.partCutter.breaks m t = false := by
    intro m t ht
    cases silent t ht with
    | inl hkind => simp [Token.partCutter, hkind]
    | inr hblank =>
      simp only [Token.isBlankText, Bool.and_eq_true, beq_iff_eq] at hblank
      simp [Token.partCutter, hblank.1]
  by_cases hnil : tokens = []
  · rw [hnil]
    rfl
  · rw [ofTokens, Token.partRuns,
      Token.Cutter.runs_of_fits hnil (Token.Cutter.fits_of_forall fits _), List.map_singleton,
      Part.ofTokens_of_silent system silent]
    rfl

/-- A semicolon joins two commands: the expressions of the first are followed by those of the
second, and a command that says nothing is passed over. -/
theorem dice_parse_joined (settings : Settings) (a b : Text) :
    let read text := ((Engine.ofSettings settings).parse text).dice
    read (a ++ ';' :: b) =
      match a.isSilent, b.isSilent with
      | false, false => read a ++ read b
      | false, true => read a
      | true, false => read b
      | true, true => [⟨[Part.empty]⟩] := by
  simp only [Engine.dice_parse]
  generalize System.ofSettings settings = system
  have separated := Token.cut_separated (fun _ => System.separates_of_mem_rules)
    system.separator_mem_rules .description a b
  have spoken : Token.spokenRuns (Token.cut system.rules .description (a ++ ';' :: b)) =
      Token.spokenRuns (Token.cut system.rules .description a) ++
        Token.spokenRuns (Token.cut system.rules .description b) := by
    rw [separated, Token.spokenRuns_separated]
  have ha := Token.spokenRuns_cut_eq_nil_iff system a
  have hb := Token.spokenRuns_cut_eq_nil_iff system b
  simp only [Group.diceOfTokens_eq, spoken, List.append_eq_nil_iff, ha, hb]
  cases hsa : a.isSilent <;> cases hsb : b.isSilent <;>
    simp only [hsa, hsb, Bool.false_eq_true, and_self, and_true, and_false, iff_true,
      ↓reduceIte, List.map_append] at ha hb ⊢
  · rw [hb, List.map_nil, List.append_nil]
  · rw [ha, List.map_nil, List.nil_append]
  · rw [Dice.ofTokens_of_silent]
    refine Token.mem_cut_of_isSilent system ?_
    simp only [Text.isSilent, List.all_append, List.all_cons] at hsa hsb ⊢
    simp [hsa, hsb]

end Tabletop
