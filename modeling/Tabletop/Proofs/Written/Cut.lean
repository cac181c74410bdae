import Tabletop.Proofs.Group.Joined
import Tabletop.Proofs.Token.Behind
import Tabletop.Proofs.Written.Marks

/-!
# Cutting written words

A written word with blanks before it is cut into the blanks and the token meant for it, whatever
stands behind it, as long as the word ends there. So a text of many words can be cut one word at a
time.
-/

namespace Tabletop

open Token

namespace Written

/-- Wherever the word ends, it is cut into the tokens. -/
def Reads (system : System) (word : Text) (tokens : List Token) : Prop :=
  ∀ rest, Stops rest →
    cut system.rules .description (word ++ rest) = tokens ++ cut system.rules .description rest

theorem Stops.append {word rest : Text} (h : Stops word) (h' : Stops rest) :
    Stops (word ++ rest) := by
  cases word with
  | nil => exact h'
  | cons c word => exact h

section

variable {system : System}

theorem Reads.nil : Reads system [] [] := fun _ _ => rfl

/-- Of two words behind each other, each is cut into its own tokens. -/
theorem Reads.append {word word' : Text} {tokens tokens' : List Token}
    (h : Reads system word tokens) (h' : Reads system word' tokens') (stops : Stops word') :
    Reads system (word ++ word') (tokens ++ tokens') := by
  intro rest hrest
  rw [List.append_assoc, h _ (stops.append hrest), h' rest hrest, List.append_assoc]

theorem Stops.flatMap {α : Type} {items : List α} {text : α → Text}
    (stops : ∀ a ∈ items, Stops (text a)) : Stops (items.flatMap text) := by
  induction items with
  | nil => exact stops_nil
  | cons a rest ih =>
    obtain ⟨ha, hrest⟩ := List.forall_mem_cons.mp stops
    rw [List.flatMap_cons]
    exact ha.append (ih hrest)

/-- Of words behind each other, each is cut into its own tokens. -/
theorem Reads.flatMap {α : Type} {items : List α} {text : α → Text} {tokens : α → List Token}
    (reads : ∀ a ∈ items, Reads system (text a) (tokens a)) (stops : ∀ a ∈ items, Stops (text a)) :
    Reads system (items.flatMap text) (items.flatMap tokens) := by
  induction items with
  | nil => exact .nil
  | cons a rest ih =>
    obtain ⟨ha, hrest⟩ := List.forall_mem_cons.mp reads
    obtain ⟨-, hstops⟩ := List.forall_mem_cons.mp stops
    rw [List.flatMap_cons, List.flatMap_cons]
    exact ha.append (ih hrest hstops) (.flatMap hstops)

theorem Reads.cut_eq {word : Text} {tokens : List Token} (h : Reads system word tokens) :
    cut system.rules .description word = tokens := by
  simpa using h [] stops_nil

/-- No rule can be read in the skipped text where the word stands behind it. -/
def Skips (system : System) (skipped word : Text) : Prop :=
  ∀ rule ∈ system.rules, ∀ rest, Stops rest → rule.PassesOver skipped (word ++ rest)

theorem Gap.skips (gap : Gap) (word : Text) : Skips system gap.text word :=
  fun _ hrule _ _ => (System.isQuiet_of_mem_rules hrule).passesOver gap.blank _

def skippedTokens (s : Text) : List Token := if s = [] then [] else [.unmatched .description s 0]

theorem eq_of_mem_skippedTokens {s : Text} {t : Token} (h : t ∈ skippedTokens s) :
    t = .unmatched .description s 0 := by
  rw [skippedTokens] at h
  split at h
  · simp at h
  · exact List.mem_singleton.mp h

theorem kind_of_mem_skippedTokens {s : Text} {t : Token} (h : t ∈ skippedTokens s) :
    t.kind = .description := by
  rw [eq_of_mem_skippedTokens h]
  rfl

/-- What the rule of a word takes is cut off, with the text before it that is skipped. -/
theorem Reads.of_takes {skipped word : Text} (passed : Skips system skipped word)
    (nonempty : word ≠ []) {said : List (Nat × Text)} {ahead more : List Rule} {rule : Rule}
    (rules : system.rules = ahead ++ rule :: more)
    (fails : ∀ r ∈ ahead, ∀ rest, Stops rest → r.pattern.Fails skipped.getLast? (word ++ rest))
    (takes : ∀ rest, Stops rest → rule.pattern.Takes skipped.getLast? word rest said) :
    Reads system (skipped ++ word)
      (skippedTokens skipped ++ [⟨rule.kind, word, 0, rule.groupTexts said⟩]) := by
  intro rest hrest
  rw [rules, List.append_assoc,
    cut_word nonempty (fun r hr => passed r (rules ▸ hr) rest hrest)
      (fun r hr => fails r hr rest hrest) (takes rest hrest),
    List.append_assoc]
  rfl

theorem Gap.outside (gap : Gap) : gap.text.getLast?.any isWordChar = false := by
  cases h : gap.text.getLast? with
  | none => rfl
  | some c =>
    have hblank := gap.blank c (List.mem_of_getLast? h)
    simpa using forall_isBlank (fun c => !isWordChar c) (by decide +kernel) hblank

def beginsTerm (c : Char) : Bool := c.isDigit || ['d', 'D', '+', '-', '*'].contains c

/-- The rules before the one for dice are those for marks and for separators. -/
theorem forall_ownRules (holds : Rule → Bool) (h : [.crit, .hunger, .separator].all holds = true)
    {rule : Rule} (hrule : rule ∈ system.ownRules ++ [.separator]) : holds rule = true := by
  refine List.all_eq_true.mp h rule ?_
  cases system
  all_goals
    simp only [System.ownRules, List.cons_append, List.nil_append, List.mem_cons,
      List.not_mem_nil, or_false] at hrule ⊢
    grind

/-- The rules before the one for dice cannot be read where a term begins. -/
theorem fails_of_own {rule : Rule} (h : rule ∈ system.ownRules ++ [.separator])
    {before : Option Char} {text : Text} (head : ∀ c ∈ text.head?, beginsTerm c = true) :
    rule.pattern.Fails before text := by
  have hsolid := forall_ownRules (fun r => r.pattern.isSolid) (by decide) h
  have hdigit := forall_ownRules
    (fun r => (List.range' 0x30 10).all fun n => !r.pattern.begins (Char.ofNat n)) (by decide) h
  have hletter := forall_ownRules
    (fun r => ['d', 'D', '+', '-', '*'].all fun c => !r.pattern.begins c) (by decide) h
  refine Pattern.fails_of_begins hsolid fun c hc => ?_
  cases Bool.or_eq_true_iff.mp (head c hc) with
  | inl hc => simpa using forall_digit (fun c => !rule.pattern.begins c) hdigit hc
  | inr hc => simpa using List.all_eq_true.mp hletter c (List.contains_iff_mem.mp hc)

theorem beginsTerm_of_lead (l : Lead) (more : Text) :
    ∀ c ∈ (l.text ++ more).head?, beginsTerm c = true := by
  intro c hc
  obtain rfl : l.sign.symbol = c := by simpa [Lead.text] using hc
  cases l.sign <;> decide

theorem beginsTerm_of_die (lead : Option Lead) (w : DieWord) (more : Text) :
    ∀ c ∈ ((lead.map Lead.text).getD [] ++ w.text ++ more).head?, beginsTerm c = true := by
  cases lead with
  | none => exact w.forall_head beginsTerm (by decide) (by decide) more
  | some l =>
    rw [Option.map_some, Option.getD_some, List.append_assoc]
    exact beginsTerm_of_lead l _

theorem rules_eq_dice (system : System) :
    system.rules = (system.ownRules ++ [.separator]) ++ .dice :: [.modifier, .test] := by
  simp [System.rules, Rule.ahead, Rule.shared]

/-- What the die of a word captures is what the token for it holds. -/
theorem groupTexts_dice (lead : Option Lead) (w : DieWord) :
    Rule.dice.groupTexts ((w.rule.map RuleWord.said).getD [] ++ (3, w.sides.text) ::
        ((w.count.map fun n => (2, n.text)).toList ++
          (lead.map fun l => (1, [l.sign.symbol])).toList)) = (w.token lead).captures := by
  rw [Rule.groupTexts_of_nonempty]
  · obtain ⟨count, large, sides, rule⟩ := w
    cases count <;> cases lead <;> rcases rule with _ | ⟨choice, large, _ | ending, number⟩ <;> rfl
  · intro s hs
    simp only [List.mem_append, List.mem_cons, Option.mem_toList, Option.map_eq_some_iff] at hs
    rcases hs with hs | rfl | ⟨n, -, rfl⟩ | ⟨l, -, rfl⟩
    · cases hrule : w.rule with
      | none => simp [hrule] at hs
      | some r =>
        simp only [hrule, Option.map_some, Option.getD_some, RuleWord.said, List.mem_cons,
          List.mem_append, Option.mem_toList, Option.map_eq_some_iff, List.not_mem_nil,
          or_false] at hs
        rcases hs with rfl | ⟨e, he, rfl⟩ | rfl
        · exact r.number.nonempty
        · obtain ⟨ending, -, rfl⟩ := Option.map_eq_some_iff.mp he
          simp
        · simp [RuleWord.letter]
    · exact w.sides.nonempty
    · exact n.nonempty
    · simp

/-- Dice are cut off together with skipped text before them. -/
theorem reads_die_behind {skipped : Text} (lead : Option Lead) (w : DieWord)
    (skips : Skips system skipped ((lead.map Lead.text).getD [] ++ w.text)) :
    Reads system (skipped ++ ((lead.map Lead.text).getD [] ++ w.text))
      (skippedTokens skipped ++ [w.token lead]) := by
  have nonempty : (lead.map Lead.text).getD [] ++ w.text ≠ [] := by
    obtain ⟨c, t, hword, -⟩ := w.exists_cons
    simp [hword]
  have hreads := Reads.of_takes skips nonempty (rules_eq_dice system)
    (fun r hr rest _ => fails_of_own hr (beginsTerm_of_die lead w rest))
    fun rest hrest => takes_dice lead w hrest
  rw [groupTexts_dice] at hreads
  exact hreads

/-- Dice are cut into their token and one for the blanks before them. -/
theorem reads_die (gap : Gap) (lead : Option Lead) (w : DieWord) :
    Reads system (gap.text ++ ((lead.map Lead.text).getD [] ++ w.text))
      (gap.tokens ++ [w.token lead]) :=
  reads_die_behind lead w (gap.skips _)

/-- A flat term is cut off together with skipped text before it. -/
theorem reads_flat_behind {skipped : Text} (lead : Lead) (n : Numeral)
    (skips : Skips system skipped (lead.text ++ n.text)) :
    Reads system (skipped ++ (lead.text ++ n.text))
      (skippedTokens skipped ++ [flatToken lead n]) := by
  have rules : system.rules =
      (system.ownRules ++ [.separator] ++ [.dice]) ++ .modifier :: [.test] := by
    simp [System.rules, Rule.ahead, Rule.shared]
  have nonempty : lead.text ++ n.text ≠ [] := by simp [n.nonempty]
  have fails : ∀ r ∈ system.ownRules ++ [.separator] ++ [.dice], ∀ rest, Stops rest →
      r.pattern.Fails skipped.getLast? (lead.text ++ n.text ++ rest) := by
    intro r hr rest hrest
    rw [List.append_assoc]
    cases List.mem_append.mp hr with
    | inl hr => exact fails_of_own hr (beginsTerm_of_lead lead _)
    | inr hr =>
      rw [List.mem_singleton.mp hr]
      exact dice_fails lead n hrest
  have htexts : Rule.modifier.groupTexts [(2, n.text), (1, [lead.sign.symbol])] =
      (flatToken lead n).captures := by
    rw [Rule.groupTexts_of_nonempty (by simp [n.nonempty])]
    rfl
  have hreads := Reads.of_takes skips nonempty rules fails fun rest hrest =>
    takes_modifier lead n hrest
  rw [htexts] at hreads
  exact hreads

/-- A flat term is cut into its token and one for the blanks before it. -/
theorem reads_flat (gap : Gap) (lead : Lead) (n : Numeral) :
    Reads system (gap.text ++ (lead.text ++ n.text)) (gap.tokens ++ [flatToken lead n]) :=
  reads_flat_behind lead n (gap.skips _)

/-- No rule can be read in a number without a sign. -/
theorem passesOver_digits {rule : Rule} (h : rule ∈ system.rules) {digits rest : Text}
    (hdigits : ∀ c ∈ digits, c.isDigit = true) (stops : Stops rest) :
    rule.PassesOver digits rest := by
  induction digits with
  | nil => trivial
  | cons c digits ih =>
    refine ⟨fun before => ?_, ih (List.forall_mem_cons.mp hdigits).2⟩
    have hc := hdigits c List.mem_cons_self
    have unread {p : Pattern} (solid : p.isSolid = true)
        (digit : ((List.range' 0x30 10).all fun n => !p.begins (Char.ofNat n)) = true) :
        p.Fails before (c :: (digits ++ rest)) :=
      Pattern.fails_of_begins solid fun d hd => by
        obtain rfl : c = d := by simpa using hd
        simpa using forall_digit (fun d => !p.begins d) digit hc
    have hfails : rule.pattern.Fails before (c :: (digits ++ rest)) := by
      rw [rules_eq_dice, List.mem_append, List.mem_cons, List.mem_pair] at h
      obtain own | rfl | rfl | rfl := h
      · refine fails_of_own own fun d hd => ?_
        obtain rfl : c = d := by simpa using hd
        rw [beginsTerm, hc]
        rfl
      · exact dice_fails_of_digits hdigits stops
      · exact unread (by decide) (by decide)
      · exact unread (by decide) (by decide)
    exact hfails.here?

/-- A number without a sign is skipped, with the blanks before it. -/
theorem passesOver_numeral {rule : Rule} (h : rule ∈ system.rules) (gap : Gap) (n : Numeral)
    {rest : Text} (stops : Stops rest) : rule.PassesOver (gap.text ++ n.text) rest :=
  ((System.isQuiet_of_mem_rules h).passesOver gap.blank _).append
    (passesOver_digits h n.digits stops)

theorem cut_numeral (gap : Gap) (n : Numeral) :
    cut system.rules .description (gap.text ++ n.text) =
      skippedTokens (gap.text ++ n.text) := by
  have nonempty : gap.text ++ n.text ≠ [] := by simp [n.nonempty]
  rw [skippedTokens, if_neg nonempty]
  exact cut_of_leftmost?_eq_none nonempty (Hit.leftmost?_of_passesOver fun rule hrule =>
    ⟨(System.isQuiet_of_mem_rules hrule).solid, passesOver_numeral hrule gap n stops_nil⟩)

/-- A number without a sign is skipped before a term with one. -/
theorem skips_numeral (gap : Gap) (n : Numeral) (lead : Lead) (word : Text) :
    Skips system (gap.text ++ n.text) (lead.text ++ word) := by
  intro rule hrule rest _
  refine passesOver_numeral hrule gap n ?_
  rw [Lead.text, List.cons_append, List.cons_append]
  exact stops_cons (endsWord_symbol lead.sign) _

theorem groupTexts_mark {rule : Rule} (groups : rule.pattern.groups = 1) (n : Numeral) :
    rule.groupTexts [(1, n.text)] = [some n.text] := by
  rw [Rule.groupTexts_of_nonempty (by simp [n.nonempty]), groups]
  rfl

/-- The mark for hunger dice is cut into its token where the system has such dice. -/
theorem reads_hunger (gap : Gap) (n : Numeral) :
    Reads .vampire (gap.text ++ (['h'] ++ n.text)) (gap.tokens ++ [markToken .hunger ['h'] n]) := by
  have rules : System.vampire.rules = [] ++ .hunger :: Rule.shared := rfl
  have hreads := Reads.of_takes (gap.skips _) (by simp) rules (by simp) fun rest hrest =>
    takes_hunger n gap.outside hrest
  rw [groupTexts_mark (by decide)] at hreads
  exact hreads

/-- The mark for critical hits is cut into its token where the system has such hits. -/
theorem reads_crit (threshold : Nat) (infers : Bool) (gap : Gap) (n : Numeral) :
    Reads (.pathfinder threshold infers) (gap.text ++ ("crit".toList ++ n.text))
      (gap.tokens ++ [markToken .crit "crit".toList n]) := by
  have rules : (System.pathfinder threshold infers).rules = [] ++ .crit :: Rule.shared := rfl
  have hreads := Reads.of_takes (gap.skips _) (by simp) rules (by simp) fun rest hrest =>
    takes_crit n gap.outside hrest
  rw [groupTexts_mark (by decide)] at hreads
  exact hreads

/-- The first character of a spelling. -/
theorem spelling_eq_cons (target : Target) (op : CompareOp) : ∃ c tail,
    spelling target op = c :: tail ∧ c ∈ ['v', 'A', 'K', 'E', 'D', '<', '>', '=', '!'] := by
  cases target with
  | operator => cases op <;> exact ⟨_, _, rfl, by decide⟩
  | _ => exact ⟨_, _, rfl, by decide⟩

/-- Although a test may begin with the letter of a die, it is no die. -/
theorem dice_fails_of_test (target : Target) (op : CompareOp) {before : Option Char}
    (more : Text) : Pattern.dice.Fails before (spelling target op ++ more) := by
  cases target with
  | dc =>
    intro s _ hs
    obtain ⟨before, text, used, captures⟩ := s
    subst hs
    rfl
  | operator =>
    refine Pattern.fails_of_begins (by decide) fun c hc => ?_
    cases op <;> (rw [← Option.some.inj hc]; decide)
  | _ =>
    refine Pattern.fails_of_begins (by decide) fun c hc => ?_
    rw [← Option.some.inj hc]
    decide

/-- The rules before the one for tests cannot be read where a test begins. -/
theorem fails_of_test {rule : Rule}
    (h : rule ∈ system.ownRules ++ [.separator] ++ [.dice, .modifier]) (target : Target)
    (op : CompareOp) {before : Option Char} (more : Text) :
    rule.pattern.Fails before (spelling target op ++ more) := by
  have fails {p : Pattern} (solid : p.isSolid = true)
      (head : (['v', 'A', 'K', 'E', 'D', '<', '>', '=', '!'].all fun c => !p.begins c) = true) :
      p.Fails before (spelling target op ++ more) := by
    obtain ⟨c, tail, hspelling, hc⟩ := spelling_eq_cons target op
    refine Pattern.fails_of_begins solid fun c' hc' => ?_
    obtain rfl : c = c' := by simpa [hspelling] using hc'
    simpa using List.all_eq_true.mp head c hc
  rw [List.mem_append, List.mem_pair] at h
  obtain own | rfl | rfl := h
  · exact fails (forall_ownRules (fun r => r.pattern.isSolid) (by decide) own)
      (forall_ownRules (fun r => ['v', 'A', 'K', 'E', 'D', '<', '>', '=', '!'].all
        fun c => !r.pattern.begins c) (by decide) own)
  · exact dice_fails_of_test target op more
  · exact fails (by decide) (by decide)

/-- A test is cut into its token and one for the blanks before it. -/
theorem reads_test (gap : Gap) (target : Target) (op : CompareOp) (n : Numeral) :
    Reads system (gap.text ++ (spelling target op ++ ((spacing target).text ++ n.text)))
      (gap.tokens ++ [testToken target op n]) := by
  have rules : system.rules =
      (system.ownRules ++ [.separator] ++ [.dice, .modifier]) ++ .test :: [] := by
    simp [System.rules, Rule.ahead, Rule.shared]
  obtain ⟨c, tail, hspelling, -⟩ := spelling_eq_cons target op
  have htexts : Rule.test.groupTexts [(2, n.text), (1, spelling target op)] =
      (testToken target op n).captures := by
    rw [Rule.groupTexts_of_nonempty (by simp [n.nonempty, hspelling])]
    rfl
  have hreads := Reads.of_takes (gap.skips _) (by simp [hspelling]) rules
    (fun r hr rest _ => by rw [List.append_assoc]; exact fails_of_test hr target op _)
    fun rest hrest => takes_test target op n gap.outside hrest
  rw [htexts] at hreads
  exact hreads

end

end Written

end Tabletop
