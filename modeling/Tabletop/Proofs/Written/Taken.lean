import Tabletop.Proofs.Pattern.Takes
import Tabletop.Proofs.Written.Words
import Tabletop.Token.Rule

/-!
# What the patterns take

The patterns of the dice notation take exactly the words that are meant for them, where a blank,
a sign or the end of the text comes next. What a pattern captures is listed latest first, as
numbers of groups with the characters captured.
-/

namespace Tabletop

namespace Written

/-- A character before which a word ends: a blank or a sign. -/
def endsWord (c : Char) : Bool := isBlank c || ['+', '-', '*'].contains c

def Stops (rest : Text) : Prop := ∀ c ∈ rest.head?, endsWord c = true

/-- What holds of each blank and of each sign holds of all characters that end a word. -/
theorem forall_endsWord (holds : Char → Bool)
    (blank : (blankRanges.members.all fun n => holds (Char.ofNat n)) = true)
    (sign : ['+', '-', '*'].all holds = true) {c : Char} (hc : endsWord c = true) :
    holds c = true := by
  cases Bool.or_eq_true_iff.mp hc with
  | inl hc => exact forall_isBlank holds blank hc
  | inr hc => exact List.all_eq_true.mp sign c (List.contains_iff_mem.mp hc)

theorem isDigit_of_endsWord {c : Char} (hc : endsWord c = true) : isDigit c = false := by
  simpa using forall_endsWord (fun c => !isDigit c) (by decide) (by decide) hc

theorem isWordChar_of_endsWord {c : Char} (hc : endsWord c = true) : isWordChar c = false := by
  simpa using forall_endsWord (fun c => !isWordChar c) (by decide +kernel) (by decide) hc

theorem isWordChar_of_digit {c : Char} (hc : c.isDigit = true) : isWordChar c = true :=
  forall_digit isWordChar (by decide) hc

theorem stops_nil : Stops [] := by simp [Stops]

theorem stops_cons {c : Char} (hc : endsWord c = true) (rest : Text) : Stops (c :: rest) := by
  simpa [Stops] using hc

theorem endsWord_symbol (sign : Sign) : endsWord sign.symbol = true := by cases sign <;> decide

section

open Pattern

variable {before : Option Char} {rest : Text}

/-- A pattern fails where a word ends, if it begins with no blank and no sign. -/
theorem fails_of_stops {p : Pattern} (solid : p.isSolid = true)
    (blank : (blankRanges.members.all fun n => !p.begins (Char.ofNat n)) = true)
    (sign : (['+', '-', '*'].all fun c => !p.begins c) = true) (stops : Stops rest) :
    p.Fails before rest :=
  fails_of_begins solid fun c hc => by
    simpa using forall_endsWord (fun c => !p.begins c) blank sign (stops c hc)

/-- A pattern fails before a number, if it begins with no digit. -/
theorem fails_of_numeral {p : Pattern} (solid : p.isSolid = true)
    (digit : ((List.range' 0x30 10).all fun n => !p.begins (Char.ofNat n)) = true) (n : Numeral)
    (more : Text) : p.Fails before (n.text ++ more) :=
  fails_of_begins solid fun c hc => by
    simpa using n.forall_head (fun c => !p.begins c) digit more c hc

/-- A pattern fails before a die, if it begins with no digit and not with the letter. -/
theorem fails_of_die {p : Pattern} (solid : p.isSolid = true)
    (digit : ((List.range' 0x30 10).all fun n => !p.begins (Char.ofNat n)) = true)
    (letter : (!p.begins 'd') = true ∧ (!p.begins 'D') = true) (w : DieWord) (more : Text) :
    p.Fails before (w.text ++ more) :=
  fails_of_begins solid fun c hc => by
    simpa using w.forall_head (fun c => !p.begins c) digit letter more c hc

theorem takes_digits (n : Numeral) (stop : ∀ c ∈ rest.head?, isDigit c = false) :
    digits.Takes before n.text rest [] :=
  takes_many (fun c hc => isDigit_of_ascii (n.digits c hc)) n.length_pos stop

theorem takes_digits_of_stops (n : Numeral) (stops : Stops rest) :
    digits.Takes before n.text rest [] :=
  takes_digits n fun c hc => isDigit_of_endsWord (stops c hc)

theorem takes_blanks (g : Gap) (stop : ∀ c ∈ rest.head?, isBlank c = false) :
    blanks.Takes before g.text rest [] :=
  takes_many g.blank (Nat.zero_le _) stop

theorem takes_blanks_of_numeral (g : Gap) (n : Numeral) :
    blanks.Takes before g.text (n.text ++ rest) [] :=
  takes_blanks g fun c hc => by
    simpa using n.forall_head (fun c => !isBlank c) (by decide) rest c hc

theorem takes_sign (sign : Sign) : Pattern.sign.Takes before [sign.symbol] rest [] :=
  takes_one (by cases sign <;> decide)

/-- The optional sign before a die is taken if it is there. -/
theorem takes_optional_lead (lead : Option Lead) (w : DieWord) :
    (maybe (seq (group 1 sign) blanks)).Takes before ((lead.map Lead.text).getD [])
      (w.text ++ rest) (lead.map fun l => (1, [l.sign.symbol])).toList := by
  cases lead with
  | none => exact (fails_of_die (by decide) (by decide) (by decide) w rest).maybe
  | some l =>
    have hblanks : blanks.Takes (some l.sign.symbol) l.gap.text (w.text ++ rest) [] :=
      takes_blanks l.gap fun c hc => by
        simpa using w.forall_head (fun c => !isBlank c) (by decide) (by decide) rest c hc
    exact (((takes_sign l.sign).group 1).seq hblanks).maybe

theorem takes_count (w : DieWord) :
    (maybe (group 2 digits)).Takes before w.countText (cased 'd' w.large :: rest)
      (w.count.map fun n => (2, n.text)).toList := by
  have hletter : isDigit (cased 'd' w.large) = false := by cases w.large <;> decide
  rw [DieWord.countText]
  cases w.count with
  | none => exact (fails_of_begins (by decide) fun c hc => by
      simpa [begins, digits, CharSet.has, ← Option.some.inj hc] using hletter).maybe
  | some n => exact ((takes_digits n (by simpa using hletter)).group 2).maybe

/-- The pattern of an end takes the letter that names it, and nothing where none does. -/
theorem takes_ending (r : RuleWord) :
    (maybe (group 5 (one (.anyCase ['h', 'l'])))).Takes before (r.endingText.getD [])
      (r.number.text ++ rest) (r.endingText.map fun e => (5, e)).toList := by
  rw [RuleWord.endingText]
  cases r.ending with
  | none => exact (fails_of_numeral (by decide) (by decide) r.number rest).maybe
  | some e =>
    have hletter : (CharSet.anyCase ['h', 'l']).has (cased e.1.letter e.2) = true := by
      rcases e with ⟨_ | _, _ | _⟩ <;> decide
    exact ((takes_one hletter).group 5).maybe

def RuleWord.said (r : RuleWord) : List (Nat × Text) :=
  (6, r.number.text) :: ((r.endingText.map fun e => (5, e)).toList ++ [(4, r.letter)])

/-- The pattern of a rule for dropping or keeping takes the written rule, and nothing where there is
none. -/
theorem takes_rule (w : DieWord) (stops : Stops rest) :
    (maybe (seq (group 4 (one (.anyCase ['k', 'd'])))
      (seq (maybe (group 5 (one (.anyCase ['h', 'l'])))) (group 6 digits)))).Takes before
        w.ruleText rest ((w.rule.map RuleWord.said).getD []) := by
  rw [DieWord.ruleText]
  cases w.rule with
  | none => exact (fails_of_stops (by decide) (by decide) (by decide) stops).maybe
  | some r =>
    have hletter : (CharSet.anyCase ['k', 'd']).has (cased r.choice.letter r.large) = true := by
      cases r.choice <;> cases r.large <;> decide
    have htakes : (seq (group 4 (one (.anyCase ['k', 'd'])))
        (seq (maybe (group 5 (one (.anyCase ['h', 'l'])))) (group 6 digits))).Takes before
          r.text rest _ :=
      ((takes_one hletter).group 4).seq
        ((takes_ending r).seq ((takes_digits_of_stops r.number stops).group 6))
    simpa [RuleWord.said, RuleWord.letter] using htakes.maybe

/-- The pattern for dice takes a die with the sign before it. -/
theorem takes_dice (lead : Option Lead) (w : DieWord) (stops : Stops rest) :
    dice.Takes before ((lead.map Lead.text).getD [] ++ w.text) rest
      ((w.rule.map RuleWord.said).getD [] ++ (3, w.sides.text) ::
        ((w.count.map fun n => (2, n.text)).toList ++
          (lead.map fun l => (1, [l.sign.symbol])).toList)) := by
  have hletter : (CharSet.anyCase ['d']).has (cased 'd' w.large) = true := by
    cases w.large <;> decide
  have hsides : ∀ c ∈ (w.ruleText ++ rest).head?, isDigit c = false := by
    intro c hc
    cases hrule : w.rule with
    | none => exact isDigit_of_endsWord (stops c (by simpa [DieWord.ruleText, hrule] using hc))
    | some r =>
      obtain rfl : cased r.choice.letter r.large = c := by
        simpa [DieWord.ruleText, hrule, RuleWord.text, RuleWord.letter] using hc
      cases r.choice <;> cases r.large <;> decide
  have htakes : dice.Takes before
      ((lead.map Lead.text).getD [] ++ (w.countText ++ ([cased 'd' w.large] ++
        (w.sides.text ++ w.ruleText)))) rest _ :=
    (takes_optional_lead lead w).seq ((takes_count w).seq ((takes_one hletter).seq
      (((takes_digits w.sides hsides).group 3).seq (takes_rule w stops))))
  simpa [DieWord.text] using htakes

/-- The pattern for modifiers takes a flat term. -/
theorem takes_modifier (lead : Lead) (n : Numeral) (stops : Stops rest) :
    modifier.Takes before (lead.text ++ n.text) rest [(2, n.text), (1, [lead.sign.symbol])] := by
  have htakes : modifier.Takes before
      ([lead.sign.symbol] ++ (lead.gap.text ++ n.text)) rest _ :=
    ((takes_sign lead.sign).group 1).seq ((takes_blanks_of_numeral lead.gap n).seq
      ((takes_digits_of_stops n stops).group 2))
  simpa [Lead.text] using htakes

/-- A repetition uses members of its set only. -/
theorem members_of_mem_many {set : CharSet} {least : Nat} {s t : Spot}
    (ht : t ∈ (many set least).runs s) :
    ∃ word, s.rest = word ++ t.rest ∧ ∀ c ∈ word, set.has c = true :=
  ((CharSet.mem_sweep rfl ht).resolve_left (by simp)).2.2

/-- Among blanks and digits up to the end of a word there is no place where a die begins. -/
def Barren (rest text : Text) : Prop :=
  ∃ word, text = word ++ rest ∧ ∀ c ∈ word, isBlank c = true ∨ c.isDigit = true

theorem Barren.fails_letter {text : Text} (h : Barren rest text) (stops : Stops rest) :
    (one (.anyCase ['d'])).Fails before text := by
  obtain ⟨word, rfl, hword⟩ := h
  cases word with
  | nil => exact fails_of_stops (by decide) (by decide) (by decide) stops
  | cons c word =>
    refine fails_of_begins (by decide) fun c' hc' => ?_
    obtain rfl : c = c' := by simpa using hc'
    cases hword c List.mem_cons_self with
    | inl hc =>
      simpa using forall_isBlank (fun c => !(one (.anyCase ['d'])).begins c) (by decide) hc
    | inr hc =>
      simpa using forall_digit (fun c => !(one (.anyCase ['d'])).begins c) (by decide) hc

/-- No digit is read beyond the end of the word. -/
theorem Barren.of_digits {s t : Spot} (h : Barren rest s.rest) (stops : Stops rest)
    (ht : t ∈ (maybe (group 2 digits)).runs s) : Barren rest t.rest := by
  cases List.mem_append.mp ht with
  | inl ht =>
    obtain ⟨u, hu, rfl⟩ := List.mem_map.mp ht
    obtain ⟨read, hread, hdigits⟩ := members_of_mem_many hu
    obtain ⟨word, htext, hword⟩ := h
    rw [htext] at hread
    rcases List.append_eq_append_iff.mp hread with ⟨more, rfl, hrest⟩ | ⟨more, rfl, hrest⟩
    · cases more with
      | nil => exact ⟨[], hrest.symm, by simp⟩
      | cons c more =>
        have hdigit : isDigit c = true := hdigits c (by simp)
        rw [isDigit_of_endsWord (stops c (by rw [hrest]; rfl))] at hdigit
        exact absurd hdigit (by decide)
    · exact ⟨more, hrest, fun c hc => hword c (List.mem_append_right read hc)⟩
  | inr ht =>
    rw [List.mem_singleton.mp ht]
    exact h

/-- No blank is read beyond a number. -/
theorem Barren.of_blanks {gap : Gap} {n : Numeral} {s t : Spot}
    (hs : s.rest = gap.text ++ (n.text ++ rest)) (ht : t ∈ blanks.runs s) :
    Barren rest t.rest := by
  obtain ⟨read, hread, hblank⟩ := members_of_mem_many ht
  rw [hs, ← List.append_assoc] at hread
  rcases List.append_eq_append_iff.mp hread with ⟨more, rfl, -⟩ | ⟨more, hword, hrest⟩
  · obtain ⟨c, text, htext, hc⟩ := n.exists_cons
    have hb : isBlank c = true := hblank c (by simp [htext])
    rw [isBlank_of_digit hc] at hb
    exact absurd hb (by decide)
  · refine ⟨more, hrest, fun c hc => ?_⟩
    have hmem : c ∈ gap.text ++ n.text := hword ▸ List.mem_append_right read hc
    exact (List.mem_append.mp hmem).imp (gap.blank c) (n.digits c)

/-- The pattern for dice cannot be read where no letter for a die stands behind the sign and the
count. -/
theorem dice_fails_of_letter {text : Text}
    (h : ∀ s u v : Spot, s.rest = text → u ∈ (maybe (seq (group 1 sign) blanks)).runs s →
      v ∈ (maybe (group 2 digits)).runs u → (one (.anyCase ['d'])).Fails v.before v.rest) :
    dice.Fails before text := by
  intro s _ hs
  rw [List.eq_nil_iff_forall_not_mem]
  intro t ht
  obtain ⟨u, hu, ht⟩ := List.mem_flatMap.mp ht
  obtain ⟨v, hv, ht⟩ := List.mem_flatMap.mp ht
  have hnil := (h s u v hs hu hv).seq (concat [group 3 digits,
    maybe (concat [group 4 (one (.anyCase ['k', 'd'])),
      maybe (group 5 (one (.anyCase ['h', 'l']))), group 6 digits])]) v rfl rfl
  exact absurd (hnil ▸ ht) List.not_mem_nil

/-- The pattern for dice cannot be read at a flat term. -/
theorem dice_fails (lead : Lead) (n : Numeral) (stops : Stops rest) :
    dice.Fails before (lead.text ++ (n.text ++ rest)) := by
  refine dice_fails_of_letter fun s u v hs hu hv => ?_
  rw [Lead.text, List.cons_append] at hs
  cases List.mem_append.mp hu with
  | inl hu =>
    -- behind the sign and some of the blanks
    obtain ⟨w, hw, hu⟩ := List.mem_flatMap.mp hu
    have hrest : w.rest = lead.gap.text ++ (n.text ++ rest) := by
      obtain ⟨x, hx, rfl⟩ := List.mem_map.mp hw
      simp only [sign, runs, hs] at hx
      split at hx
      · rw [List.mem_singleton.mp hx]
        rfl
      · simp at hx
    exact ((Barren.of_blanks hrest hu).of_digits stops hv).fails_letter stops
  | inr hu =>
    -- before the sign
    obtain rfl := List.mem_singleton.mp hu
    have hdigits : (group 2 digits).Fails u.before u.rest := by
      rw [hs]
      refine fails_of_begins (by decide) fun c hc => ?_
      rw [← Option.some.inj hc]
      cases lead.sign <;> decide
    cases List.mem_append.mp hv with
    | inl hv =>
      rw [hdigits u rfl rfl] at hv
      simp at hv
    | inr hv =>
      rw [List.mem_singleton.mp hv, hs]
      refine fails_of_begins (by decide) fun c hc => ?_
      rw [← Option.some.inj hc]
      cases lead.sign <;> decide

/-- The pattern for dice cannot be read at digits alone. -/
theorem dice_fails_of_digits {c : Char} {digits : Text}
    (h : ∀ d ∈ c :: digits, d.isDigit = true) (stops : Stops rest) :
    dice.Fails before (c :: (digits ++ rest)) := by
  refine dice_fails_of_letter fun s u v hs hu hv => ?_
  have hsign : (seq (group 1 sign) blanks).Fails s.before s.rest := by
    rw [hs]
    refine fails_of_begins (by decide) fun d hd => ?_
    obtain rfl : c = d := by simpa using hd
    simpa using forall_digit (fun d => !(seq (group 1 sign) blanks).begins d) (by decide)
      (h c List.mem_cons_self)
  have hbarren : Barren rest u.rest := by
    cases List.mem_append.mp hu with
    | inl hu =>
      rw [hsign s rfl rfl] at hu
      simp at hu
    | inr hu =>
      rw [List.mem_singleton.mp hu, hs]
      exact ⟨c :: digits, rfl, fun d hd => .inr (h d hd)⟩
  exact (hbarren.of_digits stops hv).fails_letter stops

end

end Written

end Tabletop
