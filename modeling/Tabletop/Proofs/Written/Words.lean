import Tabletop.Group
import Tabletop.Proofs.Text.Blank

/-!
# Written words

The words that a command is made of: numbers, dice, flat terms and the signs before them. A word
says more than its meaning, such as leading zeros or the case of a letter. Beside each word
stands what it means and the token that it should be cut into.
-/

namespace Tabletop

namespace Written

/-- A number as it may be written: ASCII digits, with leading zeros or without. -/
structure Numeral where
  text : Text
  nonempty : text ≠ []
  digits : ∀ c ∈ text, c.isDigit = true

namespace Numeral

def value (n : Numeral) : Nat := Nat.ofDigitChars 10 n.text 0

def ofNat (n : Nat) : Numeral :=
  ⟨Decimal.ofNat n, Decimal.ofNat_ne_nil n, fun _ => Decimal.isDigit_of_mem_ofNat⟩

@[simp] theorem text_ofNat (n : Nat) : (ofNat n).text = Decimal.ofNat n := rfl

theorem read?_text (n : Numeral) : Decimal.read? n.text = some n.value :=
  if_pos ⟨n.nonempty, List.all_eq_true.mpr n.digits⟩

@[simp] theorem value_ofNat (n : Nat) : (ofNat n).value = n := by
  have := (ofNat n).read?_text
  rw [text_ofNat, Decimal.read?_ofNat] at this
  exact (Option.some.inj this).symm

theorem readUpTo?_text (n : Numeral) {limit : Nat} (h : n.value ≤ limit) :
    Decimal.readUpTo? limit n.text = some n.value := by
  simp [Decimal.readUpTo?, read?_text, h]

theorem readTotal?_text (n : Numeral) (h : (n.value : Int) ≤ Total.greatest) :
    Decimal.readTotal? n.text = some (n.value : Int) := by
  rw [Decimal.readTotal?, n.readUpTo?_text (by omega)]
  rfl

theorem exists_cons (n : Numeral) : ∃ c rest, n.text = c :: rest ∧ c.isDigit = true := by
  obtain ⟨c, rest, h⟩ := List.exists_cons_of_ne_nil n.nonempty
  exact ⟨c, rest, h, n.digits c (h ▸ List.mem_cons_self)⟩

/-- What holds of each digit holds of the first character of a number. -/
theorem forall_head (n : Numeral) (holds : Char → Bool)
    (h : ((List.range' 0x30 10).all fun n => holds (Char.ofNat n)) = true) (more : Text) :
    ∀ c ∈ (n.text ++ more).head?, holds c = true := by
  obtain ⟨c, rest, htext, hc⟩ := n.exists_cons
  intro c' hc'
  obtain rfl : c = c' := by simpa [htext] using hc'
  exact forall_digit holds h hc

theorem length_pos (n : Numeral) : 0 < n.text.length := List.length_pos_iff.mpr n.nonempty

end Numeral

structure Gap where
  text : Text
  blank : ∀ c ∈ text, isBlank c = true

def Gap.none : Gap := ⟨[], by simp⟩

def Gap.space : Gap := ⟨[' '], List.forall_mem_singleton.mpr rfl⟩

def Gap.tokens (g : Gap) : List Token :=
  if g.text = [] then [] else [.unmatched .description g.text 0]

structure Lead where
  sign : Sign
  gap : Gap

def Lead.text (l : Lead) : Text := l.sign.symbol :: l.gap.text

def cased (small : Char) (large : Bool) : Char := if large then small.toUpper else small

structure RuleWord where
  choice : Choice
  large : Bool
  /-- The end that is named, and whether its letter is large. -/
  ending : Option (Extremity × Bool)
  number : Numeral

namespace RuleWord

def letter (w : RuleWord) : Text := [cased w.choice.letter w.large]

def endingText (w : RuleWord) : Option Text := w.ending.map fun e => [cased e.1.letter e.2]

def text (w : RuleWord) : Text := w.letter ++ (w.endingText.getD [] ++ w.number.text)

/-- The rule that the letters name. Without a named end, the best dice are kept and the worst
dropped. -/
def rule (w : RuleWord) : DropKeep where
  choice := w.choice
  extremity :=
    match w.ending, w.choice with
    | some (extremity, _), _ => extremity
    | none, .keep => .highest
    | none, .drop => .lowest
  number := w.number.value

theorem lower_letter (w : RuleWord) : Text.lower w.letter = [w.choice.letter] := by
  rw [letter]
  cases w.choice <;> cases w.large <;> decide

theorem lower_endingText (w : RuleWord) :
    w.endingText.map Text.lower = w.ending.map fun e => [e.1.letter] := by
  rw [endingText]
  rcases w.ending with _ | ⟨extremity, large⟩
  · rfl
  · cases extremity <;> cases large <;> decide

theorem ofCaptures?_text (w : RuleWord) :
    DropKeep.ofCaptures? w.letter w.endingText w.number.value = some w.rule := by
  simp only [DropKeep.ofCaptures?, lower_letter, lower_endingText, rule]
  cases w.choice <;> rcases w.ending with _ | ⟨_ | _, large⟩ <;> rfl

end RuleWord

structure DieWord where
  count : Option Numeral
  large : Bool
  sides : Numeral
  rule : Option RuleWord

namespace DieWord

def countText (w : DieWord) : Text := (w.count.map Numeral.text).getD []

def ruleText (w : DieWord) : Text := (w.rule.map RuleWord.text).getD []

def text (w : DieWord) : Text :=
  w.countText ++ ([cased 'd' w.large] ++ (w.sides.text ++ w.ruleText))

structure InRange (w : DieWord) : Prop where
  count : ∀ n ∈ w.count, n.value ≤ maxDice
  sides : w.sides.value ≤ maxCount
  rule : ∀ r ∈ w.rule, r.number.value ≤ maxCount

def part (w : DieWord) (sign : Sign) : Part where
  count := (w.count.map Numeral.value).getD 1
  sides := w.sides.value
  sign
  dropKeep := w.rule.map RuleWord.rule

def token (w : DieWord) (lead : Option Lead) : Token where
  kind := .dice
  raw := (lead.map Lead.text).getD [] ++ w.text
  start := 0
  captures := [lead.map fun l => [l.sign.symbol], w.count.map Numeral.text, some w.sides.text,
    w.rule.map RuleWord.letter, w.rule.bind RuleWord.endingText,
    w.rule.map fun r => r.number.text]

/-- A die begins with a digit or with the letter. -/
theorem exists_cons (w : DieWord) :
    ∃ c t, w.text = c :: t ∧ (c.isDigit = true ∨ c = cased 'd' w.large) := by
  rw [text, countText]
  cases w.count with
  | none => exact ⟨_, _, rfl, .inr rfl⟩
  | some n =>
    obtain ⟨c, t, h, hc⟩ := n.exists_cons
    exact ⟨c, _, congrArg (· ++ _) h, .inl hc⟩

/-- What holds of each digit and of the letter in either case holds of the first character of a
die. -/
theorem forall_head (w : DieWord) (holds : Char → Bool)
    (digit : ((List.range' 0x30 10).all fun n => holds (Char.ofNat n)) = true)
    (letter : holds 'd' = true ∧ holds 'D' = true) (more : Text) :
    ∀ c ∈ (w.text ++ more).head?, holds c = true := by
  obtain ⟨c, t, h, hc⟩ := w.exists_cons
  intro c' hc'
  obtain rfl : c = c' := by simpa [h] using hc'
  rcases hc with hc | rfl
  · exact forall_digit holds digit hc
  · cases w.large
    · exact letter.1
    · exact letter.2

end DieWord

def flatToken (lead : Lead) (n : Numeral) : Token where
  kind := .modifier
  raw := lead.text ++ n.text
  start := 0
  captures := [some [lead.sign.symbol], some n.text]

end Written

end Tabletop
