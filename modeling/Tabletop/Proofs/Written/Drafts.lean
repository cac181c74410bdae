import Tabletop.Proofs.Group.Reading
import Tabletop.Proofs.Written.Marks

/-!
# What written words mean

What each token of a written word adds to the part that is being read. Blanks add nothing that
shows in the end.
-/

namespace Tabletop

open Written

/-- A test that its written form tells everything about. -/
structure Test.IsCanonical (t : Test) : Prop where
  shown : t.hidden = false
  value : 0 ≤ t.value ∧ t.value ≤ Total.greatest
  op : t.target ≠ .operator → t.op = .ge

namespace Written

theorem ofSpelling_spelling {target : Target} {op : CompareOp}
    (h : target ≠ .operator → op = .ge) :
    Target.ofSpelling (spelling target op) = (target, op) := by
  cases target with
  | operator => cases op <;> decide
  | _ =>
    obtain rfl : op = .ge := h (by simp)
    decide

/-- A test token is read as the test that it was written for. -/
theorem ofToken?_testToken {target : Target} {op : CompareOp} (h : target ≠ .operator → op = .ge)
    {n : Numeral} (hn : (n.value : Int) ≤ Total.greatest) :
    Test.ofToken? (testToken target op n) = some ⟨target, op, n.value, false⟩ := by
  have htrim : Text.trim n.text = n.text :=
    Text.trim_eq_self fun c hc => isBlank_of_digit (n.digits c hc)
  have hunbarred : Test.unbarred? n.text = none := by
    obtain ⟨c, rest, htext, hc⟩ := n.exists_cons
    have hbar : ('|' == c) = false := by
      simpa using forall_digit (fun c => !('|' == c)) (by decide) hc
    simp [Test.unbarred?, htext, List.isPrefixOf?, hbar]
  have hspelled : (testToken target op n).capture 1 = some (spelling target op) := rfl
  have hvalue : (testToken target op n).capture 2 = some n.text := rfl
  simp [Test.ofToken?, hspelled, hvalue, ofSpelling_spelling h, htrim, hunbarred,
    n.readTotal?_text hn]

end Written

namespace Part

variable {system : System}

/-- Some tokens make one part into another and leave nothing over but blanks. -/
def Gives (system : System) (tokens : List Token) (p q : Part) : Prop :=
  ∃ more, (∀ c ∈ more, isBlank c = true) ∧
    ∀ loose, tokens.foldl (Draft.add system) ⟨p, loose⟩ = ⟨q, loose ++ more⟩

theorem Gives.nil (p : Part) : Gives system [] p p := ⟨[], by simp, by simp⟩

theorem Gives.append {tokens tokens' : List Token} {p q r : Part} (h : Gives system tokens p q)
    (h' : Gives system tokens' q r) : Gives system (tokens ++ tokens') p r := by
  obtain ⟨more, hblank, hfold⟩ := h
  obtain ⟨more', hblank', hfold'⟩ := h'
  refine ⟨more ++ more', ?_, fun loose => ?_⟩
  · intro c hc
    exact (List.mem_append.mp hc).elim (hblank c) (hblank' c)
  · rw [List.foldl_append, hfold, hfold', List.append_assoc]

/-- A token that leaves no text changes a draft by what it does to the part. -/
theorem Gives.of_add {t : Token} {p q : Part}
    (h : ∀ loose, Draft.add system ⟨p, loose⟩ t = ⟨q, loose⟩) : Gives system [t] p q :=
  ⟨[], by simp, by simpa using h⟩

/-- Blanks change no part and are left over. -/
theorem gives_gap (g : Gap) (p : Part) : Gives system g.tokens p p := by
  rw [Gap.tokens]
  split
  · exact .nil p
  · refine ⟨g.text, g.blank, fun loose => ?_⟩
    cases system <;> rfl

theorem ofTokens_of_gives {tokens : List Token} {p : Part} (h : Gives system tokens empty p)
    (plain : p.description = []) : ofTokens system tokens = p := by
  obtain ⟨more, hblank, hfold⟩ := h
  exact ofTokens_of_foldl (hfold []) plain (by simpa using hblank)

/-- The dice of a word in range, whatever the part had before. -/
theorem withDice_token (p : Part) {lead : Option Lead} {w : DieWord} (range : w.InRange) :
    p.withDice (w.token lead) =
      { p with
        sign := (lead.map Lead.sign).getD .plus
        count := (w.count.map Numeral.value).getD 1
        sides := w.sides.value
        dropKeep := w.rule.map RuleWord.rule } := by
  have hsign : (p.withDice (w.token lead)).sign = (lead.map Lead.sign).getD .plus := by
    cases lead with
    | none => rfl
    | some l => exact Sign.ofCapture_symbol l.sign
  have hcount : (p.withDice (w.token lead)).count = (w.count.map Numeral.value).getD 1 := by
    cases hc : w.count with
    | none => simp [withDice, Token.capture, DieWord.token, hc]
    | some n =>
      have hn : n.value ≤ maxDice := range.count n hc
      have hread : Decimal.readCount? n.text = some n.value :=
        n.readUpTo?_text (Nat.le_trans hn (by decide))
      simp [withDice, Token.count?, Token.capture, DieWord.token, hc, hread, Option.filter_some, hn]
  have hsides : (p.withDice (w.token lead)).sides = w.sides.value := by
    have hread : Decimal.readCount? w.sides.text = some w.sides.value :=
      w.sides.readUpTo?_text range.sides
    simp [withDice, Token.count?, Token.capture, DieWord.token, hread]
  have hrule : (p.withDice (w.token lead)).dropKeep = w.rule.map RuleWord.rule := by
    cases hr : w.rule with
    | none => simp [withDice, Token.capture, DieWord.token, hr]
    | some r =>
      have hread : Decimal.readCount? r.number.text = some r.number.value :=
        r.number.readUpTo?_text (range.rule r hr)
      simp [withDice, Token.count?, Token.capture, DieWord.token, hr, hread, r.ofCaptures?_text]
  rw [← hsign, ← hcount, ← hsides, ← hrule]
  rfl

/-- A flat term on its own gives the part a sign and a modifier. -/
theorem withModifier_flatToken (p : Part) {lead : Lead} {n : Numeral}
    (range : (n.value : Int) ≤ Total.greatest) :
    p.withModifier (flatToken lead n) =
      if p.sides = 0 then { p with sign := lead.sign, modifier := n.value }
      else
        match lead.sign with
        | .plus => { p with modifier := Total.add p.modifier n.value }
        | .minus => { p with modifier := Total.sub p.modifier n.value }
        | .times => p := by
  have hsign : Sign.ofCapture ((flatToken lead n).capture 1) = lead.sign :=
    Sign.ofCapture_symbol lead.sign
  have hvalue : ((flatToken lead n).capture 2).bind Decimal.readTotal? = some (n.value : Int) :=
    n.readTotal?_text range
  rw [withModifier, hvalue]
  generalize Sign.ofCapture ((flatToken lead n).capture 1) = sign at hsign
  subst hsign
  rfl

theorem gives_die (p : Part) {lead : Option Lead} {w : DieWord} (range : w.InRange) :
    Gives system [w.token lead] p
      { p with
        sign := (lead.map Lead.sign).getD .plus
        count := (w.count.map Numeral.value).getD 1
        sides := w.sides.value
        dropKeep := w.rule.map RuleWord.rule } :=
  .of_add fun loose => congrArg (Draft.mk · loose) (withDice_token p range)

theorem gives_flat (p : Part) (lead : Lead) (n : Numeral) :
    Gives system [flatToken lead n] p (p.withModifier (flatToken lead n)) :=
  .of_add fun _ => rfl

theorem gives_test (p : Part) {target : Target} {op : CompareOp}
    (h : target ≠ .operator → op = .ge) {n : Numeral} (hn : (n.value : Int) ≤ Total.greatest) :
    Gives system [testToken target op n] p { p with test := some ⟨target, op, n.value, false⟩ } :=
  .of_add fun loose => by
    rw [Draft.add]
    simp only [ofToken?_testToken h hn]
    rfl

theorem gives_hunger (p : Part) {n : Numeral} (hn : n.value ≤ maxCount) (mark : Text) :
    Gives .vampire [markToken .hunger mark n] p { p with hunger := some n.value } :=
  .of_add fun loose => by
    have hread : Decimal.readCount? n.text = some n.value := n.readUpTo?_text hn
    simp [Draft.add, System.absorb?, markToken, Token.capture, hread]

theorem gives_crit {threshold : Nat} {infers : Bool} (p : Part) {n : Numeral}
    (hn : n.value ≤ maxCount) (mark : Text) :
    Gives (.pathfinder threshold infers) [markToken .crit mark n] p
      { p with critThreshold := some n.value } :=
  .of_add fun loose => by
    have hread : Decimal.readCount? n.text = some n.value := n.readUpTo?_text hn
    simp [Draft.add, System.absorb?, markToken, Token.capture, hread]

end Part

end Tabletop
