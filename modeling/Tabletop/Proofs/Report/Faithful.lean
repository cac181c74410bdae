import Tabletop.Proofs.Group.CriticalDamage
import Tabletop.Proofs.Report.Lines
import Tabletop.Proofs.Report.Tiers
import Tabletop.Proofs.Roll.Certain
import Tabletop.Proofs.Text.Delimited

/-!
# What a report tells of the dice

At the highest verbosity, a report on added parts lists the dice of every part in the order of the
roll. Nothing in a line looks like the end of such a list before it ends, so the report tells which
dice were rolled and which of them were kept. The dice of a part that has none to roll are known
before it is rolled. So two rolls of one expression with the same report are the same roll.
-/

namespace Tabletop

open Text

theorem Roll.map_part_filter (r : Roll) :
    (r.parts.filter fun p => p.part.hasDice).map PartRoll.part =
      r.definitions.filter Part.hasDice := by
  rw [definitions, List.filter_map]
  rfl

namespace Report

/-- What stands on either side of the face of a die. -/
def mark (verbosity : Verbosity) (sides : Nat) (d : Die) : Text :=
  if !d.kept then "~~".toList
  else if .xl ≤ verbosity ∧ (d.value = 1 ∨ d.value = sides) then "**".toList
  else []

variable {verbosity : Verbosity} {sides : Nat}

theorem die_eq (d : Die) :
    die verbosity sides d =
      mark verbosity sides d ++ (Decimal.ofNat d.value ++ mark verbosity sides d) := by
  unfold die mark
  split
  · exact List.append_assoc _ _ _
  · split
    · exact List.append_assoc _ _ _
    · exact (List.append_nil _).symm

/-- Only dropped dice are struck through. -/
theorem mark_cases (verbosity : Verbosity) (sides : Nat) (d : Die) :
    d.kept = false ∧ mark verbosity sides d = "~~".toList ∨
      d.kept = true ∧ (mark verbosity sides d = "**".toList ∨ mark verbosity sides d = []) := by
  unfold mark
  cases d.kept with
  | false => exact .inl ⟨rfl, rfl⟩
  | true =>
    refine .inr ⟨rfl, ?_⟩
    rw [if_neg (by decide)]
    exact ite_eq_or_eq _ _ _

theorem not_isDigit_of_mem_mark {d : Die} :
    ∀ c ∈ mark verbosity sides d, (!c.isDigit) = true := by
  obtain ⟨-, h⟩ | ⟨-, h | h⟩ := mark_cases verbosity sides d
  all_goals rw [h]; exact List.all_eq_true.mp rfl

theorem kept_eq_of_mark_eq {d d' : Die} (h : mark verbosity sides d = mark verbosity sides d') :
    d.kept = d'.kept := by
  have hstruck (d : Die) : d.kept = !decide (mark verbosity sides d = "~~".toList) := by
    obtain ⟨hkept, hmark⟩ | ⟨hkept, hmark | hmark⟩ := mark_cases verbosity sides d
    all_goals rw [hkept, hmark]; decide
  rw [hstruck, hstruck d', h]

/-- A die opens with a digit or with a mark. -/
theorem exists_die_eq_cons (verbosity : Verbosity) (sides : Nat) (d : Die) :
    ∃ c more, die verbosity sides d = c :: more ∧ c ≠ ' ' := by
  obtain ⟨digit, digits, hface⟩ := List.exists_cons_of_ne_nil (Decimal.ofNat_ne_nil d.value)
  have hdigit : digit.isDigit = true :=
    Decimal.isDigit_of_mem_ofNat (hface ▸ List.mem_cons_self)
  rw [die_eq]
  obtain ⟨-, h⟩ | ⟨-, h | h⟩ := mark_cases verbosity sides d
  · exact ⟨'~', _, by rw [h]; rfl, by decide⟩
  · exact ⟨'*', _, by rw [h]; rfl, by decide⟩
  · refine ⟨digit, _, by rw [h, hface]; rfl, ?_⟩
    rintro rfl
    exact absurd hdigit (by decide)

/-- A die ends where no digit follows. -/
theorem delimited_die :
    Delimited (die verbosity sides) fun rest => ∀ c ∈ rest.head?, ¬ c.isDigit := by
  intro d d' rest rest' hrest hrest' h
  have hopens (d : Die) (rest : Text) :
      ∀ c ∈ (Decimal.ofNat d.value ++ rest).head?, ¬ (!c.isDigit) = true := by
    intro c hc
    have hmem : c ∈ Decimal.ofNat d.value := by
      rw [List.head?_append_of_ne_nil _ (Decimal.ofNat_ne_nil _)] at hc
      exact List.mem_of_mem_head? hc
    simp [Decimal.isDigit_of_mem_ofNat hmem]
  have hends (d : Die) {rest : Text} (hrest : ∀ c ∈ rest.head?, ¬ c.isDigit) :
      ∀ c ∈ (mark verbosity sides d ++ rest).head?, ¬ c.isDigit := by
    obtain ⟨-, h⟩ | ⟨-, h | h⟩ := mark_cases verbosity sides d
    · simp [h]
    · simp [h]
    · rwa [h]
  rw [die_eq, die_eq, List.append_assoc, List.append_assoc, List.append_assoc,
    List.append_assoc] at h
  obtain ⟨hmark, hvalue⟩ := append_inj_of_stop not_isDigit_of_mem_mark not_isDigit_of_mem_mark
    (hopens d _) (hopens d' _) h
  obtain ⟨hface, hlast⟩ := delimited_ofNat (hends d hrest) (hends d' hrest') hvalue
  rw [hmark] at hlast
  exact ⟨congrArg₂ Die.mk hface (kept_eq_of_mark_eq hmark), List.append_cancel_left hlast⟩

/-- The dice of a part end where a blank follows. -/
theorem delimited_dice :
    Delimited (fun dice : List Die => join ", ".toList (dice.map (die verbosity sides)))
      fun rest => rest.head? = some ' ' := by
  refine delimited_die.join (fun rest h c hc => ?_) (fun rest c hc => ?_) (fun rest h => ?_)
    fun d rest h => ?_
  · obtain rfl : ' ' = c := Option.some.inj (h.symm.trans hc)
    decide
  · obtain rfl : ',' = c := Option.some.inj hc
    decide
  · exact absurd (Option.some.inj h) (by decide)
  · obtain ⟨c, more, hdie, hc⟩ := exists_die_eq_cons verbosity sides d
    rw [hdie] at h
    exact hc (Option.some.inj h)

/-- The line of a part tells its dice. -/
theorem eq_of_partLine_eq {p p' : PartRoll} (part : p.part = p'.part) {rest rest' : Text}
    (h : partLine .xxl p ++ rest = partLine .xxl p' ++ rest') : p = p' ∧ rest = rest' := by
  have hline (p : PartRoll) (rest : Text) : ∃ behind,
      partLine .xxl p ++ rest = "  ".toList ++ p.part.text ++ ": ".toList ++
        (join ", ".toList (p.dice.map (die .xxl p.part.sides)) ++ ' ' :: behind) := by
    rw [partLine, faces, shownDice_xxl]
    simp only [List.append_assoc]
    exact ⟨_, rfl⟩
  obtain ⟨behind, hfirst⟩ := hline p rest
  obtain ⟨behind', hsecond⟩ := hline p' rest'
  have hdice := h
  rw [hfirst, hsecond, part] at hdice
  have hsame : p = p' := by
    obtain ⟨hdice, -⟩ := delimited_dice rfl rfl (List.append_cancel_left hdice)
    exact congrArg₂ PartRoll.mk part hdice
  rw [hsame] at h
  exact ⟨hsame, List.append_cancel_left h⟩

/-- The lines of rolled parts tell the dice of all of them. -/
theorem eq_of_lines_eq {parts parts' : List PartRoll}
    (defined : parts.map PartRoll.part = parts'.map PartRoll.part) {rest rest' : Text}
    (h : (parts.flatMap fun p => '\n' :: partLine .xxl p) ++ rest =
      (parts'.flatMap fun p => '\n' :: partLine .xxl p) ++ rest') : parts = parts' := by
  induction parts generalizing parts' with
  | nil => exact (List.map_eq_nil_iff.mp defined.symm).symm
  | cons p parts ih =>
    obtain ⟨p', later, rfl, hpart, hlater⟩ := List.map_eq_cons_iff.mp defined.symm
    rw [List.flatMap_cons, List.flatMap_cons, List.append_assoc, List.append_assoc] at h
    obtain ⟨rfl, hrest⟩ := eq_of_partLine_eq hpart.symm (List.cons.inj h).2
    rw [ih hlater.symm hrest]

/-- The first closing bracket ends the total. -/
theorem eq_of_outcome_eq {r r' : Roll} {rest rest' : Text}
    (h : outcome r ++ rest = outcome r' ++ rest') : rest = rest' := by
  have hglyph (g : Grade) : ∀ c ∈ g.glyph.toList, (c != ')') = true := by
    cases g <;> exact List.all_eq_true.mp rfl
  have hdigits (n : Nat) : ∀ c ∈ Decimal.ofNat n, (c != ')') = true := by
    intro c hc
    rw [bne_iff_ne]
    rintro rfl
    exact absurd (Decimal.isDigit_of_mem_ofNat hc) (by decide)
  have htotal (n : Int) : ∀ c ∈ Decimal.ofInt n, (c != ')') = true := by
    rw [Decimal.ofInt]
    split
    · exact List.forall_mem_cons.mpr ⟨by decide, hdigits _⟩
    · exact hdigits _
  have hopen (r : Roll) :
      ∀ c ∈ r.grade.glyph.toList ++ " (".toList ++ Decimal.ofInt r.total, (c != ')') = true :=
    List.forall_mem_append.mpr
      ⟨List.forall_mem_append.mpr ⟨hglyph _, List.all_eq_true.mp rfl⟩, htotal _⟩
  have hclosed (rest : Text) : ∀ c ∈ (')' :: rest).head?, ¬ (c != ')') = true := by simp
  rw [outcome, outcome, List.append_assoc _ [')'], List.append_assoc _ [')']] at h
  have hbracket := append_inj_of_stop (hopen r) (hopen r') (hclosed rest) (hclosed rest') h
  exact (List.cons.inj hbracket.2).2

/-- Rolls of the same parts with the same report at the highest verbosity have the same details. -/
theorem detailsPiece_eq_of_roll_eq (s : System) {r r' : Roll}
    (defined : r.definitions = r'.definitions) (same : roll s .xxl r = roll s .xxl r') :
    detailsPiece s .xxl r = detailsPiece s .xxl r' := by
  have hdescription : descriptionPiece r = descriptionPiece r' := by
    rw [descriptionPiece, descriptionPiece, Roll.description, Roll.description, defined]
  have hexpression : expressionPiece r = expressionPiece r' := by
    rw [expressionPiece, expressionPiece, Roll.expressionText, Roll.expressionText, defined]
  -- The breakdown stays on the line that the report begins with.
  have hline (r : Roll) : ∀ c ∈ breakdownPiece s .l r, (c != '\n') = true := fun c hc =>
    bne_iff_ne.mpr fun hc' => (isLine_breakdownPiece s .l r).not_mem_newline (hc' ▸ hc)
  have hdetails (r : Roll) : ∀ c ∈ (detailsPiece s .xxl r).head?, ¬ (c != '\n') = true := by
    rw [detailsPiece]
    cases details s .xxl r <;> simp
  rw [roll_of_details s r (by decide), roll_of_details s r' (by decide), roll_l, roll_l, roll_m,
    roll_m, roll_s, roll_s, roll_xs, roll_xs, hdescription, hexpression] at same
  simp only [List.append_assoc] at same
  have hbehind := List.append_cancel_left (List.append_cancel_left (eq_of_outcome_eq same))
  exact (append_inj_of_stop (hline r) (hline r') (hdetails r) (hdetails r') hbehind).2

/-- The report on added parts at the highest verbosity tells the dice of every part with dice. -/
theorem dice_eq_of_roll_eq {s : System} (plain : s.kind ≠ .vampire) {r r' : Roll}
    (defined : r.definitions = r'.definitions) (same : roll s .xxl r = roll s .xxl r') :
    (r.parts.filter fun p => p.part.hasDice) = r'.parts.filter fun p => p.part.hasDice := by
  have hdetails := detailsPiece_eq_of_roll_eq s defined same
  rw [detailsPiece_of_plain s r plain, detailsPiece_of_plain s r' plain] at hdetails
  exact eq_of_lines_eq (by rw [r.map_part_filter, r'.map_part_filter, defined]) hdetails

end Report

namespace PartRoll

variable {ρ : Type} [Roller ρ]

/-- The dice of a rolled part are marked by its rule. -/
theorem ofFaces_faces_roll (p : Part) (r : ρ) :
    ofFaces (roll p r).1.part (roll p r).1.faces = (roll p r).1 := by
  have hfaces : ∃ faces, (roll p r).1 = ofFaces p faces := by
    rw [roll]
    cases p.fixed with
    | some faces => exact ⟨faces, rfl⟩
    | none =>
      dsimp only
      split
      · exact ⟨[], rfl⟩
      · exact ⟨_, rfl⟩
  obtain ⟨faces, h⟩ := hfaces
  rw [h, part_ofFaces, faces_ofFaces]

/-- Parts of which all that have dice were rolled alike, and the others could be rolled in one way
only, were all rolled alike. -/
theorem eq_of_filter_eq {parts parts' : List PartRoll} (known : Part → PartRoll)
    (defined : parts.map PartRoll.part = parts'.map PartRoll.part)
    (h : ∀ p ∈ parts, p.part.hasDice = false → p = known p.part)
    (h' : ∀ p ∈ parts', p.part.hasDice = false → p = known p.part)
    (same : (parts.filter fun p => p.part.hasDice) = parts'.filter fun p => p.part.hasDice) :
    parts = parts' := by
  induction parts generalizing parts' with
  | nil => exact (List.map_eq_nil_iff.mp defined.symm).symm
  | cons p parts ih =>
    obtain ⟨p', later, rfl, hpart, hlater⟩ := List.map_eq_cons_iff.mp defined.symm
    obtain ⟨hp, hparts⟩ := List.forall_mem_cons.mp h
    obtain ⟨hp', hparts'⟩ := List.forall_mem_cons.mp h'
    cases hdice : p.part.hasDice with
    | true =>
      have hdice' : p'.part.hasDice = true := hpart ▸ hdice
      simp only [List.filter_cons, hdice, hdice', if_true] at same
      obtain ⟨rfl, hrest⟩ := List.cons.inj same
      rw [ih hlater.symm hparts hparts' hrest]
    | false =>
      have hdice' : p'.part.hasDice = false := hpart ▸ hdice
      simp only [List.filter_cons, hdice, hdice', Bool.false_eq_true, if_false] at same
      rw [hp hdice, hp' hdice', hpart, ih hlater.symm hparts hparts' same]

/-- What was rolled twice over tells what was rolled. -/
theorem eq_of_doubled_eq {p p' : PartRoll} (part : p.part = p'.part)
    (marks : ofFaces p.part p.faces = p) (marks' : ofFaces p'.part p'.faces = p')
    (h : p.doubled = p'.doubled) : p = p' := by
  have hfaces (p : PartRoll) : p.doubled.faces = p.faces ++ p.faces := faces_ofFaces _ _
  have htwice : p.faces ++ p.faces = p'.faces ++ p'.faces := by rw [← hfaces, h, hfaces]
  have hlength : p.faces.length = p'.faces.length := by
    have := congrArg List.length htwice
    simp only [List.length_append] at this
    omega
  rw [← marks, ← marks', part, (List.append_inj htwice hlength).1]

theorem eq_of_map_doubled_eq {parts parts' : List PartRoll}
    (defined : parts.map PartRoll.part = parts'.map PartRoll.part)
    (marks : ∀ p ∈ parts, ofFaces p.part p.faces = p)
    (marks' : ∀ p ∈ parts', ofFaces p.part p.faces = p)
    (h : parts.map doubled = parts'.map doubled) : parts = parts' := by
  induction parts generalizing parts' with
  | nil => exact (List.map_eq_nil_iff.mp defined.symm).symm
  | cons p parts ih =>
    obtain ⟨p', later, rfl, hpart, hlater⟩ := List.map_eq_cons_iff.mp defined.symm
    obtain ⟨hp, hparts⟩ := List.forall_mem_cons.mp marks
    obtain ⟨hp', hparts'⟩ := List.forall_mem_cons.mp marks'
    obtain ⟨hdoubled, hrest⟩ := List.cons.inj h
    rw [eq_of_doubled_eq hpart.symm hp hp' hdoubled, ih hlater.symm hparts hparts' hrest]

end PartRoll

namespace Roll

def raisedBy (system : System) (method : Option CritMethod) (r : Roll) : Roll :=
  method.elim r fun method => r.raised system method

/-- Raising goes by what was rolled for, not by what was rolled. -/
theorem definitions_raisedBy (system : System) (method : Option CritMethod) {r r' : Roll}
    (h : r.definitions = r'.definitions) :
    (r.raisedBy system method).definitions = (r'.raisedBy system method).definitions := by
  have hmax : r.maxDiceValue = r'.maxDiceValue := by rw [maxDiceValue, maxDiceValue, h]
  have hflat (r : Roll) (p : PartRoll) : (r.parts ++ [p]).map PartRoll.part =
      r.definitions ++ [p.part] := List.map_append
  cases method with
  | none => exact h
  | some method =>
    cases method with
    | timesTwo => exact (hflat r _).trans ((congrArg (· ++ _) h).trans (hflat r' _).symm)
    | addMax =>
      refine (hflat r _).trans (Eq.trans ?_ (hflat r' _).symm)
      rw [h, hmax]
    | rollTwice =>
      have hdoubled (r : Roll) : (r.parts.map PartRoll.doubled).map PartRoll.part =
          r.definitions.map fun p => (PartRoll.doubled ⟨p, []⟩).part := by
        rw [definitions, List.map_map, List.map_map]
        rfl
      exact (hdoubled r).trans ((congrArg _ h).trans (hdoubled r').symm)

/-- The dice of a raised roll tell those of the roll before. -/
theorem dice_eq_of_raisedBy {system : System} {method : Option CritMethod} {r r' : Roll}
    (defined : r.definitions = r'.definitions)
    (marks : ∀ p ∈ r.parts, PartRoll.ofFaces p.part p.faces = p)
    (marks' : ∀ p ∈ r'.parts, PartRoll.ofFaces p.part p.faces = p)
    (h : ((r.raisedBy system method).parts.filter fun p => p.part.hasDice) =
      (r'.raisedBy system method).parts.filter fun p => p.part.hasDice) :
    (r.parts.filter fun p => p.part.hasDice) = r'.parts.filter fun p => p.part.hasDice := by
  have hflat (r : Roll) (sign : Sign) (n : Int) :
      ((r.parts ++ [PartRoll.ofFaces (.flat sign n) []]).filter fun p => p.part.hasDice) =
        r.parts.filter fun p => p.part.hasDice := by
    rw [List.filter_append]
    exact List.append_nil _
  cases method with
  | none => exact h
  | some method =>
    cases method with
    | timesTwo | addMax => exact (hflat r _ _).symm.trans (h.trans (hflat r' _ _))
    | rollTwice =>
      have hdoubled (r : Roll) :
          ((r.parts.map PartRoll.doubled).filter fun p => p.part.hasDice) =
            (r.parts.filter fun p => p.part.hasDice).map PartRoll.doubled := by
        rw [List.filter_map]
        simp only [Function.comp_def, hasDice_doubled]
      exact PartRoll.eq_of_map_doubled_eq (by rw [r.map_part_filter, r'.map_part_filter, defined])
        (fun p hp => marks p (List.mem_of_mem_filter hp))
        (fun p hp => marks' p (List.mem_of_mem_filter hp))
        ((hdoubled r).symm.trans (h.trans (hdoubled r')))

variable {ρ ρ' : Type} [Roller ρ] [Roller ρ'] {sound : ρ → Prop} {sound' : ρ' → Prop}

/-- Two rolls of an expression with the same report on added parts at the highest verbosity, both
raised by the same method or neither raised, are the same roll: all parts show the same faces in the
same order, and of these the same are kept. -/
theorem ofDice_eq_of_report_eq (lawful : Roller.Lawful sound) (lawful' : Roller.Lawful sound')
    (system shown : System) (plain : shown.kind ≠ .vampire) (d : Dice) (method : Option CritMethod)
    {r : ρ} {r' : ρ'} (h : sound r) (h' : sound' r')
    (same : Report.roll shown .xxl ((ofDice system d r).1.raisedBy system method) =
      Report.roll shown .xxl ((ofDice system d r').1.raisedBy system method)) :
    (ofDice system d r).1 = (ofDice system d r').1 := by
  have hdefinitions {ρ : Type} [Roller ρ] (r : ρ) : (ofDice system d r).1.definitions = d.parts :=
    PartRoll.map_part_each_roll d.parts r
  have defined : (ofDice system d r).1.definitions = (ofDice system d r').1.definitions := by
    rw [hdefinitions, hdefinitions]
  have hmarks {ρ : Type} [Roller ρ] (r : ρ) :
      ∀ p ∈ (ofDice system d r).1.parts, PartRoll.ofFaces p.part p.faces = p := by
    intro p hp
    obtain ⟨part, -, before, rfl⟩ := Roller.exists_of_mem_each hp
    exact PartRoll.ofFaces_faces_roll part before
  have hknown {ρ : Type} [Roller ρ] {sound : ρ → Prop} (lawful : Roller.Lawful sound) {r : ρ}
      (h : sound r) : ∀ p ∈ (ofDice system d r).1.parts, p.part.hasDice = false →
        p = PartRoll.ofFaces p.part p.part.certainFaces := by
    refine Roller.forall_mem_each_of (fun part _ _ => PartRoll.sound_roll lawful part)
      (fun part _ before hbefore hdice => ?_) h
    rw [PartRoll.part_roll] at hdice ⊢
    exact PartRoll.roll_of_isCertain lawful (Part.isCertain_of_not_hasDice hdice) hbefore
  have hdice := dice_eq_of_raisedBy defined (hmarks r) (hmarks r')
    (Report.dice_eq_of_roll_eq plain (definitions_raisedBy system method defined) same)
  have hsame := PartRoll.eq_of_filter_eq (fun p => PartRoll.ofFaces p p.certainFaces) defined
    (hknown lawful h) (hknown lawful' h') hdice
  exact congrArg (ofParts system) hsame

/-- Two scripts, one of which has faces that a d6 does not have: the damage that each of them raises
by rolling it twice is reported alike, so the same was rolled. -/
theorem ofDice_eq_of_report_eq_twice :
    let s := System.pathfinder 20 true
    let d : Dice := ⟨[{ count := 4, sides := 6, dropKeep := some ⟨.keep, .highest, 3⟩ }]⟩
    let method := some CritMethod.rollTwice
    let r : Script := ⟨[4, 1, 6, 4], 0⟩
    let r' : Script := ⟨[4, 0, 9, 4], 0⟩
    (s.kind ≠ .vampire ∧ Report.roll s .xxl ((ofDice s d r).1.raisedBy s method) =
      Report.roll s .xxl ((ofDice s d r').1.raisedBy s method)) ∧
      (ofDice s d r).1 = (ofDice s d r').1 := by
  intro s d method r r'
  have plain : s.kind ≠ .vampire := by decide
  have same : Report.roll s .xxl ((ofDice s d r).1.raisedBy s method) =
      Report.roll s .xxl ((ofDice s d r').1.raisedBy s method) := by cbv
  exact ⟨⟨plain, same⟩,
    ofDice_eq_of_report_eq Script.lawful Script.lawful s s plain d method trivial trivial same⟩

end Roll

end Tabletop
