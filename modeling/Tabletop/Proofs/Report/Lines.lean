import Tabletop.Group
import Tabletop.Proofs.Part.Limits
import Tabletop.Proofs.Roll.Simple
import Tabletop.Proofs.Text.Words
import Tabletop.Report
import Tabletop.Roll.Basic

/-!
# Reports on one line

Of all that a report tells, only the descriptions are the words of whoever asked for the roll. They
are squeezed when a text is read, so spaces are the only blanks in them, and nothing else in a
report has other blanks. Below the verbosity that adds details, which stand on lines of their own,
the report on a roll is therefore a single line.
-/

namespace Tabletop

namespace Text

/-- Spaces are the only blanks in the text, so it stays on one line. -/
def IsLine (s : Text) : Prop := ∀ c ∈ s, isBlank c = true → c = ' '

instance (s : Text) : Decidable s.IsLine :=
  List.decidableBAll (fun c => isBlank c = true → c = ' ') s

variable {s t : Text}

theorem isLine_nil : IsLine [] := by decide

theorem IsLine.append (hs : s.IsLine) (ht : t.IsLine) : (s ++ t).IsLine :=
  List.forall_mem_append.mpr ⟨hs, ht⟩

theorem IsLine.cons {c : Char} (hc : IsLine [c]) (hs : s.IsLine) : IsLine (c :: s) := hc.append hs

theorem isLine_ite {p : Prop} [Decidable p] (hs : s.IsLine) (ht : t.IsLine) :
    IsLine (if p then s else t) := by
  split
  · exact hs
  · exact ht

theorem isLine_flatMap {α : Type} {items : List α} {f : α → Text}
    (h : ∀ item ∈ items, IsLine (f item)) : IsLine (items.flatMap f) :=
  List.forall_mem_flatMap.mpr h

theorem IsLine.join (hs : s.IsLine) {pieces : List Text} (h : ∀ piece ∈ pieces, piece.IsLine) :
    (join s pieces).IsLine := by
  cases pieces with
  | nil => exact isLine_nil
  | cons first rest =>
    obtain ⟨hfirst, hrest⟩ := List.forall_mem_cons.mp h
    rw [join_eq_append_flatMap]
    exact hfirst.append (isLine_flatMap fun piece hpiece => hs.append (hrest piece hpiece))

theorem IsLine.not_mem_newline (h : s.IsLine) : '\n' ∉ s := fun hmem =>
  absurd (h '\n' hmem (by decide)) (by decide)

/-- Between words there is nothing but one space. -/
theorem isLine_squeeze (s : Text) : s.squeeze.IsLine := by
  refine IsLine.join (by decide) fun word hword c hc hblank => ?_
  have hsolid := isBlank_of_mem_words hword c hc
  rw [hsolid] at hblank
  exact absurd hblank (by decide)

end Text

open Text

namespace Decimal

theorem isLine_ofNat (n : Nat) : (ofNat n).IsLine := fun c hc hblank => by
  rw [isBlank_of_digit (isDigit_of_mem_ofNat hc)] at hblank
  exact absurd hblank (by decide)

theorem isLine_ofInt (n : Int) : (ofInt n).IsLine :=
  isLine_ite (.cons (by decide) (isLine_ofNat _)) (isLine_ofNat _)

end Decimal

open Decimal

theorem Sign.isLine_symbol (sign : Sign) : IsLine [sign.symbol] := by cases sign <;> decide

theorem DropKeep.isLine_text (rule : DropKeep) : rule.text.IsLine := by
  refine .cons ?_ (.cons ?_ (isLine_ofNat rule.number))
  · cases rule.choice <;> decide
  · cases rule.extremity <;> decide

theorem Test.isLine_label (t : Test) : IsLine t.label.toList := by
  rw [label]
  cases t.op <;> cases t.target <;> decide

theorem Test.isLine_text (t : Test) : t.text.IsLine :=
  t.isLine_label.append (.cons (by decide) (isLine_ite (by decide) (isLine_ofInt t.value)))

namespace Part

theorem isLine_modifierText (n : Int) : (modifierText n).IsLine :=
  isLine_ite (.cons (by decide) (isLine_ofInt n)) (isLine_ite (isLine_ofInt n) isLine_nil)

theorem isLine_diceText (p : Part) : p.diceText.IsLine := by
  refine .append (.append (.append (isLine_ofNat _) (.cons (by decide) (isLine_ofNat _))) ?_)
    (isLine_modifierText _)
  cases p.dropKeep with
  | none => exact isLine_nil
  | some rule => exact rule.isLine_text

theorem isLine_markText {mark : String} (hmark : IsLine mark.toList) (n : Option Nat) :
    (markText mark n).IsLine := by
  cases n with
  | none => exact isLine_nil
  | some n => exact hmark.append (isLine_ofNat n)

theorem isLine_text (p : Part) : p.text.IsLine :=
  .append (.append (isLine_ite p.isLine_diceText (isLine_ite (isLine_ofNat _) isLine_nil))
    (isLine_markText (by decide) _)) (isLine_markText (by decide) _)

theorem isLine_signedText (p : Part) : p.signedText.IsLine :=
  .cons (Sign.isLine_symbol _) p.isLine_text

theorem isLine_termsText (parts : List Part) : (termsText parts).IsLine := by
  cases parts with
  | nil => exact isLine_nil
  | cons p rest =>
    exact .append (isLine_ite p.isLine_text p.isLine_signedText)
      (isLine_flatMap fun q _ => q.isLine_signedText)

/-- The written form of an expression is a line. -/
theorem isLine_expressionText (parts : List Part) : (expressionText parts).IsLine := by
  have hterms := isLine_termsText (parts.filter isWritten)
  rw [expressionText]
  cases testOf parts with
  | none => exact hterms
  | some t => exact isLine_ite (hterms.append (.cons (by decide) t.isLine_text)) t.isLine_text

theorem isLine_joinedDescription {parts : List Part} (h : ∀ p ∈ parts, p.description.IsLine) :
    (joinedDescription parts).IsLine := by
  refine IsLine.join (by decide) fun description hdescription => ?_
  obtain ⟨p, hp, rfl⟩ := List.mem_map.mp (List.mem_filter.mp hdescription).1
  exact h p hp

/-- What is read from tokens is described by words with one space between them. -/
theorem isLine_description_ofTokens (system : System) (tokens : List Token) :
    (ofTokens system tokens).description.IsLine := by
  obtain ⟨save, hread⟩ := exists_ofTokens_eq system tokens
  rw [hread]
  exact isLine_squeeze _

end Part

theorem Dice.isLine_description_ofTokens (system : System) (tokens : List Token) :
    ∀ p ∈ (ofTokens system tokens).parts, p.description.IsLine :=
  forall_mem_ofTokens (fun p => p.description.IsLine) isLine_nil
    (Part.isLine_description_ofTokens system) (fun _ h => h) tokens

namespace Roll

/-- Whoever described the parts of the roll stayed on one line. -/
def IsPlain (r : Roll) : Prop := ∀ p ∈ r.parts, p.part.description.IsLine

theorem isPlain_ofDice {ρ : Type} [Roller ρ] (system : System) {d : Dice}
    (h : ∀ p ∈ d.parts, p.description.IsLine) (r : ρ) : (ofDice system d r).1.IsPlain := by
  intro rolled hrolled
  obtain ⟨p, hp, r', rfl⟩ := Roller.exists_of_mem_each hrolled
  rw [PartRoll.part_roll]
  exact h p hp

/-- Raising a roll adds nothing to its description. -/
theorem IsPlain.raised {r : Roll} (h : r.IsPlain) (system : System) (method : CritMethod) :
    (r.raised system method).IsPlain := by
  cases method with
  | timesTwo | addMax =>
    exact List.forall_mem_append.mpr ⟨h, List.forall_mem_singleton.mpr isLine_nil⟩
  | rollTwice => exact List.forall_mem_map.mpr h

theorem IsPlain.isLine_description {r : Roll} (h : r.IsPlain) : r.description.IsLine :=
  Part.isLine_joinedDescription (List.forall_mem_map.mpr h)

end Roll

namespace Report

theorem isLine_modifier (n : Int) : (modifier n).IsLine :=
  isLine_ite (.append (by decide) (isLine_ofInt n))
    (isLine_ite (.append (by decide) (isLine_ofNat _)) isLine_nil)

theorem isLine_die (verbosity : Verbosity) (sides : Nat) (d : Die) :
    (die verbosity sides d).IsLine := by
  have hface := isLine_ofNat d.value
  exact isLine_ite (.append (.append (by decide) hface) (by decide))
    (isLine_ite (.append (.append (by decide) hface) (by decide)) hface)

theorem isLine_faces (verbosity : Verbosity) (p : PartRoll) : (faces verbosity p).IsLine :=
  IsLine.join (by decide) (List.forall_mem_map.mpr fun d _ => isLine_die verbosity _ d)

theorem isLine_term (verbosity : Verbosity) (p : PartRoll) : (term verbosity p).IsLine :=
  isLine_ite
    (.append (.cons (by decide) (isLine_faces verbosity p)) (.cons (by decide) (isLine_modifier _)))
    (isLine_ofNat _)

theorem isLine_terms (verbosity : Verbosity) (parts : List PartRoll) :
    (terms verbosity parts).IsLine := by
  cases parts with
  | nil => exact isLine_nil
  | cons p rest =>
    refine .append (.append (isLine_ite isLine_nil (Sign.isLine_symbol _)) (isLine_term _ p))
      (isLine_flatMap fun q _ => ?_)
    exact .cons (by decide) (.cons (Sign.isLine_symbol _) (.cons (by decide) (isLine_term _ q)))

theorem isLine_poolDie (d : Nat × Bool) : (poolDie d).IsLine :=
  isLine_ite (.append (.cons (by decide) (isLine_ofNat d.1)) (by decide)) (isLine_ofNat d.1)

theorem isLine_poolBreakdown (p : Pool) : (poolBreakdown p).IsLine := by
  have hdice : (join ", ".toList (p.sorted.map poolDie)).IsLine :=
    IsLine.join (by decide) (List.forall_mem_map.mpr fun d _ => isLine_poolDie d)
  exact .append (.append (.append (.append (.cons (by decide) hdice) (by decide)) (isLine_ofNat _))
    (by decide)) (isLine_modifier _)

theorem isLine_breakdownAt (s : System) (verbosity : Verbosity) (r : Roll) :
    (breakdownAt s verbosity r).IsLine := by
  cases s with
  | vampire => exact isLine_poolBreakdown _
  | generic | pathfinder => exact isLine_terms _ _

theorem isLine_glyph (g : Grade) : IsLine g.glyph.toList := by cases g <;> decide

theorem isLine_label (g : Grade) : IsLine g.label.toList := by cases g <;> decide

theorem isLine_breakdownPiece (s : System) (verbosity : Verbosity) (r : Roll) :
    (breakdownPiece s verbosity r).IsLine := by
  have hlabel : IsLine ("**".toList ++ r.grade.label.toList ++ "**".toList) :=
    .append (.append (by decide) (isLine_label _)) (by decide)
  have hline := isLine_breakdownAt s verbosity r
  rw [breakdownPiece]
  split
  · exact .append (by decide) hlabel
  · exact .append (.append (by decide) hlabel) (.cons (by decide) hline)
  · exact .append (by decide) hline
  · exact isLine_nil

/-- Without details, the report on a roll is a line. -/
theorem isLine_roll (s : System) {verbosity : Verbosity} (low : verbosity < .xl) {r : Roll}
    (plain : r.IsPlain) : (roll s verbosity r).IsLine := by
  have hdescription : (descriptionPiece r).IsLine :=
    isLine_ite isLine_nil (.append (.append (by decide) plain.isLine_description) (by decide))
  have hexpression : (expressionPiece r).IsLine :=
    isLine_ite isLine_nil (.append (by decide) (Part.isLine_expressionText _))
  have houtcome : (outcome r).IsLine :=
    .append (.append (.append (isLine_glyph _) (by decide)) (isLine_ofInt _)) (by decide)
  have hdetails : ¬Verbosity.xl ≤ verbosity := Nat.not_le.mpr low
  rw [roll, if_neg hdetails]
  refine isLine_ite (isLine_ite (isLine_glyph _) (isLine_ofInt _)) ?_
  exact .append (.append (.append (.append houtcome (isLine_ite hdescription isLine_nil))
    (isLine_ite hexpression isLine_nil))
    (isLine_ite (isLine_breakdownPiece s verbosity r) isLine_nil)) isLine_nil

end Report

end Tabletop
