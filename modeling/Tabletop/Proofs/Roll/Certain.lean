import Tabletop.Engine
import Tabletop.Proofs.Roll.Fixed

/-!
# Rolls without chance

A die with one side shows a 1, fixed faces are shown as they are, and where there is no die there
is nothing to show. What has nothing but these is rolled alike by all lawful rollers.
-/

namespace Tabletop

/-- If each item can come to one thing only, all items come to all of these. -/
theorem Roller.each_eq_map {α β ρ : Type} {f : α → ρ → β × ρ} {sound : ρ → Prop} {known : α → β}
    {items : List α} (keeps : ∀ a ∈ items, ∀ r, sound r → sound (f a r).2)
    (certain : ∀ a ∈ items, ∀ r, sound r → (f a r).1 = known a) {r : ρ} (h : sound r) :
    (each f items r).1 = items.map known := by
  induction items generalizing r with
  | nil => rfl
  | cons a rest ih =>
    obtain ⟨hsound, hkeeps⟩ := List.forall_mem_cons.mp keeps
    obtain ⟨hknown, hcertain⟩ := List.forall_mem_cons.mp certain
    rw [each_cons, hknown r h, ih hkeeps hcertain (hsound r h), List.map_cons]

namespace Part

def isCertain (p : Part) : Bool := p.fixed.isSome || p.count == 0 || p.sides ≤ 1

theorem isCertain_of_not_hasDice {p : Part} (h : p.hasDice = false) : p.isCertain = true := by
  simp only [hasDice, Bool.and_eq_false_iff, decide_eq_false_iff_not] at h
  simp only [isCertain, Bool.or_eq_true, beq_iff_eq, decide_eq_true_eq]
  omega

def certainFaces (p : Part) : List Nat :=
  p.fixed.getD (if p.sides = 0 then [] else .replicate p.count 1)

end Part

variable {ρ : Type} [Roller ρ] {sound : ρ → Prop}

theorem PartRoll.roll_of_isCertain (lawful : Roller.Lawful sound) {p : Part}
    (certain : p.isCertain = true) {r : ρ} (h : sound r) :
    (roll p r).1 = ofFaces p p.certainFaces := by
  rw [roll, Part.certainFaces]
  cases hfixed : p.fixed with
  | some faces => rfl
  | none =>
    dsimp only
    split
    · rfl
    · next hsides =>
      have hdice : p.count = 0 ∨ p.sides = 1 := by
        simp only [Part.isCertain, hfixed, Option.isSome_none, Bool.false_or, Bool.or_eq_true,
          beq_iff_eq, decide_eq_true_eq] at certain
        omega
      have hones : ∀ face ∈ (Roller.many p.count p.sides r).1, face = 1 := by
        intro face hface
        obtain hcount | hsides' := hdice
        · rw [List.length_eq_zero_iff.mp ((lawful.length h _ _).trans hcount)] at hface
          cases hface
        · have := lawful.face h p.count (Nat.pos_of_ne_zero hsides) face hface
          omega
      exact congrArg (ofFaces p) (List.eq_replicate_iff.mpr ⟨lawful.length h _ _, hones⟩)

theorem Roll.ofDice_of_isCertain (lawful : Roller.Lawful sound) (system : System) {d : Dice}
    (certain : ∀ p ∈ d.parts, p.isCertain = true) {r : ρ} (h : sound r) :
    (ofDice system d r).1 =
      ofParts system (d.parts.map fun p => PartRoll.ofFaces p p.certainFaces) := by
  have hparts : (Roller.each PartRoll.roll d.parts r).1 =
      d.parts.map fun p => PartRoll.ofFaces p p.certainFaces :=
    Roller.each_eq_map (fun p _ _ => PartRoll.sound_roll lawful p)
      (fun p hp _ => PartRoll.roll_of_isCertain lawful (certain p hp)) h
  exact congrArg (ofParts system) hparts

theorem GroupRoll.ofGroup_of_isCertain (lawful : Roller.Lawful sound) (system : System) {g : Group}
    (certain : ∀ d ∈ g.dice, ∀ p ∈ d.parts, p.isCertain = true) {r : ρ} (h : sound r) :
    (ofGroup system g r).1 =
      finished system ⟨g.dice.map fun d =>
        Roll.ofParts system (d.parts.map fun p => PartRoll.ofFaces p p.certainFaces),
        g.verbosity, g.critMethod⟩ := by
  have hrolls : (Roller.each (Roll.ofDice system) g.dice r).1 = g.dice.map fun d =>
      Roll.ofParts system (d.parts.map fun p => PartRoll.ofFaces p p.certainFaces) :=
    Roller.each_eq_map (fun d _ _ => Roll.sound_ofDice lawful system d)
      (fun d hd _ => Roll.ofDice_of_isCertain lawful system (certain d hd)) h
  exact congrArg (fun rolls => finished system ⟨rolls, g.verbosity, g.critMethod⟩) hrolls

namespace Engine

/-- Nothing that a text asks for is left to chance. -/
def isCertain (e : Engine) (text : Text) : Bool :=
  (e.parse text).dice.all fun d => d.parts.all Part.isCertain

theorem sound_evaluate (lawful : Roller.Lawful sound) (e : Engine) (text : Text) {r : ρ}
    (h : sound r) : sound (e.evaluate text r).2 :=
  Roller.sound_each (fun d _ _ => Roll.sound_ofDice lawful e.system d) h

/-- A text that leaves nothing to chance is rolled alike by all lawful rollers. -/
theorem evaluate_eq_of_isCertain {ρ' : Type} [Roller ρ'] {sound' : ρ' → Prop}
    (lawful : Roller.Lawful sound) (lawful' : Roller.Lawful sound') {e : Engine} {text : Text}
    (certain : e.isCertain text = true) {r : ρ} {r' : ρ'} (h : sound r) (h' : sound' r') :
    (e.evaluate text r).1 = (e.evaluate text r').1 := by
  have hcertain : ∀ d ∈ (e.parse text).dice, ∀ p ∈ d.parts, p.isCertain = true := by
    simpa only [isCertain, List.all_eq_true] using certain
  have hroll : (e.roll (e.parse text) r).1 = (e.roll (e.parse text) r').1 :=
    (GroupRoll.ofGroup_of_isCertain lawful e.system hcertain h).trans
      (GroupRoll.ofGroup_of_isCertain lawful' e.system hcertain h').symm
  exact congrArg (fun g => Evaluation.mk g (e.report g)) hroll

end Engine

end Tabletop
