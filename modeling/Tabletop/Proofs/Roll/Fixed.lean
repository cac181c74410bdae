import Tabletop.Proofs.Part.Limits
import Tabletop.Proofs.Roll.Lawful
import Tabletop.Roll.Basic

/-!
# Fixed faces

Fixed faces fit a part if there is one for each die and the die has it. No step that builds a part
makes them unfit. Turning a test into a test of a d20 does: it gives the part one die and leaves
the fixed faces of no dice in place, and the die is then not rolled. Fixed faces fit in all other
expressions, and an expression is rolled in full exactly if its fixed faces fit.
-/

namespace Tabletop

namespace Part

/-- The fixed faces, if there are any, are one for each die and faces of the die. -/
def Fits (p : Part) : Prop :=
  ∀ faces ∈ p.fixed, faces.length = p.count ∧ ∀ face ∈ faces, 1 ≤ face ∧ face ≤ p.sides

theorem fits_of_fixed_eq_none {p : Part} (h : p.fixed = none) : p.Fits := by
  simp [Fits, h]

/-- Whether faces fit depends on the dice alone. -/
theorem Fits.of_dice_eq {p q : Part} (h : p.Fits) (count : q.count = p.count)
    (sides : q.sides = p.sides) (fixed : q.fixed = p.fixed) : q.Fits := by
  rw [Fits, fixed, count, sides]
  exact h

theorem fits_of_fix {p q : Part} {faces : List Nat} (h : p.fix faces = .ok q) : q.Fits := by
  obtain ⟨hcount, hrange, rfl⟩ := fix_eq_ok_iff.mp h
  intro given hgiven
  cases hgiven
  exact ⟨hcount, hrange⟩

theorem fits_of_dice {count sides : Int} {q : Part} (h : dice count sides = .ok q) : q.Fits := by
  obtain ⟨-, -, -, rfl⟩ := dice_eq_ok_iff.mp h
  exact fits_of_fixed_eq_none rfl

/-- A step leaves fixed faces alone, does away with them, or puts faces in their place that fit. -/
theorem Step.fits_apply (s : Step) {p q : Part} (hq : s.apply p = .ok q) (h : p.Fits) : q.Fits := by
  cases s with
  | dice count sides => exact fits_of_dice hq
  | fixed faces => exact fits_of_fix hq
  | empty | flat =>
    cases hq
    exact fits_of_fixed_eq_none rfl
  | _ =>
    cases hq
    exact h.of_dice_eq rfl rfl rfl

theorem fits_build (steps : List Step) : (build steps).Fits :=
  build_induction Fits (fits_of_fixed_eq_none rfl) Step.fits_apply steps

end Part

namespace PartRoll

/-- There is a face for every die, each of them a face of the die, and fixed faces are shown. -/
def IsFull (p : PartRoll) : Prop :=
  p.faces.length = p.part.count ∧ (∀ face ∈ p.faces, 1 ≤ face ∧ face ≤ p.part.sides) ∧
    ∀ faces ∈ p.part.fixed, p.faces = faces

variable {ρ : Type} [Roller ρ] {sound : ρ → Prop}

theorem sound_roll (lawful : Roller.Lawful sound) (p : Part) {r : ρ} (h : sound r) :
    sound (roll p r).2 := by
  rw [roll]
  split
  · exact h
  · split
    · exact h
    · next hsides => exact lawful.next h p.count (Nat.pos_of_ne_zero hsides)

/-- A part with sides is rolled in full exactly if its fixed faces fit. -/
theorem isFull_roll_iff (lawful : Roller.Lawful sound) {p : Part} (hsides : 0 < p.sides) {r : ρ}
    (h : sound r) : (roll p r).1.IsFull ↔ p.Fits := by
  cases hfixed : p.fixed with
  | none =>
    have hroll : (roll p r).1 = ofFaces p (Roller.many p.count p.sides r).1 := by
      simp [roll, hfixed, hsides.ne']
    refine iff_of_true ?_ (Part.fits_of_fixed_eq_none hfixed)
    rw [hroll, IsFull, faces_ofFaces, part_ofFaces, hfixed]
    exact ⟨lawful.length h _ _, lawful.face h _ hsides, by simp⟩
  | some faces =>
    have hroll : (roll p r).1 = ofFaces p faces := by simp [roll, hfixed]
    rw [hroll, IsFull, faces_ofFaces, part_ofFaces, hfixed, Part.Fits, hfixed]
    simp

end PartRoll

theorem Roll.sound_ofDice {ρ : Type} [Roller ρ] {sound : ρ → Prop} (lawful : Roller.Lawful sound)
    (system : System) (d : Dice) {r : ρ} (h : sound r) : sound (ofDice system d r).2 :=
  Roller.sound_each (fun p _ _ hr => PartRoll.sound_roll lawful p hr) h

namespace Dice

/-- Fixed faces stay those of the dice that they were fixed for: no part becomes a d20, or the one
that does has no fixed faces. -/
def keepsFixed (parts : List Part) : Bool :=
  parts.any (fun p => 0 < p.sides) ||
    (parts.find? fun p => p.test.isSome).all fun p => p.fixed.isNone

/-- A part without sides keeps its fixed faces fit as a d20 only if there are none, not even an
empty list of them. -/
theorem fits_onD20_iff {p : Part} (h : p.Fits) (hsides : p.sides = 0) :
    (onD20 p).Fits ↔ p.fixed.isNone := by
  cases hfixed : p.fixed with
  | none => exact iff_of_true (Part.fits_of_fixed_eq_none hfixed) rfl
  | some faces =>
    refine iff_of_false (fun hfits => ?_) (by simp)
    have hone : faces.length = 1 := (hfits faces hfixed).1
    obtain ⟨face, rfl⟩ := List.length_eq_one_iff.mp hone
    have hface := (h [face] hfixed).2 face List.mem_cons_self
    omega

theorem forall_fits_testOnD20_iff {parts : List Part} (h : ∀ p ∈ parts, p.Fits)
    (hsides : ∀ p ∈ parts, p.sides = 0) :
    (∀ p ∈ testOnD20 parts, p.Fits) ↔
      (parts.find? fun p => p.test.isSome).all fun p => p.fixed.isNone := by
  induction parts with
  | nil => simp [testOnD20]
  | cons p rest ih =>
    rw [List.forall_mem_cons] at h hsides
    by_cases htest : p.test.isSome
    · rw [testOnD20, if_pos htest, List.forall_mem_cons, fits_onD20_iff h.1 hsides.1,
        List.find?_cons, htest]
      exact and_iff_left h.2
    · rw [testOnD20, if_neg htest, List.forall_mem_cons, ih h.2 hsides.2,
        List.find?_cons, Bool.eq_false_of_not_eq_true htest]
      exact and_iff_right h.1

/-- The fixed faces of an expression fit exactly if they stay those of the dice that they were
fixed for. -/
theorem forall_fits_normalized_iff {parts : List Part} (h : ∀ p ∈ parts, p.Fits) :
    (∀ p ∈ (normalized parts).parts, p.Fits) ↔ keepsFixed parts := by
  rw [normalized, keepsFixed]
  cases hany : parts.any fun p => 0 < p.sides with
  | true => simpa using h
  | false =>
    have hsides : ∀ p ∈ parts, p.sides = 0 := by simpa using hany
    simpa using forall_fits_testOnD20_iff h hsides

/-- An expression and the parts that it was asked for with: parts that were built step by step, or
the parts that were read from tokens. -/
inductive IsDefined : List Part → Dice → Prop
  | ofParts {recipes : List (List Part.Step)} {d : Dice}
    (h : Dice.ofParts (recipes.map Part.build) = .ok d) : IsDefined (recipes.map Part.build) d
  | single (recipe : List Part.Step) :
    IsDefined [Part.build recipe] (Dice.single (Part.build recipe))
  | ofTokens (system : System) (tokens : List Token) :
    IsDefined ((Token.partRuns tokens).map (Part.ofTokens system)) (Dice.ofTokens system tokens)

/-- Normalizing changes no part that has no sides afterwards. -/
theorem fits_of_mem_normalized {parts : List Part} (h : ∀ p ∈ parts, p.Fits) {p : Part}
    (hp : p ∈ (normalized parts).parts) (hsides : p.sides = 0) : p.Fits := by
  have hall : ∀ p ∈ (normalized parts).parts, p.sides = 0 → p.Fits :=
    forall_mem_normalized (fun p hp _ => h p hp) fun p _ hsides => absurd hsides (by simp [onD20])
  exact hall p hp hsides

/-- Whatever was asked for is normalized; the fixed faces that it was asked for with fit, and the
dice keep within their limits. -/
theorem IsDefined.exists_normalized {parts : List Part} {d : Dice} (h : IsDefined parts d) :
    ∃ given, d = normalized given ∧ (∀ p ∈ given, p.Fits) ∧ (∀ p ∈ given, p.IsLimited) ∧
      keepsFixed given = keepsFixed parts := by
  cases h with
  | @ofParts recipes d h =>
    rw [Dice.ofParts] at h
    split at h
    · cases h
    · cases h
      exact ⟨_, rfl, List.forall_mem_map.mpr fun recipe _ => Part.fits_build recipe,
        List.forall_mem_map.mpr fun recipe _ => Part.isLimited_build recipe, rfl⟩
  | single recipe =>
    exact ⟨_, rfl, List.forall_mem_singleton.mpr (Part.fits_build recipe),
      List.forall_mem_singleton.mpr (Part.isLimited_build recipe), rfl⟩
  | ofTokens system tokens =>
    rw [Dice.ofTokens]
    split
    · next hruns =>
      refine ⟨_, rfl, List.forall_mem_singleton.mpr (Part.fits_of_fixed_eq_none rfl),
        List.forall_mem_singleton.mpr Part.isLimited_empty, ?_⟩
      rw [hruns]
      rfl
    · exact ⟨_, rfl, List.forall_mem_map.mpr fun run _ =>
        Part.fits_of_fixed_eq_none (Part.fixed_ofTokens system run),
        List.forall_mem_map.mpr fun run _ => Part.isLimited_ofTokens system run, rfl⟩

/-- The dice of an expression keep within their limits. -/
theorem IsDefined.isLimited {parts : List Part} {d : Dice} (h : IsDefined parts d) :
    ∀ p ∈ d.parts, p.IsLimited := by
  obtain ⟨given, rfl, -, hlimited, -⟩ := h.exists_normalized
  exact forall_mem_normalized hlimited fun p _ => isLimited_onD20 p

/-- An expression is rolled in full exactly if its fixed faces fit. -/
theorem forall_isFull_iff {ρ : Type} [Roller ρ] {sound : ρ → Prop} (lawful : Roller.Lawful sound)
    {d : Dice} (hfits : ∀ p ∈ d.parts, p.sides = 0 → p.Fits) (system : System) {r : ρ}
    (h : sound r) :
    (∀ p ∈ (Roll.ofDice system d r).1.parts, 0 < p.part.sides → p.IsFull) ↔
      ∀ p ∈ d.parts, p.Fits := by
  refine Roller.forall_mem_each (fun p _ r hr => PartRoll.sound_roll lawful p hr)
    (fun p hp r hr => ?_) h
  rw [PartRoll.part_roll]
  cases hsides : p.sides with
  | zero => exact iff_of_true (by simp) (hfits p hp hsides)
  | succ n =>
    have hpos : 0 < p.sides := by omega
    rw [PartRoll.isFull_roll_iff lawful hpos hr]
    simp

/-- Fixed faces survive into an expression and into its rolls exactly if they stay those of the
dice that they were fixed for: no part becomes a d20, or the one that does has no fixed faces. -/
theorem fits_iff_keepsFixed {parts : List Part} {d : Dice} (defined : IsDefined parts d) :
    ((∀ p ∈ d.parts, p.Fits) ↔ keepsFixed parts) ∧
      ∀ {ρ : Type} [Roller ρ] {sound : ρ → Prop}, Roller.Lawful sound → ∀ r, sound r →
        ∀ system, ((∀ p ∈ (Roll.ofDice system d r).1.parts, 0 < p.part.sides → p.IsFull) ↔
          keepsFixed parts) := by
  obtain ⟨given, rfl, hfits, -, hkeeps⟩ := defined.exists_normalized
  rw [← hkeeps, ← forall_fits_normalized_iff hfits]
  refine ⟨Iff.rfl, fun lawful r h system => ?_⟩
  exact forall_isFull_iff lawful (fun p hp => fits_of_mem_normalized hfits hp) system h

/-- Fixed dice beside a tested number. -/
theorem fits_iff_keepsFixed_fixed_pair :
    let recipes : List (List Part.Step) :=
      [[.dice 2 6, .fixed [3, 4], .modifier 1], [.flat .minus 2, .test ⟨.dc, .ge, 5, false⟩]]
    let parts := recipes.map Part.build
    let s : Script := ⟨[1], 0⟩
    (IsDefined parts ⟨parts⟩ ∧ Roller.Lawful (fun _ : Script => True) ∧ keepsFixed parts) ∧
      (∀ p ∈ parts, p.Fits) ∧
      ∀ p ∈ (Roll.ofDice .generic ⟨parts⟩ s).1.parts, 0 < p.part.sides → p.IsFull := by
  intro recipes parts s
  have accepted : Dice.ofParts (recipes.map Part.build) = .ok ⟨parts⟩ := rfl
  have defined : IsDefined parts ⟨parts⟩ := .ofParts accepted
  have keeps : keepsFixed parts := rfl
  obtain ⟨hfits, hrolled⟩ := fits_iff_keepsFixed defined
  exact ⟨⟨defined, Script.lawful, keeps⟩, hfits.mpr keeps,
    (hrolled Script.lawful s trivial .generic).mpr keeps⟩

/-- The fixed faces of no dice and a test make a d20 that is never rolled. -/
theorem fits_iff_keepsFixed_test_alone :
    let recipe : List Part.Step := [.fixed [], .test ⟨.dc, .ge, 15, false⟩]
    let d := Dice.single (Part.build recipe)
    let s : Script := ⟨[7], 0⟩
    IsDefined [Part.build recipe] d ∧
      d.parts.map (fun p => (p.count, p.sides, p.fixed)) = [(1, 20, some [])] ∧
      (Roll.ofDice .generic d s).1.parts.map PartRoll.faces = [[]] :=
  ⟨.single _, by decide, by decide⟩

end Dice

end Tabletop
