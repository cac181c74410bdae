import Tabletop.Proofs.Roll.Simple
import Tabletop.Roller.Words

/-!
# Lawful rollers

A roller is lawful if a series has as many faces as were asked for, each of them a face of the die.
A roller may have to be in a sound state for that, and then its state stays sound: a word of more
than 32 bits would stand for a face that the die does not have. Scripts are lawful in every state.
-/

namespace Tabletop

namespace Roller

/-- From a sound state a roller gives the faces that were asked for. -/
structure Lawful {ρ : Type} [Roller ρ] (sound : ρ → Prop) : Prop where
  length {r : ρ} (h : sound r) (count sides : Nat) : (many count sides r).1.length = count
  face {r : ρ} (h : sound r) (count : Nat) {sides : Nat} (hsides : 0 < sides) :
    ∀ face ∈ (many count sides r).1, 1 ≤ face ∧ face ≤ sides
  next {r : ρ} (h : sound r) (count : Nat) {sides : Nat} (hsides : 0 < sides) :
    sound (many count sides r).2

variable {α β ρ : Type} {f : α → ρ → β × ρ} {sound : ρ → Prop} {items : List α} {r : ρ}

/-- What every step keeps holds of the state after all of them. -/
theorem sound_each (keeps : ∀ a ∈ items, ∀ r, sound r → sound (f a r).2) (h : sound r) :
    sound (each f items r).2 := by
  induction items generalizing r with
  | nil => exact h
  | cons a rest ih =>
    have hfirst := keeps a List.mem_cons_self r h
    exact ih (fun b hb => keeps b (List.mem_cons_of_mem a hb)) hfirst

/-- Something holds of all results if it holds of the items that they come from. -/
theorem forall_mem_each {p : α → Prop} {q : β → Prop}
    (keeps : ∀ a ∈ items, ∀ r, sound r → sound (f a r).2)
    (holds : ∀ a ∈ items, ∀ r, sound r → (q (f a r).1 ↔ p a)) (h : sound r) :
    (∀ b ∈ (each f items r).1, q b) ↔ ∀ a ∈ items, p a := by
  induction items generalizing r with
  | nil => simp [each]
  | cons a rest ih =>
    have hrest := ih (fun b hb => keeps b (List.mem_cons_of_mem a hb))
      (fun b hb => holds b (List.mem_cons_of_mem a hb)) (keeps a List.mem_cons_self r h)
    rw [each_cons, List.forall_mem_cons, List.forall_mem_cons, holds a List.mem_cons_self r h,
      hrest]

theorem forall_mem_each_of {q : β → Prop} (keeps : ∀ a ∈ items, ∀ r, sound r → sound (f a r).2)
    (holds : ∀ a ∈ items, ∀ r, sound r → q (f a r).1) (h : sound r) :
    ∀ b ∈ (each f items r).1, q b :=
  (forall_mem_each (p := fun _ => True) keeps
    (fun a ha r hr => iff_true_intro (holds a ha r hr)) h).mpr fun _ _ => trivial

/-- A roller that draws every die of a series by itself is lawful if one draw is. -/
theorem Lawful.ofRepeated [Roller ρ] (draw : Nat → ρ → Nat × ρ)
    (hmany : ∀ count sides r, many count sides r = repeated (draw sides) count r)
    (face : ∀ {sides : Nat}, 0 < sides → ∀ r, sound r →
      1 ≤ (draw sides r).1 ∧ (draw sides r).1 ≤ sides)
    (next : ∀ {sides : Nat}, 0 < sides → ∀ r, sound r → sound (draw sides r).2) :
    Lawful sound where
  length h count sides := by rw [hmany, length_repeated]
  face h count sides hsides := by
    rw [hmany, repeated]
    exact forall_mem_each_of (fun _ _ => next hsides) (fun _ _ => face hsides) h
  next h count sides hsides := by
    rw [hmany, repeated]
    exact sound_each (fun _ _ => next hsides) h

end Roller

theorem Script.lawful : Roller.Lawful fun _ : Script => True :=
  .ofRepeated Script.next (fun _ _ _ => rfl) (fun h s _ => Script.next_bounds h s)
    fun _ _ _ => trivial

namespace Words

def IsSound (w : Words) : Prop := ∀ word ∈ w.words, word < wordCount

theorem spread_one (high : Nat) : spread 1 high = high := Nat.add_sub_cancel high 1

/-- The high half of a product is less than the factor that is no word. -/
theorem choice_bounds {size word : Nat} (pos : 0 < size) (h : word < wordCount) (low : Nat) :
    low ≤ choice low size word ∧ choice low size word < low + size := by
  have hlt : word * size / wordCount < size :=
    Nat.div_lt_of_lt_mul (Nat.mul_lt_mul_of_pos_right h pos)
  exact ⟨Nat.le_add_right _ _, Nat.add_lt_add_left hlt low⟩

/-- A draw gives one of the numbers and leaves words that were there before. -/
theorem drawFrom_spec {size : Nat} (pos : 0 < size) (zone low : Nat) {words : List Nat}
    (h : ∀ word ∈ words, word < wordCount) (taken : Nat) :
    let drawn := drawFrom zone low size words taken
    (low ≤ drawn.1 ∧ drawn.1 < low + size) ∧ drawn.2.IsSound := by
  induction words generalizing taken with
  | nil => exact ⟨choice_bounds pos (by decide) low, by simp [drawFrom, IsSound]⟩
  | cons word rest ih =>
    obtain ⟨hword, hrest⟩ := List.forall_mem_cons.mp h
    rw [drawFrom]
    split
    · exact ⟨choice_bounds pos hword low, hrest⟩
    · exact ih hrest (taken + 1)

/-- A die shows one of its faces. -/
theorem between_one_spec {sides : Nat} (hsides : 0 < sides) (zone : Nat → Nat) {w : Words}
    (h : w.IsSound) :
    let drawn := between zone 1 sides w
    (1 ≤ drawn.1 ∧ drawn.1 ≤ sides) ∧ drawn.2.IsSound := by
  intro drawn
  have hpos : 0 < spread 1 sides := (spread_one sides).symm ▸ hsides
  have hspec := drawFrom_spec hpos (zone (spread 1 sides)) 1 h w.taken
  have hle : drawn.1 < 1 + sides := spread_one sides ▸ hspec.1.2
  exact ⟨⟨hspec.1.1, by omega⟩, hspec.2⟩

theorem lawful : Roller.Lawful IsSound :=
  .ofRepeated (fun sides => between seriesZone 1 sides) (fun _ _ _ => rfl)
    (fun hsides _ h => (between_one_spec hsides seriesZone h).1)
    fun hsides _ h => (between_one_spec hsides seriesZone h).2

end Words

end Tabletop
