import Tabletop.Group
import Tabletop.Part.Step
import Tabletop.Proofs.Part.Reading

/-!
# Limits of what can be rolled

A part has at most a thousand dice, each with at most as many sides as a count can have. No step
that builds a part and no token goes beyond that, and an expression with a test always has dice.
-/

namespace Tabletop

namespace Part

/-- The part has no more dice, and none with more sides, than a part can have. -/
structure IsLimited (p : Part) : Prop where
  count : p.count ≤ maxDice
  sides : p.sides ≤ maxCount

theorem isLimited_empty : empty.IsLimited := ⟨Nat.zero_le _, Nat.zero_le _⟩

/-- Dice that can be defined are neither negative nor too many, and have no more sides than a die
can have. -/
theorem dice_eq_ok_iff {count sides : Int} {q : Part} :
    dice count sides = .ok q ↔ 0 ≤ sides ∧ 0 ≤ count ∧ count ≤ maxDice ∧
      q = { count := count.toNat, sides := min maxCount sides.toNat } := by
  rw [dice]
  split
  · next hsides => exact iff_of_false (by simp) fun h => by omega
  · split
    · next hcount => exact iff_of_false (by simp) fun h => by omega
    · split
      · next hmany => exact iff_of_false (by simp) fun h => by omega
      · next hsides hcount hmany =>
        rw [Except.ok.injEq, eq_comm, and_iff_right (Int.not_lt.mp hsides),
          and_iff_right (Int.not_lt.mp hcount), and_iff_right (Int.not_lt.mp hmany)]

theorem isLimited_of_dice {count sides : Int} {q : Part} (h : dice count sides = .ok q) :
    q.IsLimited := by
  obtain ⟨-, -, hcount, rfl⟩ := dice_eq_ok_iff.mp h
  exact ⟨Int.toNat_le.mpr hcount, Nat.min_le_left _ _⟩

/-- Faces that can be put in the place of a roll are one for each die and faces of the die. -/
theorem fix_eq_ok_iff {p q : Part} {faces : List Nat} :
    p.fix faces = .ok q ↔ faces.length = p.count ∧ (∀ face ∈ faces, 1 ≤ face ∧ face ≤ p.sides) ∧
      q = { p with fixed := some faces } := by
  have hrange : (faces.find? fun face => face == 0 || p.sides < face) = none ↔
      ∀ face ∈ faces, 1 ≤ face ∧ face ≤ p.sides := by
    simp only [List.find?_eq_none, Bool.or_eq_true, beq_iff_eq, decide_eq_true_eq, not_or,
      Nat.not_lt, Nat.one_le_iff_ne_zero, ne_eq]
  rw [fix]
  split
  · next hcount => exact iff_of_false (by simp) fun h => hcount h.1
  · next hcount =>
    rw [and_iff_right (Decidable.not_not.mp hcount), ← hrange]
    split
    · next hface => exact iff_of_false (by simp) fun h => by simp [hface] at h
    · next hnone => rw [Except.ok.injEq, eq_comm, and_iff_right hnone]

/-- What holds of the empty part and is kept by every step that does not fail holds of every part
that is built. -/
theorem build_induction (holds : Part → Prop) (empty : holds empty)
    (step : ∀ (s : Step) {p q : Part}, s.apply p = .ok q → holds p → holds q) (steps : List Step) :
    holds (build steps) := by
  have after (s : Step) (p : Part) (h : holds p) : holds (s.after p) := by
    rw [Step.after]
    split
    · next hq => exact step s hq h
    · exact h
  suffices ∀ p, holds p → holds (steps.foldl Step.after p) from this _ empty
  induction steps with
  | nil => exact fun p h => h
  | cons s rest ih => exact fun p h => ih (s.after p) (after s p h)

theorem Step.isLimited_apply (s : Step) {p q : Part} (hq : s.apply p = .ok q) (h : p.IsLimited) :
    q.IsLimited := by
  cases s with
  | dice count sides => exact isLimited_of_dice hq
  | fixed faces =>
    obtain ⟨-, -, rfl⟩ := fix_eq_ok_iff.mp hq
    exact ⟨h.count, h.sides⟩
  | empty | flat =>
    cases hq
    exact ⟨Nat.zero_le _, Nat.zero_le _⟩
  | _ =>
    cases hq
    exact ⟨h.count, h.sides⟩

theorem isLimited_build (steps : List Step) : (build steps).IsLimited :=
  build_induction IsLimited isLimited_empty Step.isLimited_apply steps

theorem count?_le {t : Token} {group n : Nat} (h : t.count? group = some n) : n ≤ maxCount := by
  obtain ⟨_, -, hread⟩ := Option.bind_eq_some_iff.mp h
  exact Decimal.le_of_readUpTo? hread

theorem isLimited_withDice (p : Part) (t : Token) : (p.withDice t).IsLimited where
  count := by
    simp only [withDice]
    cases t.capture 2 with
    | none => exact Nat.le_add_left 1 999
    | some _ =>
      cases hcount : (t.count? 2).filter (· ≤ maxDice) with
      | none => simp
      | some n => simpa using (Option.filter_eq_some_iff.mp hcount).2
  sides := by
    simp only [withDice]
    cases hsides : t.count? 3 with
    | none => simp
    | some n => simpa using count?_le hsides

theorem isLimited_ofTokens (system : System) (tokens : List Token) :
    (ofTokens system tokens).IsLimited := by
  refine ofTokens_induction IsLimited isLimited_empty (fun t _ _ p _ => isLimited_withDice p t)
    (fun t _ _ p h => ?_) (fun t _ _ test _ p h => ⟨h.count, h.sides⟩) (fun t _ p q hq h => ?_)
    (fun p description h => ?_)
  · obtain ⟨sign, modifier, hp⟩ := p.exists_withModifier_eq t
    rw [hp]
    exact ⟨h.count, h.sides⟩
  · obtain ⟨hunger, critThreshold, rfl⟩ := exists_absorb?_eq hq
    exact ⟨h.count, h.sides⟩
  · obtain ⟨save, hp⟩ := exists_finish_eq system { p with description }
    rw [hp]
    exact ⟨h.count, h.sides⟩

end Part

namespace Dice

theorem isLimited_onD20 (p : Part) : (onD20 p).IsLimited :=
  ⟨Nat.le_add_left 1 999, Nat.le_add_left 20 _⟩

/-- What holds of all parts and of those that are turned into a d20 holds of an expression. -/
theorem forall_mem_normalized {holds : Part → Prop} {parts : List Part}
    (h : ∀ p ∈ parts, holds p) (d20 : ∀ p ∈ parts, holds (onD20 p)) :
    ∀ p ∈ (normalized parts).parts, holds p := by
  have turned (parts : List Part) (h : ∀ p ∈ parts, holds p) (d20 : ∀ p ∈ parts, holds (onD20 p)) :
      ∀ p ∈ testOnD20 parts, holds p := by
    induction parts with
    | nil => exact h
    | cons p rest ih =>
      rw [List.forall_mem_cons] at h d20
      rw [testOnD20]
      split
      · exact List.forall_mem_cons.mpr ⟨d20.1, h.2⟩
      · exact List.forall_mem_cons.mpr ⟨h.1, ih h.2 d20.2⟩
  rw [normalized]
  split
  · exact h
  · exact turned parts h d20

/-- What does not look at dice is the same for the d20 that a tested part is turned into. -/
theorem map_normalized {β : Type} {f : Part → β} (h : ∀ p, f (onD20 p) = f p) (parts : List Part) :
    (normalized parts).parts.map f = parts.map f := by
  have turned (parts : List Part) : (testOnD20 parts).map f = parts.map f := by
    induction parts with
    | nil => rfl
    | cons p rest ih =>
      rw [testOnD20]
      split
      · rw [List.map_cons, List.map_cons, h]
      · rw [List.map_cons, List.map_cons, ih]
  rw [normalized]
  split
  · rfl
  · exact turned parts

/-- What holds of whatever is read as a part holds of the parts of an expression that is read. -/
theorem forall_mem_ofTokens {system : System} (holds : Part → Prop) (empty : holds .empty)
    (read : ∀ run, holds (Part.ofTokens system run)) (d20 : ∀ p, holds p → holds (onD20 p))
    (tokens : List Token) : ∀ p ∈ (ofTokens system tokens).parts, holds p := by
  have normal {parts : List Part} (h : ∀ p ∈ parts, holds p) :
      ∀ p ∈ (normalized parts).parts, holds p :=
    forall_mem_normalized h fun p hp => d20 p (h p hp)
  rw [ofTokens]
  split
  · exact normal (List.forall_mem_singleton.mpr empty)
  · exact normal (List.forall_mem_map.mpr fun run _ => read run)

/-- Nothing is fixed in an expression that was read. -/
theorem fixed_ofTokens (system : System) (tokens : List Token) :
    ∀ p ∈ (ofTokens system tokens).parts, p.fixed = none :=
  forall_mem_ofTokens (fun p => p.fixed = none) rfl (Part.fixed_ofTokens system) (fun _ h => h)
    tokens

/-- An expression with a test has dice. -/
theorem exists_sides_of_tested {parts : List Part} (tested : (normalized parts).test?.isSome) :
    ∃ p ∈ (normalized parts).parts, 0 < p.sides := by
  have turned (parts : List Part) (tested : (Part.testOf (testOnD20 parts)).isSome) :
      ∃ p ∈ testOnD20 parts, 0 < p.sides := by
    induction parts with
    | nil => simp [testOnD20, Part.testOf] at tested
    | cons p rest ih =>
      rw [testOnD20] at tested ⊢
      cases htest : p.test with
      | some test => exact ⟨onD20 p, by simp, by simp [onD20]⟩
      | none =>
        obtain ⟨q, hq, hsides⟩ := ih (by simpa [Part.testOf, htest] using tested)
        exact ⟨q, by simpa using .inr hq, hsides⟩
  rw [test?, normalized] at tested
  rw [normalized]
  split
  · next hany => simpa using hany
  · next hany => exact turned parts (by simpa [hany] using tested)

end Dice

end Tabletop
