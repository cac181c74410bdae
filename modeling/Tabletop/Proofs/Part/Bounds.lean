import Tabletop.Proofs.Part.Limits
import Tabletop.Proofs.Token.Fits
import Tabletop.Proofs.Written.Drafts

/-!
# Bounds of what is read

Whatever the tokens say, the parts that plain dice are read as keep within bounds: every number is
one that can be written down and read again, a part without sides is not negative, and an
expression with a test has dice.
-/

namespace Tabletop

open Token

/-- Only a spelled operator compares by anything else than "at least". -/
theorem Target.ofSpelling_bounds (raw : Text) :
    (ofSpelling raw).1 ≠ .operator → (ofSpelling raw).2 = .ge := by
  have table : ∀ a ∈ spellings, a.2.1 ≠ .operator → a.2.2 = .ge := by decide
  have found (s : Text) : ((spellings.lookup s).getD (.operator, .ge)).1 ≠ .operator →
      ((spellings.lookup s).getD (.operator, .ge)).2 = .ge := by
    cases hs : spellings.lookup s with
    | none => simp
    | some named =>
      obtain ⟨before, after, hspellings, -⟩ := List.lookup_eq_some_iff.mp hs
      exact table (s, named) (by simp [hspellings])
  cases hvs : "vs".toList.isPrefixOf? (Text.lower (Text.trim raw)) with
  | none =>
    simp only [ofSpelling, hvs, Bool.false_eq_true, false_and, ↓reduceIte]
    exact found _
  | some rest =>
    simp only [ofSpelling, hvs, true_and]
    split
    · simp
    · exact found _

/-- A test that was read and is not hidden has a written form that tells everything about it. -/
theorem Test.isCanonical_of_ofToken? {t : Token} {test : Test} (h : ofToken? t = some test)
    (shown : test.hidden = false) : test.IsCanonical := by
  unfold ofToken? at h
  cases hspelling : t.capture 1 with
  | none => simp [hspelling] at h
  | some raw =>
    cases hwritten : t.capture 2 with
    | none => simp [hspelling, hwritten] at h
    | some written =>
      simp only [hspelling, hwritten, Option.bind_eq_bind, Option.bind_some,
        Option.bind_eq_some_iff, Option.pure_def, Option.some.injEq] at h
      obtain ⟨value, hvalue, rfl⟩ := h
      obtain ⟨n, hn, rfl⟩ := Option.map_eq_some_iff.mp hvalue
      have hle : n ≤ Total.greatest.toNat := Decimal.le_of_readUpTo? hn
      simp only [Total.greatest] at hle
      refine ⟨shown, ⟨Int.natCast_nonneg n, ?_⟩, Target.ofSpelling_bounds raw⟩
      simp only [Total.greatest, Int.ofNat_eq_natCast]
      omega

namespace Part

/-- What is known of a part that plain dice are read as. -/
structure IsRead (p : Part) : Prop where
  count : p.count ≤ maxDice
  sides : p.sides ≤ maxCount
  rule : ∀ rule ∈ p.dropKeep, rule.number ≤ maxCount
  modifier : -Total.greatest ≤ p.modifier ∧ p.modifier ≤ Total.greatest
  flat : p.sides = 0 → 0 ≤ p.modifier
  plain : p.fixed = none ∧ p.hunger = none ∧ p.critThreshold = none
  test : ∀ test ∈ p.test, test.hidden = false → test.IsCanonical

theorem isRead_empty : empty.IsRead where
  count := Nat.zero_le _
  sides := Nat.zero_le _
  rule := by simp [empty]
  modifier := by decide
  flat _ := Int.le_refl 0
  plain := ⟨rfl, rfl, rfl⟩
  test := by simp [empty]

theorem IsRead.describe {p : Part} (h : p.IsRead) (description : Text) :
    { p with description }.IsRead :=
  ⟨h.count, h.sides, h.rule, h.modifier, h.flat, h.plain, h.test⟩

/-- Dice without a modifier so far. -/
theorem IsRead.withDice {p : Part} (h : p.IsRead) (alone : p.modifier = 0) (t : Token) :
    (p.withDice t).IsRead where
  count := (isLimited_withDice p t).count
  sides := (isLimited_withDice p t).sides
  rule := by
    intro rule hrule
    simp only [Part.withDice, Option.bind_eq_bind, Option.mem_def, Option.bind_eq_some_iff] at hrule
    obtain ⟨letter, -, number, hnumber, hrule⟩ := hrule
    have hsame : rule.number = number := by
      unfold DropKeep.ofCaptures? at hrule
      dsimp only at hrule
      split at hrule <;> cases hrule <;> rfl
    rw [hsame]
    exact count?_le hnumber
  modifier := h.modifier
  flat _ := Int.le_of_eq alone.symm
  plain := h.plain
  test := h.test

theorem readTotal?_bounds {s : Text} {n : Int} (h : Decimal.readTotal? s = some n) :
    0 ≤ n ∧ n ≤ Total.greatest := by
  obtain ⟨k, hk, rfl⟩ := Option.map_eq_some_iff.mp h
  have hle : k ≤ Total.greatest.toNat := Decimal.le_of_readUpTo? hk
  simp only [Total.greatest, Int.ofNat_eq_natCast] at *
  omega

/-- The first number behind dice, or a number alone. -/
theorem IsRead.withModifier {p : Part} (h : p.IsRead) (alone : p.modifier = 0) (t : Token) :
    (p.withModifier t).IsRead := by
  have replaced (sign : Sign) {m : Int} (range : -Total.greatest ≤ m ∧ m ≤ Total.greatest)
      (flat : p.sides = 0 → 0 ≤ m) : { p with sign, modifier := m }.IsRead :=
    ⟨h.count, h.sides, h.rule, range, flat, h.plain, h.test⟩
  rw [Part.withModifier]
  cases hvalue : (t.capture 2).bind Decimal.readTotal? with
  | none => exact h
  | some n =>
    obtain ⟨_, -, hread⟩ := Option.bind_eq_some_iff.mp hvalue
    obtain ⟨hnonneg, hle⟩ := readTotal?_bounds hread
    by_cases hsides : p.sides = 0
    · simp only [if_pos hsides]
      refine replaced _ ⟨?_, hle⟩ fun _ => hnonneg
      simp only [Total.greatest] at *
      omega
    · simp only [if_neg hsides]
      cases Sign.ofCapture (t.capture 1) with
      | plus =>
        refine replaced p.sign ?_ (absurd · hsides)
        simp only [Total.add, Total.clamp, alone, Total.greatest, Total.least] at *
        omega
      | minus =>
        refine replaced p.sign ?_ (absurd · hsides)
        simp only [Total.sub, Total.clamp, alone, Total.greatest, Total.least] at *
        omega
      | times => exact h

/-- A token that fits into the run of a part keeps the part within bounds. -/
theorem IsRead.add {d : Draft} (h : d.part.IsRead) {m : PartMemory}
    (alone : m.modifier = false → d.part.modifier = 0) {t : Token}
    (fits : partCutter.breaks m t = false) :
    (d.add .generic t).part.IsRead ∧
      ((partCutter.remember m t).modifier = false → (d.add .generic t).part.modifier = 0) := by
  rcases d.part_add .generic t with hpart | ⟨hkind, hpart⟩ | ⟨hkind, hpart⟩ |
    ⟨test, hkind, htest, hpart⟩ | habsorb
  · refine ⟨hpart ▸ h, fun hm => hpart ▸ alone ?_⟩
    cases hk : t.kind <;> simp_all [partCutter]
  -- Dice and numbers both end a run that has its number, so the part has none yet.
  · have hm : m.modifier = false := by
      simp only [partCutter, hkind, Bool.or_eq_false_iff] at fits
      exact fits.2
    exact ⟨hpart ▸ h.withDice (alone hm) t, fun _ => hpart ▸ alone hm⟩
  · have hm : m.modifier = false := by
      simp only [partCutter, hkind, Bool.or_eq_false_iff] at fits
      exact fits.1.1
    exact ⟨hpart ▸ h.withModifier (alone hm) t, by simp [partCutter, hkind]⟩
  · rw [hpart]
    refine ⟨⟨h.count, h.sides, h.rule, h.modifier, h.flat, h.plain, ?_⟩, fun hm => alone ?_⟩
    · rintro _ ⟨⟩
      exact Test.isCanonical_of_ofToken? htest
    · simpa [partCutter, hkind] using hm
  · simp [System.absorb?] at habsorb

theorem IsRead.foldl {tokens : List Token} {m : PartMemory} (fits : partCutter.Fits m tokens)
    {d : Draft} (h : d.part.IsRead) (alone : m.modifier = false → d.part.modifier = 0) :
    (tokens.foldl (Draft.add .generic) d).part.IsRead := by
  induction tokens generalizing m d with
  | nil => exact h
  | cons t rest ih =>
    obtain ⟨hpart, halone⟩ := h.add alone fits.1
    exact ih fits.2 hpart halone

/-- The part that a run is read as keeps within bounds. -/
theorem isRead_ofTokens {tokens : List Token} (fits : partCutter.Fits partCutter.fresh tokens) :
    (ofTokens .generic tokens).IsRead :=
  (IsRead.foldl (d := ⟨empty, []⟩) fits isRead_empty fun _ => rfl).describe _

end Part

namespace Dice

structure IsRead (d : Dice) : Prop where
  parts : ∀ p ∈ d.parts, p.IsRead
  tested : d.test?.isSome → ∃ p ∈ d.parts, 0 < p.sides

theorem isRead_onD20 {p : Part} (h : p.IsRead) : (onD20 p).IsRead where
  count := Nat.le_add_left 1 999
  sides := Nat.le_add_left 20 _
  rule := h.rule
  modifier := by
    have hrange := h.modifier
    simp only [onD20]
    split <;> omega
  flat := by simp [onD20]
  plain := h.plain
  test := h.test

theorem isRead_normalized {parts : List Part} (h : ∀ p ∈ parts, p.IsRead) :
    (normalized parts).IsRead :=
  ⟨forall_mem_normalized h fun p hp => isRead_onD20 (h p hp), exists_sides_of_tested⟩

/-- An expression keeps within bounds, whatever tokens it is read from. -/
theorem isRead_ofTokens (tokens : List Token) : (ofTokens .generic tokens).IsRead := by
  have hparts : ∀ p ∈ (partRuns tokens).map (Part.ofTokens .generic), p.IsRead := by
    intro p hp
    obtain ⟨run, hrun, rfl⟩ := List.mem_map.mp hp
    exact Part.isRead_ofTokens (Cutter.fits_of_mem_runs partCutter_fresh hrun)
  rw [ofTokens]
  split
  · exact isRead_normalized (by simpa using Part.isRead_empty)
  · rename_i parts hnonempty
    exact isRead_normalized hparts

end Dice

end Tabletop
