import Tabletop.Proofs.Part.Bounds
import Tabletop.Proofs.Token.Clash

/-!
# Nothing is overwritten

A part is read token by token, and each token of dice, of a modifier or of a test writes into the
part. The tokens of a run do not clash, so what one of them wrote is still there in the end. Only
the sign of a die without sides gives way to the sign of the number behind it.
-/

namespace Tabletop

namespace Token

def number? (t : Token) : Option Int := (t.capture 2).bind Decimal.readTotal?

/-- The tokens around one of a list, apart from it. -/
theorem exists_append_of_pairwise {R : Token → Token → Prop} {run : List Token}
    (apart : run.Pairwise R) {t : Token} (ht : t ∈ run) :
    ∃ before after, run = before ++ t :: after ∧ (∀ u ∈ before, R u t) ∧ ∀ u ∈ after, R t u := by
  obtain ⟨before, after, rfl⟩ := List.append_of_mem ht
  obtain ⟨-, hafter, hbefore⟩ := List.pairwise_append.mp apart
  exact ⟨before, after, rfl, fun u hu => hbefore u hu t List.mem_cons_self,
    (List.pairwise_cons.mp hafter).1⟩

end Token

namespace Part

/-- Both parts roll the same dice and keep the same of them. -/
structure SameDice (p q : Part) : Prop where
  count : p.count = q.count
  sides : p.sides = q.sides
  dropKeep : p.dropKeep = q.dropKeep

/-- The part has everything that the tokens of its run say of dice, of a modifier and of a test. -/
structure Keeps (p : Part) (run : List Token) : Prop where
  dice : ∀ t ∈ run, t.kind = .dice → p.SameDice (empty.withDice t)
  /-- Dice keep their sign, but where there are no sides a number brings its own. -/
  sign : ∀ t ∈ run, t.kind = .dice →
    (p.sides = 0 → ∀ u ∈ run, u.kind = .modifier → u.number? = none) →
    p.sign = Sign.ofCapture (t.capture 1)
  modifier : ∀ t ∈ run, t.kind = .modifier → ∀ n, t.number? = some n →
    p.modifier = (if p.sides ≠ 0 ∧ Sign.ofCapture (t.capture 1) = .minus then -n else n) ∧
      (p.sides = 0 → p.sign = Sign.ofCapture (t.capture 1))
  test : ∀ t ∈ run, t.kind = .test → ∀ test, Test.ofToken? t = some test → p.test = some test

/-- What a token that makes one part into another leaves alone: each property is written only by
the tokens that say something of it. -/
structure LeavesAlone (t : Token) (p q : Part) : Prop where
  dice : t.kind ≠ .dice → q.SameDice p
  sign : t.kind ≠ .dice → (t.kind = .modifier → p.sides = 0 → t.number? = none) → q.sign = p.sign
  modifier : t.kind ≠ .modifier → q.modifier = p.modifier
  test : t.kind ≠ .test → q.test = p.test

variable {system : System}

theorem SameDice.refl (p : Part) : p.SameDice p := ⟨rfl, rfl, rfl⟩

theorem SameDice.trans {p q r : Part} (h : p.SameDice q) (h' : q.SameDice r) : p.SameDice r :=
  ⟨h.count.trans h'.count, h.sides.trans h'.sides, h.dropKeep.trans h'.dropKeep⟩

/-- The only number that brings its own sign is one that can be read and finds no sides. -/
theorem sign_withModifier {p : Part} {t : Token} (h : p.sides = 0 → t.number? = none) :
    (p.withModifier t).sign = p.sign := by
  rw [withModifier]
  cases hn : (t.capture 2).bind Decimal.readTotal? with
  | none => rfl
  | some n =>
    have hsides : p.sides ≠ 0 := fun hsides => by simpa [Token.number?, hn] using h hsides
    simp only [if_neg hsides]
    split <;> rfl

theorem Draft.leavesAlone_add (system : System) (d : Draft) (t : Token) :
    LeavesAlone t d.part (d.add system t).part := by
  rcases d.part_add system t with hpart | ⟨hkind, hpart⟩ | ⟨hkind, hpart⟩ |
    ⟨test, hkind, -, hpart⟩ | habsorb
  · rw [hpart]
    exact ⟨fun _ => .refl _, fun _ _ => rfl, fun _ => rfl, fun _ => rfl⟩
  · rw [hpart]
    exact ⟨absurd hkind, absurd hkind, fun _ => rfl, fun _ => rfl⟩
  · obtain ⟨sign, modifier, h⟩ := d.part.exists_withModifier_eq t
    refine ⟨fun _ => ?_, fun _ hsign => ?_, absurd hkind, fun _ => ?_⟩
    · rw [hpart, h]
      exact ⟨rfl, rfl, rfl⟩
    · rw [hpart, sign_withModifier (hsign hkind)]
    · rw [hpart, h]
  · rw [hpart]
    exact ⟨fun _ => ⟨rfl, rfl, rfl⟩, fun _ _ => rfl, fun _ => rfl, absurd hkind⟩
  · obtain ⟨hunger, critThreshold, h⟩ := exists_absorb?_eq habsorb
    rw [h]
    exact ⟨fun _ => ⟨rfl, rfl, rfl⟩, fun _ _ => rfl, fun _ => rfl, fun _ => rfl⟩

namespace Draft

theorem part_add_of_dice {t : Token} (h : t.kind = .dice) (d : Draft) :
    (d.add system t).part = d.part.withDice t := by
  simp only [add, h]

theorem part_add_of_modifier {t : Token} (h : t.kind = .modifier) (d : Draft) :
    (d.add system t).part = d.part.withModifier t := by
  simp only [add, h]

theorem part_add_of_test {t : Token} (h : t.kind = .test) {test : Test}
    (read : Test.ofToken? t = some test) (d : Draft) :
    (d.add system t).part = { d.part with test := some test } := by
  simp only [add, h, read]

variable {tokens : List Token}

theorem sameDice_foldl (without : ∀ t ∈ tokens, t.kind ≠ .dice) (d : Draft) :
    (tokens.foldl (add system) d).part.SameDice d.part :=
  foldl_add_induction (fun p => p.SameDice d.part)
    (fun t ht e h => ((e.leavesAlone_add system t).dice (without t ht)).trans h) (.refl _)

theorem sign_foldl (without : ∀ t ∈ tokens, t.kind ≠ .dice) {d : Draft}
    (unread : d.part.sides = 0 → ∀ t ∈ tokens, t.kind = .modifier → t.number? = none) :
    (tokens.foldl (add system) d).part.sign = d.part.sign := by
  refine (foldl_add_induction (fun p => p.sides = d.part.sides ∧ p.sign = d.part.sign)
    (fun t ht e h => ?_) ⟨rfl, rfl⟩).2
  obtain ⟨hsides, hsign⟩ := h
  have halone := e.leavesAlone_add system t
  refine ⟨(halone.dice (without t ht)).sides.trans hsides,
    (halone.sign (without t ht) ?_).trans hsign⟩
  exact fun hkind hzero => unread (hsides ▸ hzero) t ht hkind

theorem modifier_foldl (system : System) (without : ∀ t ∈ tokens, t.kind ≠ .modifier) (d : Draft) :
    (tokens.foldl (add system) d).part.modifier = d.part.modifier :=
  foldl_add_induction (fun p => p.modifier = d.part.modifier)
    (fun t ht e h => ((e.leavesAlone_add system t).modifier (without t ht)).trans h) rfl

theorem test_foldl (without : ∀ t ∈ tokens, t.kind ≠ .test) (d : Draft) :
    (tokens.foldl (add system) d).part.test = d.part.test :=
  foldl_add_induction (fun p => p.test = d.part.test)
    (fun t ht e h => ((e.leavesAlone_add system t).test (without t ht)).trans h) rfl

end Draft

/-- What a readable number does to a part without a modifier so far. -/
theorem modifier_withModifier {p : Part} (alone : p.modifier = 0) {t : Token} {n : Int}
    (read : t.number? = some n) (flat : Sign.ofCapture (t.capture 1) = .times → p.sides = 0) :
    (p.withModifier t).modifier =
        (if p.sides ≠ 0 ∧ Sign.ofCapture (t.capture 1) = .minus then -n else n) ∧
      (p.sides = 0 → (p.withModifier t).sign = Sign.ofCapture (t.capture 1)) := by
  obtain ⟨_, -, hread⟩ := Option.bind_eq_some_iff.mp read
  obtain ⟨hnonneg, hle⟩ := readTotal?_bounds hread
  rw [withModifier, show (t.capture 2).bind Decimal.readTotal? = some n from read]
  by_cases hsides : p.sides = 0
  · simp [hsides]
  · simp only [if_neg hsides, Total.greatest] at hle ⊢
    refine ⟨?_, (absurd · hsides)⟩
    cases hsign : Sign.ofCapture (t.capture 1) with
    | plus =>
      simp only [Total.add, Total.clamp, Total.greatest, Total.least, alone, reduceCtorEq,
        and_false, ↓reduceIte]
      omega
    | minus =>
      simp only [Total.sub, Total.clamp, Total.greatest, Total.least, alone, ne_eq, hsides,
        not_false_eq_true, and_self, ↓reduceIte]
      omega
    | times => exact absurd (flat hsign) hsides

/-- A multiplier never finds dice in the part that it belongs to. -/
theorem sides_foldl_of_isMultiplier (system : System) {before : List Token} {t : Token}
    (apart : ∀ u ∈ before, ¬Token.PartClash u t) (ht : t.IsMultiplier) :
    (before.foldl (Draft.add system) ⟨empty, []⟩).part.sides = 0 := by
  refine (Draft.sameDice_foldl (fun u hu hkind => ?_) _).sides
  exact apart u hu (.inr (.inr ⟨hkind, ht⟩))

section

variable {run : List Token} {t : Token}

/-- The dice of a run stay as they were read, for no second die is in it. -/
theorem sameDice_of_apart (apart : run.Pairwise fun u t => ¬Token.PartClash u t) (ht : t ∈ run)
    (hkind : t.kind = .dice) :
    (run.foldl (Draft.add system) ⟨empty, []⟩).part.SameDice (empty.withDice t) := by
  obtain ⟨before, after, rfl, -, hafter⟩ := Token.exists_append_of_pairwise apart ht
  have without : ∀ u ∈ after, u.kind ≠ .dice := fun u hu h => hafter u hu (.inl ⟨.inl hkind, h⟩)
  rw [List.foldl_append, List.foldl_cons]
  refine (Draft.sameDice_foldl without _).trans ?_
  rw [Draft.part_add_of_dice hkind]
  exact ⟨rfl, rfl, rfl⟩

theorem sign_of_apart (apart : run.Pairwise fun u t => ¬Token.PartClash u t) (ht : t ∈ run)
    (hkind : t.kind = .dice) (unread : (run.foldl (Draft.add system) ⟨empty, []⟩).part.sides = 0 →
      ∀ u ∈ run, u.kind = .modifier → u.number? = none) :
    (run.foldl (Draft.add system) ⟨empty, []⟩).part.sign = Sign.ofCapture (t.capture 1) := by
  rw [(sameDice_of_apart apart ht hkind).sides] at unread
  obtain ⟨before, after, rfl, -, hafter⟩ := Token.exists_append_of_pairwise apart ht
  have without : ∀ u ∈ after, u.kind ≠ .dice := fun u hu h => hafter u hu (.inl ⟨.inl hkind, h⟩)
  rw [List.foldl_append, List.foldl_cons, Draft.sign_foldl without, Draft.part_add_of_dice hkind]
  · rfl
  · rw [Draft.part_add_of_dice hkind]
    exact fun hsides u hu => unread hsides u (by simp [hu])

/-- The number of a run stays as it was read: no second one is in it, and no dice behind it. -/
theorem modifier_of_apart (apart : run.Pairwise fun u t => ¬Token.PartClash u t) (ht : t ∈ run)
    (hkind : t.kind = .modifier) {n : Int} (hn : t.number? = some n) :
    let p := (run.foldl (Draft.add system) ⟨empty, []⟩).part
    p.modifier = (if p.sides ≠ 0 ∧ Sign.ofCapture (t.capture 1) = .minus then -n else n) ∧
      (p.sides = 0 → p.sign = Sign.ofCapture (t.capture 1)) := by
  obtain ⟨before, after, rfl, hbefore, hafter⟩ := Token.exists_append_of_pairwise apart ht
  have alone : ∀ u ∈ before, u.kind ≠ .modifier := fun u hu h =>
    hbefore u hu (.inr (.inl ⟨h, hkind⟩))
  have dice : ∀ u ∈ after, u.kind ≠ .dice := fun u hu h => hafter u hu (.inl ⟨.inr hkind, h⟩)
  have number : ∀ u ∈ after, u.kind ≠ .modifier := fun u hu h =>
    hafter u hu (.inr (.inl ⟨hkind, h⟩))
  simp only [List.foldl_append, List.foldl_cons, Draft.modifier_foldl system number,
    (Draft.sameDice_foldl dice _).sides,
    Draft.sign_foldl dice fun _ u hu h => absurd h (number u hu), Draft.part_add_of_modifier hkind]
  have hflat (times : Sign.ofCapture (t.capture 1) = .times) :=
    sides_foldl_of_isMultiplier system hbefore ⟨hkind, times⟩
  have hzero := Draft.modifier_foldl system alone ⟨empty, []⟩
  generalize (before.foldl (Draft.add system) ⟨empty, []⟩).part = p at hflat hzero ⊢
  obtain ⟨sign, modifier, hp⟩ := p.exists_withModifier_eq t
  rw [show (p.withModifier t).sides = p.sides by rw [hp]]
  exact modifier_withModifier hzero hn hflat

theorem test_of_tested (tested : run.Pairwise fun u t => ¬Token.RollClash u t) (ht : t ∈ run)
    (hkind : t.kind = .test) {test : Test} (hread : Test.ofToken? t = some test) :
    (run.foldl (Draft.add system) ⟨empty, []⟩).part.test = some test := by
  obtain ⟨before, after, rfl, -, hafter⟩ := Token.exists_append_of_pairwise tested ht
  have without : ∀ u ∈ after, u.kind ≠ .test := fun u hu h => hafter u hu (.inl ⟨hkind, h⟩)
  rw [List.foldl_append, List.foldl_cons, Draft.test_foldl without,
    Draft.part_add_of_test hkind hread]

end

/-- The part that is read from a run without clashes keeps what its tokens say. -/
theorem keeps_ofTokens {run : List Token} (apart : run.Pairwise fun u t => ¬Token.PartClash u t)
    (tested : run.Pairwise fun u t => ¬Token.RollClash u t) : (ofTokens system run).Keeps run := by
  have h : (run.foldl (Draft.add system) ⟨empty, []⟩).part.Keeps run :=
    { dice := fun t ht hkind => sameDice_of_apart apart ht hkind
      sign := fun t ht hkind unread => sign_of_apart apart ht hkind unread
      modifier := fun t ht hkind n hn => modifier_of_apart apart ht hkind hn
      test := fun t ht hkind test hread => test_of_tested tested ht hkind hread }
  -- The description and the last word of the system touch none of this.
  obtain ⟨save, hread⟩ := exists_ofTokens_eq system run
  rw [hread]
  refine ⟨fun t ht hkind => ?_, h.sign, h.modifier, h.test⟩
  obtain ⟨hcount, hsides, hrule⟩ := h.dice t ht hkind
  exact ⟨hcount, hsides, hrule⟩

/-- A test in a part was a test in its run. -/
theorem exists_test_of_tested {run : List Token} (tested : (ofTokens system run).test.isSome) :
    ∃ t ∈ run, t.kind = .test := by
  by_contra hnone
  have hwithout : ∀ t ∈ run, t.kind ≠ .test := by simpa using hnone
  have huntested : (run.foldl (Draft.add system) ⟨empty, []⟩).part.test = none :=
    Draft.test_foldl hwithout _
  obtain ⟨save, hread⟩ := exists_ofTokens_eq system run
  rw [hread] at tested
  simp [huntested] at tested

end Part

end Tabletop
