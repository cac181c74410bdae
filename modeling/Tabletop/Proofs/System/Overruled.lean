import Tabletop.Proofs.Roll.Better

/-!
# Tests that are overruled

A grade says whether the test was passed, and under two of the game systems it says nothing else.
Under d20 rules the natural value of the first part with 20 sides can overrule the test. A natural 1
fails a test against an armor class and every saving throw, and a natural 20 passes a saving throw
that is not tested against an armor class. What was overruled is always graded as critical.
-/

namespace Tabletop

namespace Grade

theorem isSuccess_ofTest (t : Test) (total : Int) :
    (ofTest (some t) total).isSuccess = t.passes total := by
  rw [ofTest]
  cases t.passes total <;> rfl

end Grade

namespace PartRoll

variable {parts : List PartRoll}

theorem testOf_eq_none_iff : testOf parts = none ↔ ∀ p ∈ parts, p.part.test = none :=
  List.findSome?_eq_none_iff

/-- The first part with 20 sides shows a natural value. -/
def ShowsNatural (parts : List PartRoll) (natural : Nat) : Prop :=
  ∃ before d20 after, parts = before ++ d20 :: after ∧ (∀ p ∈ before, p.part.sides ≠ 20) ∧
    d20.part.sides = 20 ∧ d20.natural? = some natural

theorem naturalD20?_eq_some_iff {natural : Nat} :
    System.naturalD20? parts = some natural ↔ ShowsNatural parts natural := by
  rw [System.naturalD20?, Option.bind_eq_some_iff]
  constructor
  · rintro ⟨d20, hfirst, hnatural⟩
    obtain ⟨hsides, before, after, hparts, hbefore⟩ := List.find?_eq_some_iff_append.mp hfirst
    refine ⟨before, d20, after, hparts, fun p hp => ?_, by simpa using hsides, hnatural⟩
    simpa using hbefore p hp
  · rintro ⟨before, d20, after, hparts, hbefore, hsides, hnatural⟩
    refine ⟨d20, List.find?_eq_some_iff_append.mpr ⟨by simpa using hsides, before, after, hparts,
      fun p hp => ?_⟩, hnatural⟩
    simpa using hbefore p hp

def Saves (parts : List PartRoll) : Prop := ∃ p ∈ parts, p.part.save = true

/-- A natural 1 fails the test, whatever the total is. -/
def Fumbles (parts : List PartRoll) (t : Test) : Prop :=
  ShowsNatural parts 1 ∧ (t.target.isArmorClass = true ∨ Saves parts)

/-- A natural 20 passes the test, whatever the total is. -/
def Escapes (parts : List PartRoll) (t : Test) : Prop :=
  ShowsNatural parts 20 ∧ t.target.isArmorClass = false ∧ Saves parts

/-- A natural value is not both a 1 and a 20. -/
theorem Fumbles.not_escapes {t : Test} (h : Fumbles parts t) : ¬Escapes parts t := by
  rintro ⟨htwenty, -, -⟩
  have hone := naturalD20?_eq_some_iff.mpr h.1
  rw [naturalD20?_eq_some_iff.mpr htwenty] at hone
  exact absurd (Option.some.inj hone) (by decide)

end PartRoll

namespace System

open PartRoll

variable {parts : List PartRoll} {t : Test}

/-- What a natural value makes of a test against an armor class. -/
theorem attackGrade_cases (natural threshold : Nat) (t : Test) (total : Int) :
    let g := attackGrade natural threshold (.ofTest (some t) total)
    natural = 1 ∧ g = .criticalFailure ∨
      natural ≠ 1 ∧ (t.passes total = true ∧ (g = .success ∨ g = .criticalSuccess) ∨
        t.passes total = false ∧ g = .failure) := by
  rw [attackGrade, Grade.ofTest]
  by_cases hone : natural = 1
  · exact .inl ⟨hone, if_pos hone⟩
  · cases t.passes total with
    | true => by_cases hlimit : threshold ≤ natural <;> simp [hone, hlimit]
    | false => simp [hone]

/-- What a natural value makes of the test of a saving throw. -/
theorem saveGrade_cases (natural : Nat) (t : Test) (total : Int) :
    let g := saveGrade natural (.ofTest (some t) total)
    natural = 1 ∧ g = .criticalFailure ∨ natural = 20 ∧ g = .criticalSuccess ∨
      natural ≠ 1 ∧ natural ≠ 20 ∧ g = .ofTest (some t) total := by
  rw [saveGrade]
  by_cases hone : natural = 1
  · exact .inl ⟨hone, if_pos hone⟩
  · by_cases htwenty : natural = 20
    · simp [htwenty]
    · simp [hone, htwenty]

/-- How a tested roll is graded under d20 rules: it fumbles or escapes, or else the grade says what
the test says. -/
theorem degree_cases (first : testOf parts = some t) (threshold : Nat) (total : Int) :
    let g := degree threshold parts total
    Fumbles parts t ∧ g = .criticalFailure ∨ Escapes parts t ∧ g = .criticalSuccess ∨
      ¬Fumbles parts t ∧ ¬Escapes parts t ∧
        (t.passes total = true ∧ (g = .success ∨ g = .criticalSuccess) ∨
          t.passes total = false ∧ g = .failure) := by
  intro g
  have hplain : t.passes total = true ∧ (Grade.ofTest (some t) total = .success ∨
        Grade.ofTest (some t) total = .criticalSuccess) ∨
      t.passes total = false ∧ Grade.ofTest (some t) total = .failure := by
    rw [Grade.ofTest]
    cases t.passes total <;> simp
  have hsaves : (parts.any fun p => p.part.save) = true ↔ Saves parts := List.any_eq_true
  have hg : g = degree threshold parts total := rfl
  rw [degree, first] at hg
  simp only [Fumbles, Escapes, ← naturalD20?_eq_some_iff, ← hsaves]
  cases hnatural : naturalD20? parts with
  | none =>
    rw [hnatural] at hg
    exact .inr (.inr ⟨by simp, by simp, hg ▸ hplain⟩)
  | some natural =>
    rw [hnatural] at hg
    dsimp only at hg
    cases htarget : t.target.isArmorClass with
    | true =>
      rw [if_pos htarget] at hg
      have hcases := attackGrade_cases natural ((namedThreshold? parts).getD threshold) t total
      rw [← hg] at hcases
      simpa using hcases
    | false =>
      rw [if_neg (by simp [htarget])] at hg
      cases hsave : parts.any fun p => p.part.save with
      | true =>
        rw [if_pos hsave] at hg
        have hcases := saveGrade_cases natural t total
        rw [← hg] at hcases
        rcases hcases with hone | htwenty | ⟨hone, htwenty, hsame⟩
        · exact .inl (by simpa using hone)
        · exact .inr (.inl (by simpa using htwenty))
        · exact .inr (.inr ⟨by simpa using hone, by simpa using htwenty, hsame ▸ hplain⟩)
      | false =>
        rw [if_neg (by simp [hsave])] at hg
        exact .inr (.inr ⟨by simp, by simp, hg ▸ hplain⟩)

/-- Under d20 rules a grade contradicts the test only where the test is overruled. -/
theorem degree_overruled (first : testOf parts = some t) (threshold : Nat) (total : Int) :
    let g := degree threshold parts total
    (t.passes total = false → (g.isSuccess = true ↔ Escapes parts t)) ∧
      (t.passes total = true → (g.isFailure = true ↔ Fumbles parts t)) ∧
      (Escapes parts t → g = .criticalSuccess) ∧ (Fumbles parts t → g = .criticalFailure) := by
  intro g
  rcases degree_cases first threshold total with
    ⟨hfumbles, hgrade⟩ | ⟨hescapes, hgrade⟩ | ⟨hfumbles, hescapes, hgrade⟩
  · have hescapes := hfumbles.not_escapes
    simp [g, hgrade, hfumbles, hescapes, Grade.isSuccess, Grade.isFailure]
  · have hfumbles : ¬Fumbles parts t := fun h => h.not_escapes hescapes
    simp [g, hgrade, hfumbles, hescapes, Grade.isSuccess, Grade.isFailure]
  · rcases hgrade with ⟨hpasses, hgrade | hgrade⟩ | ⟨hfails, hgrade⟩
    · simp [g, hgrade, hpasses, hfumbles, hescapes, Grade.isFailure]
    · simp [g, hgrade, hpasses, hfumbles, hescapes, Grade.isFailure]
    · simp [g, hgrade, hfails, hfumbles, hescapes, Grade.isSuccess]

/-- Only d20 rules overrule a test. -/
theorem isSuccess_grade {s : System} (plain : s.kind ≠ .pathfinder) (first : testOf parts = some t)
    (total : Int) : (s.grade parts total).isSuccess = t.passes total := by
  cases s with
  | generic => rw [grade, first, Grade.isSuccess_ofTest]
  | pathfinder => exact absurd rfl plain
  | vampire =>
    rw [grade, first]
    cases hpasses : t.passes total with
    | true => exact Pool.isSuccess_grade_of_passes _ hpasses
    | false =>
      have hfailed := (Pool.ofParts parts).isFailure_grade_of_fails
        (show ¬t.passes total = true by simp [hpasses])
      cases hgrade : (Pool.ofParts parts).grade (some t) total <;> rw [hgrade] at hfailed <;>
        first | rfl | cases hfailed

theorem grade_ne_unknown (s : System) (first : testOf parts = some t) (total : Int) :
    s.grade parts total ≠ .unknown := by
  cases s with
  | generic =>
    rw [grade, first, Grade.ofTest]
    split <;> simp
  | pathfinder threshold infers =>
    intro hgrade
    have hcases := degree_cases first threshold total
    rw [show degree threshold parts total = .unknown from hgrade] at hcases
    simp at hcases
  | vampire =>
    rw [grade, first, Pool.grade]
    repeat' split
    all_goals simp

/-- What hunger dice can lead to, plain rules and d20 rules do not know. -/
theorem eq_vampire_of_grade {s : System} {total : Int}
    (h : s.grade parts total = .bestialFailure ∨ s.grade parts total = .messyCritical) :
    s = .vampire := by
  cases htest : testOf parts with
  | none =>
    rw [s.grade_of_testOf_eq_none htest] at h
    simp at h
  | some t =>
    cases s with
    | generic =>
      rw [grade, htest, Grade.ofTest] at h
      split at h <;> simp at h
    | pathfinder threshold infers =>
      have hcases := degree_cases htest threshold total
      rw [show degree threshold parts total = grade (.pathfinder threshold infers) parts total
        from rfl] at hcases
      rcases h with h | h <;> simp [h] at hcases
    | vampire => rfl

end System

namespace Roll

open PartRoll

/-- A roll is graded exactly if one of its parts has a test. Under plain rules and for pools it is
graded a success exactly if its total passes the test. Under d20 rules a failed test is graded a
success exactly if a natural 20 on a saving throw overrules it, and a passed test is graded a
failure exactly if a natural 1 overrules it; either one is critical. No other system has the grades
that hunger dice can lead to. -/
theorem grade_unless_overruled (system : System) (parts : List PartRoll) :
    let r := Roll.ofParts system parts
    (r.grade = .unknown ↔ ∀ p ∈ parts, p.part.test = none) ∧
      (∀ t, r.test? = some t →
        (system.kind ≠ .pathfinder → (r.grade.isSuccess = true ↔ t.passes r.total = true)) ∧
        (system.kind = .pathfinder →
          (t.passes r.total = false → (r.grade.isSuccess = true ↔ Escapes parts t)) ∧
          (t.passes r.total = true → (r.grade.isFailure = true ↔ Fumbles parts t)) ∧
          (Escapes parts t → r.grade = .criticalSuccess) ∧
          (Fumbles parts t → r.grade = .criticalFailure))) ∧
      (r.grade = .bestialFailure ∨ r.grade = .messyCritical → system = .vampire) := by
  intro r
  refine ⟨⟨fun hgrade => ?_, fun huntested => ?_⟩, fun t htest => ?_, System.eq_vampire_of_grade⟩
  · cases htest : testOf parts with
    | none => exact testOf_eq_none_iff.mp htest
    | some t => exact absurd hgrade (system.grade_ne_unknown htest _)
  · exact system.grade_of_testOf_eq_none (testOf_eq_none_iff.mpr huntested) _
  · refine ⟨fun hplain => ?_, fun hkind => ?_⟩
    · rw [show r.grade.isSuccess = t.passes r.total from System.isSuccess_grade hplain htest _]
    · obtain ⟨threshold, infers, rfl⟩ :
          ∃ threshold infers, system = .pathfinder threshold infers := by
        cases system with
        | pathfinder threshold infers => exact ⟨threshold, infers, rfl⟩
        | _ => cases hkind
      exact System.degree_overruled htest threshold r.total

/-- A natural 20 saves where the total is too low, a natural 1 misses where it is high enough, and a
pool that fails with a 1 on a hunger die fails by its total. -/
theorem grade_unless_overruled_natural :
    let dc : Test := ⟨.dc, .ge, 30, false⟩
    let ac : Test := ⟨.ac, .ge, 15, false⟩
    let saved := [PartRoll.ofFaces
      { count := 1, sides := 20, modifier := 2, test := dc, save := true } [20]]
    let missed := [PartRoll.ofFaces (.flat .plus 4) [],
      PartRoll.ofFaces { count := 1, sides := 20, modifier := 30, test := ac } [1]]
    let pool := [PartRoll.ofFaces
      { count := 3, sides := 10, hunger := some 1, test := dc } [7, 6, 1]]
    let pathfinder := Roll.ofParts (.pathfinder 20 true)
    ((dc.passes (pathfinder saved).total = false ∧ Escapes saved dc) ∧
      (pathfinder saved).grade = .criticalSuccess ∧ (pathfinder saved).grade.isSuccess = true) ∧
    ((ac.passes (pathfinder missed).total = true ∧ Fumbles missed ac) ∧
      (pathfinder missed).grade = .criticalFailure ∧ (pathfinder missed).grade.isFailure = true) ∧
    ((Roll.ofParts .vampire pool).grade = .bestialFailure ∧
      ((Roll.ofParts .vampire pool).grade.isSuccess = true ↔
        dc.passes (Roll.ofParts .vampire pool).total = true)) := by
  intro dc ac saved missed pool pathfinder
  have hfails : dc.passes (pathfinder saved).total = false := by decide
  have hescapes : Escapes saved dc :=
    ⟨⟨[], _, [], rfl, List.forall_mem_nil _, rfl, rfl⟩, rfl, _, .head _, rfl⟩
  have hpasses : ac.passes (pathfinder missed).total = true := by decide
  have hfumbles : Fumbles missed ac :=
    ⟨⟨[PartRoll.ofFaces (.flat .plus 4) []], _, [], rfl, by decide, rfl, rfl⟩, .inl rfl⟩
  obtain ⟨hsaved, -, hescaped, -⟩ :=
    ((grade_unless_overruled (.pathfinder 20 true) saved).2.1 dc rfl).2 rfl
  obtain ⟨-, hmissed, -, hfumbled⟩ :=
    ((grade_unless_overruled (.pathfinder 20 true) missed).2.1 ac rfl).2 rfl
  have hplain := ((grade_unless_overruled .vampire pool).2.1 dc rfl).1 (by decide)
  exact ⟨⟨⟨hfails, hescapes⟩, hescaped hescapes, (hsaved hfails).mpr hescapes⟩,
    ⟨⟨hpasses, hfumbles⟩, hfumbled hfumbles, (hmissed hpasses).mpr hfumbles⟩, by decide, hplain⟩

end Roll

end Tabletop
