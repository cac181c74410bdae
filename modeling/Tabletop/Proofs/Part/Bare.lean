import Tabletop.Group
import Tabletop.Proofs.Part.Reading
import Tabletop.Proofs.Token.Fits

/-!
# Bare parts

A part without its test and its description is bare. Where a game system has no marks of its own,
the bare parts come from the tokens of dice and modifiers alone, and the test of an expression from
its test tokens alone.
-/

namespace Tabletop

namespace Token

/-- Whether the token says something of dice or of a modifier. -/
def isTerm (t : Token) : Bool := t.kind == .dice || t.kind == .modifier

def isTest (t : Token) : Bool := t.kind == .test

namespace Cutter

variable {c : Cutter} {keep : Token → Bool}

theorem runOn_filter
    (idle : ∀ t, keep t = false → ∀ m, c.breaks m t = false ∧ c.remember m t = m) (m : c.Memory)
    (tokens : List Token) :
    c.runOn m (tokens.filter keep) =
      ((c.runOn m tokens).1.filter keep, (c.runOn m tokens).2.map (List.filter keep)) := by
  induction tokens generalizing m with
  | nil => rfl
  | cons t rest ih =>
    cases hkeep : keep t with
    | false =>
      obtain ⟨hbreaks, hremember⟩ := idle t hkeep m
      simp [runOn, hkeep, hbreaks, hremember, ih]
    | true => cases hbreaks : c.breaks m t <;> simp [runOn, hkeep, hbreaks, ih]

theorem runs_eq_runOn (opens : ∀ t, c.breaks c.fresh t = false) {tokens : List Token}
    (nonempty : tokens ≠ []) :
    c.runs tokens = (c.runOn c.fresh tokens).1 :: (c.runOn c.fresh tokens).2 := by
  cases tokens with
  | nil => exact absurd rfl nonempty
  | cons t rest => simp [runs, runOn, opens t]

/-- Tokens that a cutter takes no notice of can be left out before or after the cutting. -/
theorem runs_filter (opens : ∀ t, c.breaks c.fresh t = false)
    (idle : ∀ t, keep t = false → ∀ m, c.breaks m t = false ∧ c.remember m t = m)
    {tokens : List Token} (some : tokens.filter keep ≠ []) :
    c.runs (tokens.filter keep) = (c.runs tokens).map (List.filter keep) := by
  have nonempty : tokens ≠ [] := by
    rintro rfl
    exact some rfl
  rw [runs_eq_runOn opens some, runs_eq_runOn opens nonempty, runOn_filter idle]
  rfl

end Cutter

/-- Tests and text neither end the run of a part nor are they remembered. -/
theorem partCutter_idle_of_not_isTerm {t : Token} (ht : t.isTerm = false) (m : PartMemory) :
    partCutter.breaks m t = false ∧ partCutter.remember m t = m := by
  cases hk : t.kind <;> simp_all [isTerm, partCutter]

theorem partRuns_filter {tokens : List Token} (some : tokens.filter isTerm ≠ []) :
    partRuns (tokens.filter isTerm) = (partRuns tokens).map (List.filter isTerm) :=
  Cutter.runs_filter partCutter_fresh (fun _ => partCutter_idle_of_not_isTerm) some

end Token

namespace Part

def bare (p : Part) : Part := { p with test := none, description := [] }

theorem bare_withModifier (p : Part) (t : Token) :
    (p.withModifier t).bare = p.bare.withModifier t := by
  rw [withModifier, withModifier]
  cases (t.capture 2).bind Decimal.readTotal? with
  | none => rfl
  | some n =>
    by_cases hsides : p.sides = 0
    · have hbare : p.bare.sides = 0 := hsides
      simp only [if_pos hsides, if_pos hbare]
      rfl
    · have hbare : p.bare.sides ≠ 0 := hsides
      simp only [if_neg hsides, if_neg hbare]
      cases Sign.ofCapture (t.capture 1) <;> rfl

/-- A token that says nothing of dice changes no bare part. -/
theorem Draft.bare_add {d : Draft} {t : Token} (ht : t.isTerm = false) :
    (d.add .generic t).part.bare = d.part.bare := by
  rcases d.part_add .generic t with hpart | ⟨hkind, -⟩ | ⟨hkind, -⟩ | ⟨test, -, -, hpart⟩ | habsorb
  · rw [hpart]
  · simp [Token.isTerm, hkind] at ht
  · simp [Token.isTerm, hkind] at ht
  · rw [hpart]
    rfl
  · simp [System.absorb?] at habsorb

theorem Draft.bare_add_of_isTerm (d : Draft) {t : Token} (ht : t.isTerm = true) :
    Draft.add .generic ⟨d.part.bare, []⟩ t = ⟨(d.add .generic t).part.bare, []⟩ := by
  rw [Token.isTerm, Bool.or_eq_true, beq_iff_eq, beq_iff_eq] at ht
  rcases ht with hkind | hkind
  · simp only [Draft.add, hkind]
    rfl
  · simp only [Draft.add, hkind, bare_withModifier]

/-- The bare part comes from the tokens of dice and modifiers. -/
theorem bare_ofTokens (tokens : List Token) :
    (ofTokens .generic tokens).bare = ofTokens .generic (tokens.filter Token.isTerm) := by
  have run (d : Draft) : (tokens.filter Token.isTerm).foldl (Draft.add .generic) ⟨d.part.bare, []⟩ =
      ⟨(tokens.foldl (Draft.add .generic) d).part.bare, []⟩ := by
    induction tokens generalizing d with
    | nil => rfl
    | cons t rest ih =>
      rw [List.foldl_cons]
      cases ht : t.isTerm with
      | false =>
        rw [List.filter_cons_of_neg (by simp [ht]), ← ih (d.add .generic t), Draft.bare_add ht]
      | true =>
        rw [List.filter_cons_of_pos ht, List.foldl_cons, Draft.bare_add_of_isTerm d ht,
          ih (d.add .generic t)]
  have hrun : (tokens.filter Token.isTerm).foldl (Draft.add .generic) ⟨empty, []⟩ = _ :=
    run ⟨empty, []⟩
  simp only [ofTokens, hrun]
  rfl

theorem bare_partRuns {tokens : List Token} (some : tokens.filter Token.isTerm ≠ []) :
    ((Token.partRuns tokens).map (ofTokens .generic)).map bare =
      (Token.partRuns (tokens.filter Token.isTerm)).map (ofTokens .generic) := by
  rw [Token.partRuns_filter some, List.map_map, List.map_map]
  exact List.map_congr_left fun run _ => bare_ofTokens run

/-- Tests and text alone are an empty part. -/
theorem bare_partRuns_of_filter_eq_nil {tokens : List Token} (nonempty : tokens ≠ [])
    (none : tokens.filter Token.isTerm = []) :
    ((Token.partRuns tokens).map (ofTokens .generic)).map bare = [empty] := by
  have idle : ∀ t ∈ tokens, t.isTerm = false := by
    simpa using List.filter_eq_nil_iff.mp none
  have hpasses := Token.Cutter.passes_of_idle (c := Token.partCutter) fun t ht =>
    Token.partCutter_idle_of_not_isTerm (idle t ht) Token.partCutter.fresh
  have hruns : Token.partRuns tokens = [tokens] := Token.Cutter.runs_of_fits nonempty hpasses.1
  rw [hruns, List.map_singleton, List.map_singleton, bare_ofTokens, none]
  rfl

theorem Draft.test_add (d : Draft) (t : Token) :
    (d.add .generic t).part.test =
      if t.isTest then (Test.ofToken? t).or d.part.test else d.part.test := by
  cases hkind : t.kind with
  | test =>
    rw [if_pos (by simp [Token.isTest, hkind])]
    simp only [add, hkind]
    cases Test.ofToken? t <;> rfl
  | modifier =>
    obtain ⟨sign, modifier, h⟩ := d.part.exists_withModifier_eq t
    simp only [add, hkind, h, Token.isTest]
    rfl
  | separator | dice | crit | hunger | description =>
    simp only [add, hkind, System.absorb?, Token.isTest]
    rfl

section

variable {test : Test}

/-- The test of a part comes from its test tokens. -/
theorem test_ofTokens {tokens : List Token}
    (reads : ∀ t ∈ tokens, t.isTest = true → Test.ofToken? t = some test) :
    (ofTokens .generic tokens).test = if tokens.any Token.isTest then some test else none := by
  have run (d : Draft) : (tokens.foldl (Draft.add .generic) d).part.test =
      if tokens.any Token.isTest then some test else d.part.test := by
    induction tokens generalizing d with
    | nil => rfl
    | cons t rest ih =>
      obtain ⟨ht, hrest⟩ := List.forall_mem_cons.mp reads
      rw [List.foldl_cons, ih hrest, List.any_cons, Draft.test_add]
      cases htest : t.isTest with
      | true => simp [ht htest]
      | false => simp
  exact run ⟨empty, []⟩

/-- The test of an expression comes from its test tokens. -/
theorem testOf_partRuns {tokens : List Token}
    (reads : ∀ t ∈ tokens, t.isTest = true → Test.ofToken? t = some test) :
    testOf ((Token.partRuns tokens).map (ofTokens .generic)) =
      if tokens.any Token.isTest then some test else none := by
  have runs (runs : List (List Token))
      (reads : ∀ run ∈ runs, ∀ t ∈ run, t.isTest = true → Test.ofToken? t = some test) :
      testOf (runs.map (ofTokens .generic)) =
        if runs.any (List.any · Token.isTest) then some test else none := by
    induction runs with
    | nil => rfl
    | cons run rest ih =>
      obtain ⟨hrun, hrest⟩ := List.forall_mem_cons.mp reads
      rw [List.map_cons, testOf, List.findSome?_cons, test_ofTokens hrun, List.any_cons]
      cases hany : run.any Token.isTest with
      | true => rfl
      | false => exact ih hrest
  have hjoin : (Token.partRuns tokens).flatten = tokens := Token.partCutter.join_runs tokens
  have hany : (Token.partRuns tokens).flatten.any Token.isTest = _ := List.any_flatten
  rw [hjoin] at hany
  rw [hany]
  refine runs _ fun run hrun t ht => reads t ?_
  rw [← hjoin]
  exact List.mem_flatten.mpr ⟨run, hrun, ht⟩

end

end Part

end Tabletop
