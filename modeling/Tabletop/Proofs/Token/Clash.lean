import Mathlib.Data.List.Chain
import Mathlib.Data.List.Induction
import Tabletop.Proofs.Token.Fits

/-!
# Tokens that clash

A cutter remembers just enough of a run to tell whether the next token clashes with one that the
run holds. So a run never holds tokens that clash, and it is as long as possible: the token that
opens the next run clashes with one of them.
-/

namespace Tabletop

namespace Token

/-- Whether a token cannot stand in the run of an expression behind another one. A second test
cannot, and neither can an unsigned die behind anything that rolls or tests. -/
def RollClash (u t : Token) : Prop :=
  (u.kind = .test ∧ t.kind = .test) ∨
    ((u.kind = .dice ∨ u.kind = .modifier ∨ u.kind = .test) ∧ t.kind = .dice ∧ t.capture 1 = none)

def IsMultiplier (t : Token) : Prop := t.kind = .modifier ∧ Sign.ofCapture (t.capture 1) = .times

/-- Whether a token cannot stand in the run of a part behind another one. A die cannot stand behind
a die or a modifier, a second modifier cannot, and neither can a multiplier behind a die. -/
def PartClash (u t : Token) : Prop :=
  ((u.kind = .dice ∨ u.kind = .modifier) ∧ t.kind = .dice) ∨
    (u.kind = .modifier ∧ t.kind = .modifier) ∨ (u.kind = .dice ∧ t.IsMultiplier)

/-- Runs without a clash that are as long as possible. -/
structure Longest (Clash : Token → Token → Prop) (runs : List (List Token)) : Prop where
  /-- No token of a run clashes with one before it. -/
  apart : ∀ run ∈ runs, run.Pairwise fun u t => ¬Clash u t
  /-- The first token of a run clashes with one of the run before. -/
  forced : runs.IsChain fun run next => ∃ t ∈ next.head?, ∃ u ∈ run, Clash u t

namespace Cutter

/-- A run ends before the tokens that clash with one of its own. -/
def Guards (c : Cutter) (Clash : Token → Token → Prop) : Prop :=
  ∀ run t, c.breaks (c.after c.fresh run) t = true ↔ ∃ u ∈ run, Clash u t

variable {c : Cutter} {Clash : Token → Token → Prop}

theorem Guards.opens (guards : c.Guards Clash) (t : Token) : c.breaks c.fresh t = false := by
  simpa using (guards [] t).not

theorem Guards.fits_iff (guards : c.Guards Clash) (run : List Token) :
    c.Fits c.fresh run ↔ run.Pairwise fun u t => ¬Clash u t := by
  induction run using List.reverseRecOn with
  | nil => simp
  | append_singleton run t ih =>
    have hlast : c.breaks (c.after c.fresh run) t = false ↔ ∀ u ∈ run, ¬Clash u t := by
      simpa using (guards run t).not
    rw [fits_append, ih, List.pairwise_append]
    simp [Fits, hlast]

/-- The run that goes on with the next tokens, and the runs behind it. -/
theorem Guards.forced_runOn (guards : c.Guards Clash) (run tokens : List Token) :
    ((run ++ (c.runOn (c.after c.fresh run) tokens).1) ::
      (c.runOn (c.after c.fresh run) tokens).2).IsChain
      fun run next => ∃ t ∈ next.head?, ∃ u ∈ run, Clash u t := by
  induction tokens generalizing run with
  | nil => exact .singleton _
  | cons t rest ih =>
    rw [runOn]
    cases hbreaks : c.breaks (c.after c.fresh run) t with
    | true =>
      have hforced : ∃ u ∈ run, Clash u t := (guards run t).mp hbreaks
      simp only [↓reduceIte, List.append_nil]
      exact .cons_cons ⟨t, rfl, hforced⟩ (ih [t])
    | false =>
      have hrun := ih (run ++ [t])
      rw [after_append, List.append_assoc] at hrun
      exact hrun

theorem Guards.longest_runs (guards : c.Guards Clash) (tokens : List Token) :
    Longest Clash (c.runs tokens) where
  apart _ hrun := (guards.fits_iff _).mp (fits_of_mem_runs guards.opens hrun)
  forced := by
    cases tokens with
    | nil => exact .nil
    | cons t rest => exact guards.forced_runOn [t] rest

end Cutter

/-- What is remembered of a run for an expression. -/
theorem after_rollCutter (run : List Token) :
    let m : RollMemory := rollCutter.after rollCutter.fresh run
    (m.rolls = true ↔ ∃ u ∈ run, u.kind = .dice ∨ u.kind = .modifier) ∧
      (m.tests = true ↔ ∃ u ∈ run, u.kind = .test) := by
  induction run using List.reverseRecOn with
  | nil => simp [rollCutter]
  | append_singleton run u ih =>
    simp only [Cutter.after_append, Cutter.after_cons, Cutter.after_nil]
    generalize rollCutter.after rollCutter.fresh run = m at ih
    cases hkind : u.kind <;> simp [rollCutter, hkind, ih]

theorem guards_rollCutter : rollCutter.Guards RollClash := by
  intro run t
  obtain ⟨hrolls, htests⟩ := after_rollCutter run
  generalize rollCutter.after rollCutter.fresh run = m at hrolls htests
  cases hkind : t.kind with
  | test => simp [rollCutter, RollClash, hkind, htests]
  | dice =>
    simp only [rollCutter, hkind, Bool.and_eq_true, Option.isNone_iff_eq_none, Bool.or_eq_true,
      hrolls, htests, RollClash]
    grind
  | _ => simp [rollCutter, RollClash, hkind]

/-- What is remembered of a run for a part. -/
theorem after_partCutter (run : List Token) :
    let m : PartMemory := partCutter.after partCutter.fresh run
    (m.dice = true ↔ ∃ u ∈ run, u.kind = .dice) ∧
      (m.modifier = true ↔ ∃ u ∈ run, u.kind = .modifier) ∧
      (m.times = true → ∃ u ∈ run, u.kind = .modifier) := by
  induction run using List.reverseRecOn with
  | nil => simp [partCutter]
  | append_singleton run u ih =>
    simp only [Cutter.after_append, Cutter.after_cons, Cutter.after_nil]
    generalize partCutter.after partCutter.fresh run = m at ih
    obtain ⟨hdice, hmodifier, htimes⟩ := ih
    cases hkind : u.kind with
    | modifier => simp [partCutter, hkind, hdice]
    | _ => simpa [partCutter, hkind, hdice, hmodifier] using htimes

theorem guards_partCutter : partCutter.Guards PartClash := by
  intro run t
  obtain ⟨hdice, hmodifier, htimes⟩ := after_partCutter run
  generalize partCutter.after partCutter.fresh run = m at hdice hmodifier htimes
  cases hkind : t.kind with
  | dice =>
    simp only [partCutter, hkind, Bool.or_eq_true, hdice, hmodifier, PartClash]
    grind
  | modifier =>
    simp only [partCutter, hkind, Bool.or_eq_true, Bool.and_eq_true, beq_iff_eq, hdice, hmodifier,
      PartClash, IsMultiplier]
    grind
  | _ => simp [partCutter, PartClash, IsMultiplier, hkind]

end Token

end Tabletop
