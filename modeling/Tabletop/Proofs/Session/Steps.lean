import Mathlib.Logic.Basic
import Tabletop.Engine

/-!
# The lines of a session

A line that changes a setting changes that one and no other, and the engine is then the one for
these settings. A refused line does nothing, and a rolled one leaves the settings alone. So every
line meets the engine for the settings at the start with the accepted lines before it applied to
them, and a session that is not told some of its refused lines goes on as if it were.
-/

namespace Tabletop

def remaining {α : Type} (items : List α) (marks : List Bool) : List α :=
  ((items.zip marks).filter Prod.snd).map Prod.fst

theorem remaining_cons {α : Type} (a : α) (items : List α) (mark : Bool) (marks : List Bool) :
    remaining (a :: items) (mark :: marks) =
      if mark then a :: remaining items marks else remaining items marks := by
  cases mark <;> rfl

/-- If a state is not told apart from one of its kind by what is left out, and gives the same
results and a state of its kind on all the rest, then the rest has the results that it has among all
items. -/
theorem Roller.each_remaining {α β σ σ' : Type} {f : α → σ → β × σ} {f' : α → σ' → β × σ'}
    (related : σ → σ' → Prop) {items : List α} {marks : List Bool} {s : σ} {s' : σ'}
    (length : marks.length = items.length)
    (skips : ∀ i a, items[i]? = some a → marks[i]? = some false →
      let now := (items.take i).foldl (fun s a => (f a s).2) s
      ∀ s', related now s' → related (f a now).2 s')
    (agrees : ∀ i a, items[i]? = some a → marks[i]? = some true →
      let now := (items.take i).foldl (fun s a => (f a s).2) s
      ∀ s', related now s' → (f' a s').1 = (f a now).1 ∧ related (f a now).2 (f' a s').2)
    (h : related s s') :
    (each f' (remaining items marks) s').1 = remaining (each f items s).1 marks := by
  induction items generalizing s s' marks with
  | nil => rfl
  | cons a rest ih =>
    cases marks with
    | nil => cases length
    | cons mark marks =>
      have hrest {s' : σ'} (h : related (f a s).2 s') :
          (each f' (remaining rest marks) s').1 = remaining (each f rest (f a s).2).1 marks :=
        ih (Nat.succ.inj length) (fun i => skips (i + 1)) (fun i => agrees (i + 1)) h
      cases mark with
      | false => exact hrest (skips 0 a rfl rfl s' h)
      | true =>
        obtain ⟨hresult, hrelated⟩ := agrees 0 a rfl rfl s' h
        exact congrArg₂ List.cons hresult (hrest hrelated)

namespace Settings

/-- The setting that the first word of a line names has the value that the second one names, and all
others are as before. -/
def ChangesOnly (line : Text) (s t : Settings) : Prop :=
  let words := Text.words line
  let word := words.head?.getD []
  let value := words[1]?.getD []
  (word = ":system".toList ∧ ∃ system, SystemKind.read value = .ok system ∧
      t = { s with system }) ∨
    (word = ":verbosity".toList ∧ ∃ verbosity, Verbosity.read value = .ok verbosity ∧
      t = { s with verbosity }) ∨
    (word = ":crit".toList ∧ ∃ critMethod, CritMethod.read value = .ok critMethod ∧
      t = { s with critMethod })

theorem changesOnly_of_configure {s t : Settings} {line : Text} (h : s.configure line = .ok t) :
    ChangesOnly line s t := by
  rw [configure] at h
  split at h
  · next hsystem =>
    split at h
    · next system hvalue =>
      cases h
      exact .inl ⟨hsystem, system, hvalue, rfl⟩
    · cases h
  · split at h
    · next hverbosity =>
      split at h
      · next verbosity hvalue =>
        cases h
        exact .inr (.inl ⟨hverbosity, verbosity, hvalue, rfl⟩)
      · cases h
    · split at h
      · next hcrit =>
        split at h
        · next critMethod hvalue =>
          cases h
          exact .inr (.inr ⟨hcrit, critMethod, hvalue, rfl⟩)
        · cases h
      · cases h

end Settings

namespace Session

variable {ρ : Type} [Roller ρ]

def after (s : Session ρ) (lines : List Text) : Session ρ :=
  lines.foldl (fun s line => (s.take line).2) s

def accepted (s : Session ρ) (lines : List Text) : List Text :=
  remaining lines ((s.run lines).map fun step => step.1 == .accepted)

/-- A line is an accepted setting, a setting that is refused without any effect, or a command that
is rolled. -/
theorem take_cases (s : Session ρ) (line : Text) :
    (isSetting line = true ∧ ∃ t, s.settings.configure line = .ok t ∧
        s.take line = (.accepted, ⟨t, .ofSettings t, s.roller⟩)) ∨
      (isSetting line = true ∧ ∃ e, s.settings.configure line = .error e ∧
        s.take line = (.refused e, s)) ∨
      (isSetting line = false ∧
        s.take line = (.rolled (s.engine.evaluate line s.roller).1,
          ⟨s.settings, s.engine, (s.engine.evaluate line s.roller).2⟩)) := by
  rw [take]
  cases hsetting : isSetting line with
  | false => exact .inr (.inr ⟨rfl, rfl⟩)
  | true =>
    rw [if_pos rfl, configure]
    cases hline : s.settings.configure line with
    | ok t => exact .inl ⟨rfl, t, rfl, rfl⟩
    | error e => exact .inr (.inl ⟨rfl, e, rfl, rfl⟩)

/-- What a line leads to in a session for some settings. The session after it is like one that
starts with the settings it has then. -/
def LeadsTo (t : Settings) (roller : ρ) (line : Text) (step : Answer × Session ρ) : Prop :=
  if isSetting line then
    (∃ t', t.configure line = .ok t' ∧ Settings.ChangesOnly line t t' ∧
        step = (.accepted, start t' roller)) ∨
      ∃ e, t.configure line = .error e ∧ step = (.refused e, start t roller)
  else
    let evaluated := (Engine.ofSettings t).evaluate line roller
    step = (.rolled evaluated.1, start t evaluated.2)

theorem leadsTo_take (t : Settings) (roller : ρ) (line : Text) :
    LeadsTo t roller line ((start t roller).take line) := by
  rw [LeadsTo]
  obtain ⟨hsetting, t', hline, htake⟩ | ⟨hsetting, e, hline, htake⟩ | ⟨hsetting, htake⟩ :=
    take_cases (start t roller) line
  · rw [if_pos hsetting]
    exact .inl ⟨t', hline, Settings.changesOnly_of_configure hline, htake⟩
  · rw [if_pos hsetting]
    exact .inr ⟨e, hline, htake⟩
  · rw [if_neg (by rw [hsetting]; decide)]
    exact htake

/-- A refused line does nothing. -/
theorem take_of_refused {s : Session ρ} {line : Text} {e : CommandError}
    (h : (s.take line).1 = .refused e) : (s.take line).2 = s := by
  obtain ⟨-, t, -, htake⟩ | ⟨-, e', -, htake⟩ | ⟨-, htake⟩ := s.take_cases line
  · rw [htake] at h
    cases h
  · rw [htake]
  · rw [htake] at h
    cases h

@[simp] theorem length_run (s : Session ρ) (lines : List Text) :
    (s.run lines).length = lines.length := by
  induction lines generalizing s with
  | nil => rfl
  | cons line rest ih => exact congrArg Nat.succ (ih _)

theorem getElem?_run {lines : List Text} {i : Nat} {line : Text} (h : lines[i]? = some line)
    (s : Session ρ) : (s.run lines)[i]? = some ((s.after (lines.take i)).take line) := by
  induction lines generalizing s i with
  | nil => cases h
  | cons first rest ih =>
    cases i with
    | zero =>
      obtain rfl : first = line := Option.some.inj h
      rfl
    | succ i => exact ih h (s.take first).2

theorem accepted_cons (s : Session ρ) (line : Text) (rest : List Text) :
    s.accepted (line :: rest) =
      if (s.take line).1 = .accepted then line :: (s.take line).2.accepted rest
      else (s.take line).2.accepted rest := by
  rw [accepted, run, List.map_cons, remaining_cons]
  simp only [beq_iff_eq]
  rfl

/-- At every time a session is like one that starts with the settings at its own start with all
accepted lines applied to them: the settings are these, and the engine is the one for them. -/
theorem exists_after_eq_start (t : Settings) (roller : ρ) (lines : List Text) :
    let s := start t roller
    ∃ t', (s.accepted lines).foldlM Settings.configure t = .ok t' ∧
      s.after lines = start t' (s.after lines).roller := by
  induction lines generalizing t roller with
  | nil => exact ⟨t, rfl, rfl⟩
  | cons line rest ih =>
    intro s
    have hafter : s.after (line :: rest) = (s.take line).2.after rest := rfl
    rw [accepted_cons, hafter]
    obtain ⟨-, t', hline, htake⟩ | ⟨-, e, -, htake⟩ | ⟨-, htake⟩ := s.take_cases line
    · have hline : t.configure line = .ok t' := hline
      rw [htake, if_pos rfl, List.foldlM_cons, hline]
      exact ih t' roller
    · rw [htake, if_neg nofun]
      exact ih t roller
    · rw [htake, if_neg nofun]
      exact ih t _

theorem run_eq_each (s : Session ρ) (lines : List Text) :
    s.run lines = (Roller.each (fun line s => (s.take line, (s.take line).2)) lines s).1 := by
  induction lines generalizing s with
  | nil => rfl
  | cons line rest ih => exact congrArg _ (ih _)

/-- Without some of its refused lines, a session answers all other lines as it does with them. -/
theorem run_remaining {s : Session ρ} {lines : List Text} {marks : List Bool}
    (length : marks.length = lines.length)
    (refused : ∀ i : Nat, marks[i]? = some false →
      ∃ e later, (s.run lines)[i]? = some (.refused e, later)) :
    s.run (remaining lines marks) = remaining (s.run lines) marks := by
  rw [run_eq_each, run_eq_each]
  refine Roller.each_remaining Eq length ?_ ?_ rfl
  · rintro i line hline hmark now _ rfl
    obtain ⟨e, later, hstep⟩ := refused i hmark
    rw [getElem?_run hline] at hstep
    exact take_of_refused (congrArg Prod.fst (Option.some.inj hstep))
  · rintro i line hline hmark now _ rfl
    exact ⟨rfl, rfl⟩

end Session

end Tabletop
