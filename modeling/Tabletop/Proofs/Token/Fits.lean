import Tabletop.Token.Basic

/-!
# Tokens that fit into a run

A run can be told from the outside: its tokens fit one after the other, and the first token behind
it does not fit any more.
-/

namespace Tabletop

namespace Token

namespace Cutter

variable {c : Cutter}

def after (c : Cutter) (m : c.Memory) (tokens : List Token) : c.Memory :=
  tokens.foldl c.remember m

/-- Each of the tokens fits into the run that the ones before it go on. -/
def Fits (c : Cutter) : c.Memory → List Token → Prop
  | _, [] => True
  | m, t :: rest => c.breaks m t = false ∧ c.Fits (c.remember m t) rest

@[simp] theorem after_nil (m : c.Memory) : c.after m [] = m := rfl

@[simp] theorem after_cons (m : c.Memory) (t : Token) (rest : List Token) :
    c.after m (t :: rest) = c.after (c.remember m t) rest := rfl

theorem after_append (m : c.Memory) (tokens more : List Token) :
    c.after m (tokens ++ more) = c.after (c.after m tokens) more :=
  List.foldl_append

@[simp] theorem fits_nil (m : c.Memory) : c.Fits m [] := trivial

theorem fits_append {m : c.Memory} {tokens more : List Token} :
    c.Fits m (tokens ++ more) ↔ c.Fits m tokens ∧ c.Fits (c.after m tokens) more := by
  induction tokens generalizing m with
  | nil => simp
  | cons t rest ih => simp [Fits, ih, and_assoc]

theorem fits_of_forall {tokens : List Token} (fits : ∀ m, ∀ t ∈ tokens, c.breaks m t = false)
    (m : c.Memory) : c.Fits m tokens := by
  induction tokens generalizing m with
  | nil => trivial
  | cons t rest ih =>
    exact ⟨fits m t List.mem_cons_self, ih (fun m t ht => fits m t (List.mem_cons_of_mem _ ht)) _⟩

/-- The tokens fit and change what is remembered from one state to another. -/
def Passes (c : Cutter) (m : c.Memory) (tokens : List Token) (m' : c.Memory) : Prop :=
  c.Fits m tokens ∧ c.after m tokens = m'

theorem passes_nil (m : c.Memory) : c.Passes m [] m := ⟨trivial, rfl⟩

theorem passes_single {m : c.Memory} {t : Token} (h : c.breaks m t = false) :
    c.Passes m [t] (c.remember m t) :=
  ⟨⟨h, trivial⟩, rfl⟩

theorem Passes.append {m m' m'' : c.Memory} {tokens more : List Token}
    (h : c.Passes m tokens m') (h' : c.Passes m' more m'') : c.Passes m (tokens ++ more) m'' := by
  obtain ⟨hfits, rfl⟩ := h
  exact ⟨fits_append.mpr ⟨hfits, h'.1⟩, (after_append m tokens more).trans h'.2⟩

/-- Tokens that the cutter takes no notice of. -/
theorem passes_of_idle {m : c.Memory} {tokens : List Token}
    (idle : ∀ t ∈ tokens, c.breaks m t = false ∧ c.remember m t = m) : c.Passes m tokens m := by
  induction tokens with
  | nil => exact passes_nil m
  | cons t rest ih =>
    obtain ⟨⟨hbreaks, hremember⟩, hrest⟩ := List.forall_mem_cons.mp idle
    have hsingle := passes_single hbreaks
    rw [hremember] at hsingle
    exact hsingle.append (ih hrest)

/-- Tokens that fit belong to the current run. -/
theorem runOn_append {m : c.Memory} {tokens : List Token} (fits : c.Fits m tokens)
    (more : List Token) :
    c.runOn m (tokens ++ more) =
      (tokens ++ (c.runOn (c.after m tokens) more).1, (c.runOn (c.after m tokens) more).2) := by
  induction tokens generalizing m with
  | nil => rfl
  | cons t rest ih => simp [runOn, fits.1, ih fits.2]

/-- The first token of a run always fits. -/
theorem runs_append {t : Token} {rest : List Token} (fits : c.Fits (c.remember c.fresh t) rest)
    (more : List Token) :
    c.runs (t :: rest ++ more) =
      (t :: rest ++ (c.runOn (c.after c.fresh (t :: rest)) more).1) ::
        (c.runOn (c.after c.fresh (t :: rest)) more).2 := by
  rw [List.cons_append, runs, runOn_append fits]
  rfl

/-- Tokens that fit into one run make up a single one. -/
theorem runs_of_fits {tokens : List Token} (nonempty : tokens ≠ []) (fits : c.Fits c.fresh tokens) :
    c.runs tokens = [tokens] := by
  cases tokens with
  | nil => exact absurd rfl nonempty
  | cons t rest =>
    have h := runs_append fits.2 []
    rw [List.append_nil] at h
    rw [h, runOn, List.append_nil]

/-- A token that does not fit opens the next run. -/
theorem runs_append_cons {tokens : List Token} (nonempty : tokens ≠ [])
    (fits : c.Fits c.fresh tokens) {t : Token} (breaks : c.breaks (c.after c.fresh tokens) t = true)
    (more : List Token) : c.runs (tokens ++ t :: more) = tokens :: c.runs (t :: more) := by
  cases tokens with
  | nil => exact absurd rfl nonempty
  | cons u rest =>
    rw [runs_append fits.2, runOn, breaks]
    simp [runs]

/-- Where every token fits into a new run, the tokens of each run fit one after the other. -/
theorem fits_of_mem_runOn (opens : ∀ t, c.breaks c.fresh t = false) (m : c.Memory)
    (tokens : List Token) :
    c.Fits m (c.runOn m tokens).1 ∧ ∀ run ∈ (c.runOn m tokens).2, c.Fits c.fresh run := by
  induction tokens generalizing m with
  | nil => simp [runOn]
  | cons t rest ih =>
    rw [runOn]
    cases hb : c.breaks m t with
    | true =>
      obtain ⟨hrun, hmore⟩ := ih (c.remember c.fresh t)
      exact ⟨trivial, List.forall_mem_cons.mpr ⟨⟨opens t, hrun⟩, hmore⟩⟩
    | false =>
      obtain ⟨hrun, hmore⟩ := ih (c.remember m t)
      exact ⟨⟨hb, hrun⟩, hmore⟩

theorem fits_of_mem_runs (opens : ∀ t, c.breaks c.fresh t = false) {tokens run : List Token}
    (h : run ∈ c.runs tokens) : c.Fits c.fresh run := by
  cases tokens with
  | nil => simp [runs] at h
  | cons t rest =>
    obtain ⟨hrun, hmore⟩ := fits_of_mem_runOn opens (c.remember c.fresh t) rest
    rcases List.mem_cons.mp h with rfl | h
    · exact ⟨opens t, hrun⟩
    · exact hmore run h

end Cutter

/-- Every token fits into a new run for a part. -/
theorem partCutter_fresh (t : Token) : partCutter.breaks partCutter.fresh t = false := by
  cases hk : t.kind <;> simp [partCutter, hk]

end Token

end Tabletop
