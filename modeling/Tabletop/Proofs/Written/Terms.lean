import Tabletop.Proofs.Roll.Simple
import Tabletop.Proofs.Written.Runs

/-!
# Written terms

An expression as it may be written: dice, and any number of terms behind them, each with a sign and
then dice or a number. Blanks may stand between the terms and around each sign. The parts that such
an expression is read as follow from its terms: a number that is added or subtracted right behind
dice goes with them, and everything else is a part of its own.
-/

namespace Tabletop

open Token

namespace Dice

/-- Parts without a test stay as they are. -/
theorem normalized_of_untested {parts : List Part} (untested : ∀ p ∈ parts, p.test = none) :
    normalized parts = ⟨parts⟩ := by
  have hsame : testOnD20 parts = parts := by
    induction parts with
    | nil => rfl
    | cons p rest ih =>
      obtain ⟨hp, hrest⟩ := List.forall_mem_cons.mp untested
      rw [testOnD20, hp, ih hrest]
      rfl
  rw [normalized, hsame, ite_self]

end Dice

namespace Written

theorem DieWord.InRange.isSimple {w : DieWord} (range : w.InRange) (sign : Sign) :
    (w.part sign).IsSimple where
  description := rfl
  test := rfl
  fixed := rfl
  count := by
    rw [part]
    cases hcount : w.count with
    | none => exact Nat.le_add_left 1 999
    | some n => exact range.count n hcount
  sides := range.sides

inductive Operand where
  | dice (w : DieWord)
  | number (n : Numeral)

namespace Operand

def text : Operand → Text
  | .dice w => w.text
  | .number n => n.text

def InRange : Operand → Prop
  | .dice w => w.InRange
  | .number n => (n.value : Int) ≤ Total.greatest

def part (sign : Sign) : Operand → Part
  | .dice w => w.part sign
  | .number n => .flat sign n.value

def isDice : Operand → Bool
  | .dice _ => true
  | .number _ => false

end Operand

structure Term where
  gap : Gap
  lead : Lead
  operand : Operand

namespace Term

def text (t : Term) : Text := t.gap.text ++ (t.lead.text ++ t.operand.text)

def token (t : Term) : Token :=
  match t.operand with
  | .dice w => w.token (some t.lead)
  | .number n => flatToken t.lead n

def tokens (t : Term) : List Token := t.gap.tokens ++ [t.token]

def joins (t : Term) : Bool := !t.operand.isDice && t.lead.sign != .times

def part (t : Term) : Part := t.operand.part t.lead.sign

end Term

/-- The parts that terms are read as behind a part. Some parts wait for a number to join them. -/
def readOn (p : Part) (waits : Bool) : List Term → List Part
  | [] => [p]
  | t :: rest =>
    if waits && t.joins then readOn (p.withModifier t.token) false rest
    else p :: readOn t.part t.operand.isDice rest

structure Expression where
  gap : Gap
  first : DieWord
  terms : List Term
  tail : Gap

namespace Expression

def text (e : Expression) : Text :=
  e.gap.text ++ e.first.text ++ e.terms.flatMap Term.text ++ e.tail.text

def tokens (e : Expression) : List Token :=
  e.gap.tokens ++ [e.first.token none] ++ e.terms.flatMap Term.tokens ++ e.tail.tokens

structure InRange (e : Expression) : Prop where
  first : e.first.InRange
  terms : ∀ t ∈ e.terms, t.operand.InRange

def take (e : Expression) (n : Nat) : Expression := { e with terms := e.terms.take n }

theorem InRange.take {e : Expression} (range : e.InRange) (n : Nat) : (e.take n).InRange :=
  ⟨range.first, fun t ht => range.terms t (List.mem_of_mem_take ht)⟩

def parts (e : Expression) : List Part := readOn (e.first.part .plus) true e.terms

end Expression

variable {system : System}

theorem Gap.stops (g : Gap) : Stops g.text := by
  intro c hc
  rw [endsWord, g.blank c (List.mem_of_mem_head? hc)]
  rfl

theorem reads_term (t : Term) : Reads system t.text t.tokens := by
  rw [Term.text, Term.tokens, Term.token]
  cases t.operand with
  | dice w => exact reads_die t.gap (some t.lead) w
  | number n => exact reads_flat t.gap t.lead n

theorem stops_term (t : Term) : Stops t.text :=
  t.gap.stops.append (stops_cons (endsWord_symbol t.lead.sign) _)

/-- An expression is cut into its tokens. -/
theorem Expression.cut_text (e : Expression) :
    cut system.rules .description e.text = e.tokens := by
  have hstops : ∀ t ∈ e.terms, Stops t.text := fun t _ => stops_term t
  have hfirst : Reads system (e.gap.text ++ e.first.text) (e.gap.tokens ++ [e.first.token none]) :=
    reads_die e.gap none e.first
  have hterms := hfirst.append (.flatMap (fun t _ => reads_term t) hstops) (.flatMap hstops)
  rw [text, hterms _ e.tail.stops, cut_of_blank system e.tail.blank]
  rfl

/-- Among the tokens of a term with a sign there are no separators, tests or unsigned dice. -/
theorem calm_tokens (t : Term) : ∀ k ∈ t.tokens,
    k.kind ≠ .separator ∧ k.kind ≠ .test ∧ (k.kind = .dice → k.capture 1 ≠ none) := by
  refine List.forall_mem_append.mpr ⟨fun k hk => ?_, List.forall_mem_singleton.mpr ?_⟩
  · simp [kind_of_mem_gap hk]
  · rw [Term.token]
    cases t.operand with
    | dice w => simp [DieWord.token, Token.capture]
    | number n => simp [flatToken]

/-- The tokens of an expression make up one run for an expression. -/
theorem Expression.spokenRuns_tokens (e : Expression) : spokenRuns e.tokens = [e.tokens] := by
  have htail : ∀ k ∈ e.terms.flatMap Term.tokens ++ e.tail.tokens,
      k.kind ≠ .separator ∧ k.kind ≠ .test ∧ (k.kind = .dice → k.capture 1 ≠ none) := by
    refine List.forall_mem_append.mpr ⟨fun k hk => ?_, fun k hk => ?_⟩
    · obtain ⟨t, -, hk⟩ := List.mem_flatMap.mp hk
      exact calm_tokens t k hk
    · simp [kind_of_mem_gap hk]
  obtain ⟨rolls, hcalm⟩ := rollCutter_calm (fun k hk => (htail k hk).2) ⟨true, false⟩
  have hdice : rollCutter.Passes rollCutter.fresh [e.first.token none] ⟨true, false⟩ :=
    rollCutter_die (fun _ => ⟨rfl, rfl⟩) e.first
  have hwhole : ∀ k ∈ e.tokens, k.kind ≠ .separator := by
    rw [tokens, List.append_assoc]
    refine List.forall_mem_append.mpr ⟨List.forall_mem_append.mpr ⟨fun k hk => ?_, ?_⟩,
      fun k hk => (htail k hk).1⟩
    · simp [kind_of_mem_gap hk]
    · simp [DieWord.token]
  refine spokenRuns_of_fits hwhole ⟨e.first.token none, by simp [tokens], rfl⟩ ?_
  rw [tokens, List.append_assoc]
  exact (((rollCutter_gap e.gap _).append hdice).append hcalm).1

theorem modifier_part_of_isDice {t : Term} (h : t.operand.isDice = true) :
    t.part.modifier = 0 := by
  rw [Term.part]
  cases hoperand : t.operand with
  | dice w => rfl
  | number n => simp [hoperand, Operand.isDice] at h

theorem isSimple_part {t : Term} (range : t.operand.InRange) : t.part.IsSimple := by
  rw [Term.part]
  cases hoperand : t.operand with
  | dice w =>
    rw [hoperand] at range
    exact DieWord.InRange.isSimple range t.lead.sign
  | number n => exact ⟨rfl, rfl, rfl, Nat.zero_le _, Nat.zero_le _⟩

theorem isSimple_of_mem_readOn {terms : List Term} (range : ∀ t ∈ terms, t.operand.InRange)
    {p : Part} (simple : p.IsSimple) (waits : Bool) : ∀ q ∈ readOn p waits terms, q.IsSimple := by
  induction terms generalizing p waits with
  | nil => simpa [readOn] using simple
  | cons t rest ih =>
    obtain ⟨ht, hrest⟩ := List.forall_mem_cons.mp range
    rw [readOn]
    split
    · exact ih hrest (simple.withModifier t.token) false
    · exact List.forall_mem_cons.mpr ⟨simple, ih hrest (isSimple_part ht) _⟩

theorem gives_part {t : Term} (range : t.operand.InRange) :
    Part.Gives system [t.token] .empty t.part := by
  rw [Term.token, Term.part]
  cases hoperand : t.operand with
  | dice w =>
    rw [hoperand] at range
    exact Part.gives_die .empty range
  | number n =>
    rw [hoperand] at range
    have h : Part.Gives system _ .empty _ := Part.gives_flat .empty t.lead n
    rw [Part.withModifier_flatToken _ range] at h
    exact h

/-- What is remembered of a run that waits for a number, or does not. -/
def Waits (m : PartMemory) : Bool → Prop
  | true => m = ⟨true, false, false⟩
  | false => m.modifier = true

theorem passes_part (t : Term) :
    ∃ m, partCutter.Passes partCutter.fresh [t.token] m ∧ Waits m t.operand.isDice := by
  rw [Term.token]
  cases t.operand with
  | dice w => exact ⟨_, partCutter_die (some t.lead) w, rfl⟩
  | number n => exact ⟨_, partCutter_flat ⟨rfl, rfl⟩ n fun _ => rfl, rfl⟩

/-- A term that does not join opens a run of its own. -/
theorem breaks_of_waits {m : PartMemory} {waits : Bool} (h : Waits m waits) {t : Term}
    (apart : (waits && t.joins) = false) : partCutter.breaks m t.token = true := by
  rw [Term.joins] at apart
  rw [Term.token]
  cases hoperand : t.operand with
  | dice w =>
    change (m.dice || m.modifier) = true
    cases waits with
    | true => rw [h]; rfl
    | false => rw [h, Bool.or_true]
  | number n =>
    rw [breaks_flatToken]
    cases waits with
    | true =>
      have htimes : t.lead.sign = .times := by simpa [hoperand, Operand.isDice] using apart
      rw [h, htimes]
      rfl
    | false => rw [h]; rfl

/-- Only a number joins, and only by being added or subtracted. -/
theorem number_of_joins {t : Term} (joins : t.joins = true) :
    ∃ n, t.operand = .number n ∧ t.token = flatToken t.lead n ∧ t.lead.sign ≠ .times := by
  rw [Term.joins, Bool.and_eq_true] at joins
  obtain ⟨hnumber, hsign⟩ := joins
  rw [Term.token]
  cases hoperand : t.operand with
  | dice w => simp [hoperand, Operand.isDice] at hnumber
  | number n => exact ⟨n, rfl, rfl, by simpa using hsign⟩

/-- A term that joins goes on with the run. -/
theorem passes_of_joins {t : Term} (joins : t.joins = true) :
    partCutter.Passes ⟨true, false, false⟩ [t.token] ⟨true, true, false⟩ := by
  obtain ⟨n, -, htoken, hsign⟩ := number_of_joins joins
  have hplain : (t.lead.sign == .times) = false := by simpa using hsign
  have hpasses : partCutter.Passes ⟨true, false, false⟩ [flatToken t.lead n] _ :=
    partCutter_flat ⟨rfl, rfl⟩ n fun h => absurd h hsign
  rwa [hplain, ← htoken] at hpasses

theorem gives_joined (p : Part) {t : Term} (joins : t.joins = true) :
    Part.Gives system [t.token] p (p.withModifier t.token) := by
  obtain ⟨n, -, htoken, -⟩ := number_of_joins joins
  rw [htoken]
  exact Part.gives_flat p t.lead n

/-- The runs of an expression's tokens, from one of its parts on. -/
theorem partRuns_terms {terms : List Term} (range : ∀ t ∈ terms, t.operand.InRange) (tail : Gap)
    {run : List Token} {m : PartMemory} {p : Part} (waits : Bool) (nonempty : run ≠ [])
    (passes : partCutter.Passes partCutter.fresh run m) (h : Waits m waits)
    (gives : Part.Gives system run .empty p) (simple : p.IsSimple) :
    (partRuns (run ++ (terms.flatMap Term.tokens ++ tail.tokens))).map (Part.ofTokens system) =
      readOn p waits terms := by
  induction terms generalizing run m p waits with
  | nil =>
    have hruns : partRuns (run ++ tail.tokens) = [run ++ tail.tokens] :=
      Cutter.runs_of_fits (by simp [nonempty]) (passes.append (partCutter_gap tail m)).1
    rw [List.flatMap_nil, List.nil_append, hruns, List.map_singleton, readOn,
      Part.ofTokens_of_gives (gives.append (Part.gives_gap tail p)) simple.description]
  | cons t rest ih =>
    obtain ⟨ht, hrest⟩ := List.forall_mem_cons.mp range
    have hsplit : run ++ ((t :: rest).flatMap Term.tokens ++ tail.tokens) =
        run ++ t.gap.tokens ++ t.token :: (rest.flatMap Term.tokens ++ tail.tokens) := by
      simp [Term.tokens]
    rw [hsplit, readOn]
    cases hjoins : waits && t.joins with
    | true =>
      obtain ⟨rfl, hjoins⟩ := Bool.and_eq_true_iff.mp hjoins
      obtain rfl : m = ⟨true, false, false⟩ := h
      have hpasses := (passes.append (partCutter_gap t.gap _)).append (passes_of_joins hjoins)
      have hgives := (gives.append (Part.gives_gap t.gap p)).append (gives_joined p hjoins)
      have hmore := ih hrest false (by simp) hpasses rfl hgives
        (simple.withModifier t.token)
      rw [List.append_assoc, List.singleton_append] at hmore
      exact hmore
    | false =>
      have hgap := passes.append (partCutter_gap t.gap m)
      have hbreaks := breaks_of_waits h hjoins
      rw [← hgap.2] at hbreaks
      obtain ⟨m', hpasses, hwaits⟩ := passes_part t
      have hmore := ih hrest _ (List.cons_ne_nil _ _) hpasses hwaits (gives_part ht)
        (isSimple_part ht)
      rw [partRuns, Cutter.runs_append_cons (by simp [nonempty]) hgap.1 hbreaks, List.map_cons,
        Part.ofTokens_of_gives (gives.append (Part.gives_gap t.gap p)) simple.description]
      exact congrArg (p :: ·) hmore

theorem readOn_ne_nil (p : Part) (waits : Bool) (terms : List Term) :
    readOn p waits terms ≠ [] := by
  induction terms generalizing p waits with
  | nil => simp [readOn]
  | cons t rest ih =>
    rw [readOn]
    split
    · exact ih _ _
    · simp

/-- An expression is read as its parts. -/
theorem Expression.ofTokens_tokens {e : Expression} (range : e.InRange) :
    Dice.ofTokens system e.tokens = ⟨e.parts⟩ := by
  have hgives : Part.Gives system (e.gap.tokens ++ [e.first.token none]) .empty
      (e.first.part .plus) :=
    (Part.gives_gap e.gap .empty).append (Part.gives_die .empty range.first)
  have hparts : (partRuns e.tokens).map (Part.ofTokens system) = e.parts := by
    rw [tokens, List.append_assoc]
    exact partRuns_terms range.terms e.tail true (by simp)
      ((partCutter_gap e.gap _).append (partCutter_die none e.first)) rfl hgives
      (range.first.isSimple .plus)
  have huntested : ∀ q ∈ e.parts, q.test = none := fun q hq =>
    (isSimple_of_mem_readOn range.terms (range.first.isSimple .plus) true q hq).test
  rw [Dice.ofTokens, hparts]
  cases hcons : e.parts with
  | nil => exact absurd hcons (readOn_ne_nil _ _ _)
  | cons p rest =>
    rw [hcons] at huntested
    exact Dice.normalized_of_untested huntested

end Written

end Tabletop
