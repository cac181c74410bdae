import Tabletop.Engine
import Tabletop.Proofs.Checked.Tokens
import Tabletop.Proofs.Group.WellFormed

/-!
# Checked reading

Reading a command never leaves the range of totals and never loses its place. The one number that is
turned around is that of a test with nothing to roll. A part without sides is never negative when it
is read, so there is always a number opposite to its own.
-/

namespace Tabletop

open Checked

namespace Part

/-- A part with at most `most` dice of which all numbers are counts. -/
structure IsWithin (most : Nat) (p : Part) : Prop where
  count : p.count ≤ most
  sides : p.sides ≤ maxCount
  hunger : ∀ n ∈ p.hunger, n ≤ maxCount

theorem IsWithin.mono {most more : Nat} {p : Part} (h : p.IsWithin most) (le : most ≤ more) :
    p.IsWithin more := ⟨h.count.trans le, h.sides, h.hunger⟩

theorem isWithin_flat (most : Nat) (sign : Sign) (n : Int) : (flat sign n).IsWithin most :=
  ⟨Nat.zero_le _, Nat.zero_le _, nofun⟩

/-- A number of hunger dice that cannot be counted is absent. -/
theorem hunger_le_of_absorb? {system : System} {p q : Part} {t : Token}
    (absorbs : system.absorb? p t = some q) (h : ∀ n ∈ p.hunger, n ≤ maxCount) :
    ∀ n ∈ q.hunger, n ≤ maxCount := by
  unfold System.absorb? at absorbs
  split at absorbs <;> cases absorbs
  · exact h
  · intro n hn
    obtain ⟨_, -, hread⟩ := Option.bind_eq_some_iff.mp hn
    exact Decimal.le_of_readUpTo? hread

theorem isWithin_ofTokens (system : System) (tokens : List Token) :
    (ofTokens system tokens).IsWithin maxDice := by
  have hlimited := isLimited_ofTokens system tokens
  refine ⟨hlimited.count, hlimited.sides, ?_⟩
  refine ofTokens_induction (fun p => ∀ n ∈ p.hunger, n ≤ maxCount) nofun (fun _ _ _ _ h => h)
    (fun t _ _ p h => ?_) (fun _ _ _ _ _ _ h => h) (fun _ _ _ _ hq h => hunger_le_of_absorb? hq h)
    (fun p description h => ?_)
  · obtain ⟨sign, modifier, hp⟩ := p.exists_withModifier_eq t
    rwa [hp]
  · obtain ⟨save, hp⟩ := exists_finish_eq system { p with description }
    rwa [hp]

/-- A number is read as a total, and what it is added to or subtracted from stays one. -/
theorem inRange_withModifier {p : Part} (h : Total.InRange p.modifier) (t : Token) :
    Total.InRange (p.withModifier t).modifier := by
  rw [withModifier]
  split
  · exact h
  · next value hvalue =>
    obtain ⟨_, -, hread⟩ := Option.bind_eq_some_iff.mp hvalue
    obtain ⟨hlow, hhigh⟩ := readTotal?_bounds hread
    split
    · exact ⟨le_trans (by decide) hlow, hhigh⟩
    · split
      · exact Total.add_inRange _ _
      · exact Total.sub_inRange _ _
      · exact h

theorem inRange_modifier_ofTokens (system : System) (tokens : List Token) :
    Total.InRange (ofTokens system tokens).modifier := by
  refine ofTokens_induction (fun p => Total.InRange p.modifier) (by decide) (fun _ _ _ _ h => h)
    (fun t _ _ _ h => inRange_withModifier h t) (fun _ _ _ _ _ _ h => h)
    (fun _ _ _ _ hq h => ?_) (fun p description h => ?_)
  · obtain ⟨hunger, critThreshold, rfl⟩ := exists_absorb?_eq hq
    exact h
  · obtain ⟨save, hp⟩ := exists_finish_eq system { p with description }
    rwa [hp]

end Part

namespace Dice

/-- The part as a d20, with a check where the modifier changes its sign. -/
def onD20? (p : Part) : Option Part := do
  let modifier ← if p.sign = .minus then total? (-p.modifier) else some p.modifier
  some { p with count := 1, sides := 20, sign := .plus, modifier }

def testOnD20? : List Part → Option (List Part)
  | [] => some []
  | p :: rest =>
    if p.test.isSome then do
      let tested ← onD20? p
      some (tested :: rest)
    else do
      let rest ← testOnD20? rest
      some (p :: rest)

def normalized? (parts : List Part) : Option Dice := do
  let parts ← if parts.any fun p => 0 < p.sides then some parts else testOnD20? parts
  some ⟨parts⟩

def ofTokens? (system : System) (tokens : List Token) : Option Dice :=
  normalized? ((Token.termRuns tokens).map (Part.ofTokens system))

theorem onD20?_eq {p : Part} (h : Total.InRange (-p.modifier)) : onD20? p = some (onD20 p) := by
  rw [onD20?, onD20, total?_of_inRange h]
  split <;> rfl

theorem testOnD20?_eq {parts : List Part} (h : ∀ p ∈ parts, Total.InRange (-p.modifier)) :
    testOnD20? parts = some (testOnD20 parts) := by
  induction parts with
  | nil => rfl
  | cons p rest ih =>
    obtain ⟨hp, hrest⟩ := List.forall_mem_cons.mp h
    rw [testOnD20?, testOnD20, onD20?_eq hp, ih hrest]
    split <;> rfl

/-- Only parts without sides change their sign. -/
theorem normalized?_eq {parts : List Part}
    (h : ∀ p ∈ parts, p.sides = 0 → Total.InRange (-p.modifier)) :
    normalized? parts = some (normalized parts) := by
  rw [normalized?, normalized]
  split
  · rfl
  · next flat =>
    have hflat : ∀ p ∈ parts, p.sides = 0 := by simpa using flat
    rw [testOnD20?_eq fun p hp => h p hp (hflat p hp)]
    rfl

/-- The opposite of a number in range is in range if the number is not negative. -/
theorem inRange_neg {n : Int} (h : Total.InRange n) (nonneg : 0 ≤ n) : Total.InRange (-n) := by
  simp only [Total.InRange, Total.least, Total.greatest] at *
  omega

theorem ofTokens?_eq (settings : Settings) (tokens : List Token) :
    ofTokens? (.ofSettings settings) tokens = some (ofTokens (.ofSettings settings) tokens) := by
  rw [ofTokens?, ofTokens_eq_normalized]
  refine normalized?_eq (List.forall_mem_map.mpr fun run hrun hsides => ?_)
  have hread := Part.isWellFormed_ofTokens settings (Token.apart_of_mem_termRuns hrun)
  exact inRange_neg (Part.inRange_modifier_ofTokens _ run) (hread.flat hsides)

/-- The least total has no opposite. -/
example : onD20? { sign := .minus, modifier := Total.least } = none := by decide

/-- What is known of an expression that is read: its parts can be counted, and the dice of each
part are still to be rolled. -/
structure IsWithin (d : Dice) : Prop where
  length : d.parts.length ≤ maxCount
  parts : ∀ p ∈ d.parts, p.IsWithin maxDice
  fixed : ∀ p ∈ d.parts, p.fixed = none

theorem isWithin_onD20 {p : Part} (h : p.IsWithin maxDice) : (onD20 p).IsWithin maxDice :=
  ⟨Nat.le_add_left 1 999, Nat.le_add_left 20 _, h.hunger⟩

theorem length_normalized (parts : List Part) : (normalized parts).parts.length = parts.length := by
  rw [normalized]
  split
  · rfl
  · exact length_testOnD20 parts

end Dice

namespace Token

/-- There are no more runs than tokens in them, for no run is empty. -/
theorem length_le_length_flatten {runs : List (List Token)} (h : ∀ run ∈ runs, run ≠ []) :
    runs.length ≤ runs.flatten.length := by
  rw [List.length_flatten, ← List.length_map List.length]
  exact List.length_le_sum_of_one_le _
    (List.forall_mem_map.mpr fun run hrun => List.length_pos_iff.mpr (h run hrun))

theorem length_termRuns_le (tokens : List Token) :
    (termRuns tokens).length ≤ max 1 tokens.length := by
  rw [termRuns]
  split
  · exact Nat.le_max_left _ _
  · have hruns := length_le_length_flatten (partCutter.ne_nil_of_mem_runs tokens)
    rw [partCutter.join_runs] at hruns
    exact hruns.trans (Nat.le_max_right _ _)

theorem length_flatten_rollRuns_le (tokens : List Token) :
    (rollRuns tokens).flatten.length ≤ tokens.length := by
  rw [flatten_rollRuns]
  exact List.length_filter_le _ _

theorem length_expressionRuns_le (tokens : List Token) :
    (expressionRuns tokens).length ≤ max 1 tokens.length := by
  have hruns : (rollRuns tokens).length ≤ tokens.length := by
    refine (length_le_length_flatten fun run hrun => ?_).trans (length_flatten_rollRuns_le tokens)
    obtain ⟨piece, -, hmem⟩ := List.mem_flatMap.mp hrun
    exact rollCutter.ne_nil_of_mem_runs piece run hmem
  rw [expressionRuns]
  split
  · exact Nat.le_max_left _ _
  · exact (List.length_filter_le _ _).trans (hruns.trans (Nat.le_max_right _ _))

theorem length_le_of_mem_expressionRuns {tokens run : List Token}
    (h : run ∈ expressionRuns tokens) : run.length ≤ tokens.length := by
  rw [expressionRuns] at h
  split at h
  · rw [List.mem_singleton.mp h]
  · have hrun := List.sublist_flatten_of_mem (List.mem_of_mem_filter h)
    exact hrun.length_le.trans (length_flatten_rollRuns_le tokens)

end Token

namespace Dice

theorem isWithin_ofTokens (system : System) {tokens : List Token}
    (short : tokens.length ≤ maxCount) : (ofTokens system tokens).IsWithin where
  length := by
    rw [ofTokens_eq_normalized, length_normalized, List.length_map]
    exact (Token.length_termRuns_le tokens).trans (max_le (by decide) short)
  parts := forall_mem_ofTokens _ ⟨Nat.zero_le _, Nat.zero_le _, nofun⟩
    (Part.isWithin_ofTokens system) (fun _ h => isWithin_onD20 h) tokens
  fixed := fixed_ofTokens system tokens

end Dice

namespace Group

/-- The expressions that tokens describe. A run for an expression may begin behind a separator, at
most where the tokens end. -/
def diceOfTokens? (system : System) (tokens : List Token) : Option (List Dice) := do
  let _ ← place? tokens.length
  (Token.expressionRuns tokens).mapM (Dice.ofTokens? system)

theorem diceOfTokens?_eq (settings : Settings) {tokens : List Token}
    (short : tokens.length ≤ greatestPlace) :
    diceOfTokens? (.ofSettings settings) tokens =
      some (diceOfTokens (.ofSettings settings) tokens) := by
  rw [diceOfTokens?, place?_of_le short, diceOfTokens_eq_map]
  exact mapM_eq_some fun run _ => Dice.ofTokens?_eq settings run

/-- What is known of a group that is read: its expressions can be counted. -/
structure IsWithin (g : Group) : Prop where
  length : g.dice.length ≤ maxCount
  dice : ∀ d ∈ g.dice, d.IsWithin

end Group

namespace Engine

/-- Reads a command, with a check of every place and of every number. -/
def parse? (e : Engine) (text : Text) : Option Group := do
  let tokens ← Token.tokenize? e.rules .description text
  let dice ← Group.diceOfTokens? e.system tokens
  some { dice, verbosity := e.settings.verbosity, critMethod := e.settings.critMethod }

theorem length_tokenize_le (e : Engine) (text : Text) : (e.tokenize text).length ≤ text.length :=
  (Token.tiles_scan (fun rule _ => Pattern.staysWithin rule.pattern) .description
    (Token.endsBy_unknown e.rules _)).length_le

variable (settings : Settings) {text : Text}

theorem parse?_eq (short : text.byteSize ≤ maxCount) :
    (ofSettings settings).parse? text = some ((ofSettings settings).parse text) := by
  have hsize : text.byteSize ≤ greatestPlace := short.trans (by decide)
  have htokens : ((ofSettings settings).tokenize text).length ≤ greatestPlace :=
    (length_tokenize_le _ text).trans (text.length_le_byteSize.trans hsize)
  have hdice : Group.diceOfTokens? (ofSettings settings).system
      (Token.tokenize (ofSettings settings).rules .description text) =
        some ((ofSettings settings).parse text).dice := Group.diceOfTokens?_eq settings htokens
  rw [parse?, Token.tokenize?_eq hsize, Option.bind_eq_bind, Option.bind_some, hdice]
  rfl

theorem isWithin_parse (short : text.byteSize ≤ maxCount) :
    ((ofSettings settings).parse text).IsWithin := by
  have htokens : ((ofSettings settings).tokenize text).length ≤ maxCount :=
    (length_tokenize_le _ text).trans (text.length_le_byteSize.trans short)
  have hdice : ((ofSettings settings).parse text).dice =
      (Token.expressionRuns ((ofSettings settings).tokenize text)).map
        (Dice.ofTokens (.ofSettings settings)) := Group.diceOfTokens_eq_map _ _
  refine ⟨?_, ?_⟩ <;> rw [hdice]
  · rw [List.length_map]
    exact (Token.length_expressionRuns_le _).trans (max_le (by decide) htokens)
  · exact List.forall_mem_map.mpr fun run hrun =>
      Dice.isWithin_ofTokens _ ((Token.length_le_of_mem_expressionRuns hrun).trans htokens)

end Engine

end Tabletop
