import Tabletop.Number
import Tabletop.Text.Basic

/-!
# Tokens and runs of tokens

A token is a classified piece of a command. It holds exactly the characters that it stands
for, so the pieces of all tokens of a command make up the command again.
-/

namespace Tabletop

namespace Token

inductive Kind where
  | separator | dice | modifier | test | crit | hunger | description
  deriving DecidableEq, Repr

def Kind.name : Kind → String
  | .separator => "<separator>"
  | .dice => "<dice>"
  | .modifier => "<modifier>"
  | .test => "<test>"
  | .crit => "<crit>"
  | .hunger => "<hunger>"
  | .description => "<description>"

end Token

structure Token where
  kind : Token.Kind
  /-- The characters of the token. -/
  raw : Text
  /-- How many bytes of the command stand before the token. -/
  start : Nat
  /-- What the groups of the rule's pattern captured. -/
  captures : List (Option Text)
  deriving DecidableEq, Repr

namespace Token

/-- How many bytes of the command stand before the end of the token. -/
def stop (t : Token) : Nat := t.start + t.raw.byteSize

/-- What a group captured; groups are numbered from 1. -/
def capture (t : Token) (group : Nat) : Option Text :=
  if group = 0 then none else (t.captures[group - 1]?).join

def unmatched (kind : Kind) (raw : Text) (start : Nat) : Token := ⟨kind, raw, start, []⟩

end Token

/-!
## Runs of tokens

The tokens of a command fall into runs: first one run for each expression, then one for each
part of an expression. A run goes on until the next token would not fit into it. Whether it
fits depends only on the kinds of token that the run holds already.
-/

namespace Token

/-- How to cut tokens into runs: what is remembered of a run, starting from nothing, and
which tokens do not fit into a run of which that much is remembered. -/
structure Cutter where
  Memory : Type
  fresh : Memory
  remember : Memory → Token → Memory
  breaks : Memory → Token → Bool

namespace Cutter

/-- The rest of the current run, and the runs behind it. -/
def runOn (c : Cutter) (m : c.Memory) : List Token → List Token × List (List Token)
  | [] => ([], [])
  | t :: rest =>
    if c.breaks m t then
      let (run, more) := c.runOn (c.remember c.fresh t) rest
      ([], (t :: run) :: more)
    else
      let (run, more) := c.runOn (c.remember m t) rest
      (t :: run, more)

def runs (c : Cutter) : List Token → List (List Token)
  | [] => []
  | t :: rest =>
    let (run, more) := c.runOn (c.remember c.fresh t) rest
    (t :: run) :: more

theorem join_runOn (c : Cutter) (m : c.Memory) (tokens : List Token) :
    (c.runOn m tokens).1 ++ (c.runOn m tokens).2.flatten = tokens := by
  induction tokens generalizing m with
  | nil => rfl
  | cons t rest ih =>
    by_cases h : c.breaks m t <;> simp [runOn, h, ih]

/-- No token is lost, and none changes its place. -/
theorem join_runs (c : Cutter) (tokens : List Token) : (c.runs tokens).flatten = tokens := by
  cases tokens with
  | nil => rfl
  | cons t rest => simp [runs, join_runOn]

theorem ne_nil_of_mem_runOn (c : Cutter) (m : c.Memory) (tokens run : List Token)
    (h : run ∈ (c.runOn m tokens).2) : run ≠ [] := by
  induction tokens generalizing m with
  | nil => simp [runOn] at h
  | cons t rest ih =>
    by_cases hb : c.breaks m t
    · simp only [runOn, hb, ↓reduceIte, List.mem_cons] at h
      rcases h with h | h
      · simp [h]
      · exact ih _ h
    · simp only [runOn, hb, Bool.false_eq_true, ↓reduceIte] at h
      exact ih _ h

theorem ne_nil_of_mem_runs (c : Cutter) (tokens run : List Token) (h : run ∈ c.runs tokens) :
    run ≠ [] := by
  cases tokens with
  | nil => simp [runs] at h
  | cons t rest =>
    simp only [runs, List.mem_cons] at h
    rcases h with h | h
    · simp [h]
    · exact c.ne_nil_of_mem_runOn _ _ _ h

end Cutter

structure RollMemory where
  rolls : Bool
  tests : Bool
  deriving DecidableEq, Repr

/-- A run for an expression ends before an unsigned die once it rolls or tests something, and
before a second test. -/
def rollCutter : Cutter where
  Memory := RollMemory
  fresh := ⟨false, false⟩
  remember m t :=
    match t.kind with
    | .dice | .modifier => { m with rolls := true }
    | .test => { m with tests := true }
    | _ => m
  breaks m t :=
    match t.kind with
    | .dice => (t.capture 1).isNone && (m.rolls || m.tests)
    | .test => m.tests
    | _ => false

/-- The tokens for each expression: separators are dropped, and the tokens between them are cut into
runs. Separators with nothing between them give no run at all rather than an empty one, which would
make no expression: `Group.diceOfTokens` leaves out runs that say nothing. -/
def rollRuns (tokens : List Token) : List (List Token) :=
  (tokens.splitOnP fun t => t.kind == .separator).flatMap rollCutter.runs

structure PartMemory where
  dice : Bool
  modifier : Bool
  /-- Whether the modifier multiplies. -/
  times : Bool
  deriving DecidableEq, Repr

/-- A run for a part ends before a die once it holds a die or a modifier, before a second
modifier, and before a multiplier once it holds a die. -/
def partCutter : Cutter where
  Memory := PartMemory
  fresh := ⟨false, false, false⟩
  remember m t :=
    match t.kind with
    | .dice => { m with dice := true }
    | .modifier => { m with modifier := true, times := Sign.ofCapture (t.capture 1) == .times }
    | _ => m
  breaks m t :=
    match t.kind with
    | .dice => m.dice || m.modifier
    | .modifier =>
      m.modifier || m.times || (Sign.ofCapture (t.capture 1) == .times && m.dice)
    | _ => false

def partRuns (tokens : List Token) : List (List Token) := partCutter.runs tokens

end Token

end Tabletop
