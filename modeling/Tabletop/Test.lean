import Tabletop.Number
import Tabletop.Text.Basic
import Tabletop.Token.Basic

/-!
# Tests and grades

A test compares a total with a target value. It is written with an operator, or with the name
of what is tested against, which stands for "at least". A hidden test keeps its value out of
every text. A grade is the outcome of a roll measured against its test.
-/

namespace Tabletop

inductive CompareOp where
  | lt | gt | le | ge | eq | ne
  deriving DecidableEq, Repr

namespace CompareOp

def holds : CompareOp → Int → Int → Bool
  | .lt, a, b => a < b
  | .gt, a, b => b < a
  | .le, a, b => a ≤ b
  | .ge, a, b => b ≤ a
  | .eq, a, b => a == b
  | .ne, a, b => a != b

def symbol : CompareOp → String
  | .lt => "<"
  | .gt => ">"
  | .le => "<="
  | .ge => ">="
  | .eq => "=="
  | .ne => "!="

end CompareOp

inductive Target where
  | vs | ac | kac | eac | dc
  /-- A spelled operator. -/
  | operator
  deriving DecidableEq, Repr

namespace Target

/-- The targets that make a tested d20 an attack. -/
def isArmorClass : Target → Bool
  | .ac | .kac | .eac => true
  | _ => false

/-- How a target is written, in small letters. -/
def spellings : List (Text × Target × CompareOp) :=
  [("ac".toList, .ac, .ge), ("kac".toList, .kac, .ge), ("eac".toList, .eac, .ge),
    ("dc".toList, .dc, .ge), ("gteq".toList, .operator, .ge), (">=".toList, .operator, .ge),
    ("=>".toList, .operator, .ge), ("gt".toList, .operator, .gt), (">".toList, .operator, .gt),
    ("lteq".toList, .operator, .le), ("<=".toList, .operator, .le), ("=<".toList, .operator, .le),
    ("lt".toList, .operator, .lt), ("<".toList, .operator, .lt), ("eq".toList, .operator, .eq),
    ("=".toList, .operator, .eq), ("==".toList, .operator, .eq), ("!=".toList, .operator, .ne),
    ("<>".toList, .operator, .ne)]

/-- The target and the operator that a spelling stands for. A leading `vs` adds nothing to what
follows it; an unknown spelling reads as the operator `>=`. -/
def ofSpelling (raw : Text) : Target × CompareOp :=
  let spelling := Text.lower (Text.trim raw)
  let (sawVs, spelling) :=
    match "vs".toList.isPrefixOf? spelling with
    | some rest => (true, Text.trimStart rest)
    | none => (false, spelling)
  if sawVs ∧ spelling = [] then (.vs, .ge)
  else (spellings.lookup spelling).getD (.operator, .ge)

end Target

structure Test where
  target : Target
  op : CompareOp
  value : Int
  hidden : Bool
  deriving DecidableEq, Repr

namespace Test

def passes (t : Test) (total : Int) : Bool := t.op.holds total t.value

/-- The text between two bars at either end, if it is written so. -/
def unbarred? (s : Text) : Option Text := do
  let rest ← "||".toList.isPrefixOf? s
  "||".toList.isSuffixOf? rest

/-- Reads a test token. A value between bars is hidden; a value that is no number makes no
test. -/
def ofToken? (t : Token) : Option Test := do
  let (target, op) := Target.ofSpelling (← t.capture 1)
  let written := Text.trim (← t.capture 2)
  let value ← Decimal.readTotal? (Text.trim ((unbarred? written).getD written))
  return ⟨target, op, value, (unbarred? written).isSome⟩

def label (t : Test) : String :=
  match t.target with
  | .vs => "vs"
  | .ac => "AC"
  | .kac => "KAC"
  | .eac => "EAC"
  | .dc => "DC"
  | .operator => t.op.symbol

def text (t : Test) : Text :=
  t.label.toList ++ ' ' :: if t.hidden then "??".toList else Decimal.ofInt t.value

theorem text_of_hidden {t u : Test} (ht : t.hidden = true) (hu : u = { t with value := u.value }) :
    t.text = u.text := by
  rw [hu]; simp [text, label, ht]

end Test

/-! ## Grades, from the worst to the best -/

inductive Grade where
  /-- There was no test. -/
  | unknown
  | bestialFailure | criticalFailure | failure | success | criticalSuccess | messyCritical
  deriving DecidableEq, Repr

namespace Grade

def rank? : Grade → Option Nat
  | .unknown => none
  | .bestialFailure => some 0
  | .criticalFailure => some 1
  | .failure => some 2
  | .success => some 3
  | .criticalSuccess => some 4
  | .messyCritical => some 5

def isGraded (g : Grade) : Bool := g != .unknown

def isSuccess : Grade → Bool
  | .success | .criticalSuccess | .messyCritical => true
  | _ => false

def isFailure : Grade → Bool
  | .failure | .criticalFailure | .bestialFailure => true
  | _ => false

def isCritical : Grade → Bool
  | .criticalSuccess | .messyCritical => true
  | _ => false

def glyph : Grade → String
  | .unknown => "[dice]"
  | .bestialFailure => "[bestial-failure]"
  | .criticalFailure => "[critical-failure]"
  | .failure => "[failure]"
  | .success => "[success]"
  | .criticalSuccess => "[critical-success]"
  | .messyCritical => "[messy-critical]"

def label : Grade → String
  | .unknown => "Unknown"
  | .bestialFailure => "Bestial Failure"
  | .criticalFailure => "Critical Failure"
  | .failure => "Failure"
  | .success => "Success"
  | .criticalSuccess => "Critical Success"
  | .messyCritical => "Messy Critical"

/-- The grade of a total by a test: passed or failed. Without a test there is nothing to grade. -/
def ofTest (test : Option Test) (total : Int) : Grade :=
  match test with
  | none => .unknown
  | some t => if t.passes total then .success else .failure

@[simp] theorem ofTest_none (total : Int) : ofTest none total = .unknown := rfl

end Grade

end Tabletop
