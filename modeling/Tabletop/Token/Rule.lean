import Tabletop.Pattern.Reader
import Tabletop.Token.Basic

/-!
# Token rules

A rule names the kind of token that a pattern describes, in whatever language the pattern is given.
A pattern that matches the empty text would match without end at one place, so it makes no rule. The
rules of the dice notation stand here with their patterns; each is also given in its written form.
-/

namespace Tabletop

namespace Token

structure RuleOf (μ : Type) [Matcher μ] where
  kind : Kind
  pattern : μ
  /-- The pattern needs at least one character. -/
  needsText : Matcher.occursIn pattern [] = false

/-- A rule of the dice notation. -/
abbrev Rule := RuleOf Pattern

inductive RuleError where
  | invalidPattern (kind : Kind)
  | matchesEmpty (kind : Kind)
  deriving DecidableEq, Repr

def RuleError.message : RuleError → Text
  | .invalidPattern kind => s!"rule for {kind.name} has no valid pattern".toList
  | .matchesEmpty kind => s!"rule for {kind.name} matches the empty string".toList

namespace Rule

def ofPattern {μ : Type} [Matcher μ] (kind : Kind) (pattern : μ) : Except RuleError (RuleOf μ) :=
  if h : Matcher.occursIn pattern [] = false then .ok ⟨kind, pattern, h⟩
  else .error (.matchesEmpty kind)

def ofText (kind : Kind) (written : Text) : Except RuleError Rule :=
  match Pattern.read? written with
  | some pattern => ofPattern kind pattern
  | none => .error (.invalidPattern kind)

end Rule

end Token

namespace Pattern

def sign : Pattern := .one (.exactly ['-', '+', '*'])

def digits : Pattern := .many .digit 1

def blanks : Pattern := .many .blank 0

/-- The mark between two commands. -/
def separator : Pattern := .one (.exactly [';'])

/-- Dice. The groups are sign, count, sides, keep or drop, which end, how many. -/
def dice : Pattern :=
  concat [.maybe (concat [.group 1 sign, blanks]), .maybe (.group 2 digits),
    .one (.anyCase ['d']), .group 3 digits,
    .maybe (concat [.group 4 (.one (.anyCase ['k', 'd'])),
      .maybe (.group 5 (.one (.anyCase ['h', 'l']))), .group 6 digits])]

/-- A flat term. The groups are sign and size. -/
def modifier : Pattern := concat [.group 1 sign, blanks, .group 2 digits]

def targetWord : Pattern :=
  anyOf [concat (letters "vs" ++
      [blanks, .maybe (anyOf [word "eac", word "kac", word "ac", word "dc"])]),
    word "gteq", word "gt", word "lteq", word "lt", word "eq", word "eac", word "kac", word "ac",
    word "dc"]

def target : Pattern :=
  anyOf ([concat [.edge, targetWord]] ++
    [">=", "<=", "!=", "==", "=>", "=<", "<>", "=", ">", "<"].map fun s => concat (chars s))

/-- A test. The groups are target and value. -/
def test : Pattern :=
  concat [.group 1 target, blanks, .group 2 (anyOf [digits,
    concat (chars "||" ++ [blanks, digits, blanks] ++ chars "||")])]

/-- A mark for critical hits. The group is the natural roll that makes one. -/
def crit : Pattern := concat (.edge :: letters "crit" ++ [blanks, .group 1 digits, .edge])

/-- A mark for hunger dice. The group is their number. -/
def hunger : Pattern :=
  concat ([.edge] ++ letters "h" ++ [.maybe (word "unger"), blanks, .group 1 digits, .edge])

theorem read?_separator : read? ";".toList = some separator := by decide

theorem read?_dice :
    read? r"(?i)(?:([-+*])\s*)?(\d+)?d(\d+)(?:([kd])([hl])?(\d+))?".toList = some dice := by decide

theorem read?_modifier : read? r"([-+*])\s*(\d+)".toList = some modifier := by decide

set_option maxRecDepth 4096 in
theorem read?_test :
    read? (r"(?i)((?:\b(?:vs\s*(?:eac|kac|ac|dc)?|gteq|gt|lteq|lt|eq|eac|kac|ac|dc))" ++
      r"|>=|<=|!=|==|=>|=<|<>|=|>|<)\s*(\d+|\|\|\s*\d+\s*\|\|)").toList = some test := by decide

theorem read?_crit : read? r"(?i)\bcrit\s*(\d+)\b".toList = some crit := by decide

theorem read?_hunger : read? r"(?i)\bh(?:unger)?\s*(\d+)\b".toList = some hunger := by decide

end Pattern

namespace Token.Rule

def separator : Rule := ⟨.separator, .separator, by decide⟩

def dice : Rule := ⟨.dice, .dice, by decide⟩

def modifier : Rule := ⟨.modifier, .modifier, by decide⟩

def test : Rule := ⟨.test, .test, by decide⟩

def crit : Rule := ⟨.crit, .crit, by decide⟩

def hunger : Rule := ⟨.hunger, .hunger, by decide⟩

/-- The rules that every game system shares, in order of preference. -/
def shared : List Rule := [separator, dice, modifier, test]

def ahead (own : List Rule) : List Rule := own ++ shared

end Token.Rule

end Tabletop
