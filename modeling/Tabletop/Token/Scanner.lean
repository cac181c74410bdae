import Tabletop.Token.Rule

/-!
# The scanner

A command is cut into tokens from left to right. At the cursor the rules are tried first, in
order; a rule that matches right there wins. Otherwise the leftmost match further on wins, and
of two that begin together the one whose rule stands earlier; the text before it becomes a
token of the fallback kind. Only matches that hold a character count; they are called hits.

The scanner remembers for each rule where its pattern matches next, and searches again only
when the cursor has reached that match. A search reads the text from the cursor on as if
nothing stood before it, so the end of a token counts as the edge of a word.

How a pattern matches is left to its language. The scanner reads the matches and nothing else.
-/

namespace Tabletop

namespace Token

variable {μ : Type} [Matcher μ]

/-- A match of a rule that is not empty. The text in front of it is counted from the place that
the search began at. -/
structure Hit (μ : Type) [Matcher μ] where
  rule : RuleOf μ
  found : Found
  nonempty : 0 < found.length

namespace Hit

def of? (rule : RuleOf μ) (found : Found) : Option (Hit μ) :=
  if h : 0 < found.length then some ⟨rule, found, h⟩ else none

/-- The hit that begins earlier; of two that begin together, the first. -/
def earlier (a b : Hit μ) : Hit μ := if b.found.skipped < a.found.skipped then b else a

def leftmost? : List (Hit μ) → Option (Hit μ)
  | [] => none
  | c :: rest => some (rest.foldl earlier c)

def here? (rule : RuleOf μ) (text : Text) : Option (Hit μ) :=
  (Matcher.here? rule.pattern text).bind (of? rule)

def token (c : Hit μ) (text : Text) (start : Nat) : Token :=
  ⟨c.rule.kind, (text.drop c.found.skipped).take c.found.length,
    start + Text.byteSize (text.take c.found.skipped),
    c.found.groupTexts (Matcher.groups c.rule.pattern)⟩

def after (c : Hit μ) (text : Text) : Text := text.drop (c.found.skipped + c.found.length)

theorem after_lt (c : Hit μ) {text : Text} (h : text ≠ []) :
    (c.after text).length < text.length := by
  have := c.nonempty
  have : 0 < text.length := List.length_pos_iff.2 h
  simp only [after, List.length_drop]
  omega

/-- The tokens up to the end of a hit: the text before it, if there is any, and the hit itself. -/
def tokens (c : Hit μ) (fallback : Kind) (text : Text) (start : Nat) : List Token :=
  if c.found.skipped = 0 then [c.token text start]
  else [.unmatched fallback (text.take c.found.skipped) start, c.token text start]

def stop (c : Hit μ) (text : Text) (start : Nat) : Nat :=
  start + Text.byteSize (text.take (c.found.skipped + c.found.length))

end Hit

inductive Ahead where
  /-- No search was made yet. -/
  | unknown
  /-- There is no match up to the end of the command. -/
  | nowhere
  /-- A search from the given character of the command found a match. -/
  | known (origin : Nat) (found : Found)

namespace Ahead

def ofSearch (rule : RuleOf μ) (origin : Nat) (text : Text) : Ahead :=
  match Matcher.search? rule.pattern text with
  | some found => .known origin found
  | none => .nowhere

/-- Searches again from the cursor unless the known match still lies beyond it. -/
def refresh (a : Ahead) (rule : RuleOf μ) (cursor : Nat) (text : Text) : Ahead :=
  match a with
  | .unknown => ofSearch rule cursor text
  | .nowhere => .nowhere
  | .known origin found =>
    if origin + found.skipped ≤ cursor then ofSearch rule cursor text else a

def hit? (a : Ahead) (rule : RuleOf μ) (cursor : Nat) : Option (Hit μ) :=
  match a with
  | .known origin found =>
    Hit.of? rule { found with skipped := origin + found.skipped - cursor }
  | _ => none

end Ahead

/-- The next hit in the text at the cursor, and what is then known of the matches ahead. -/
def nextHit (rules : List (RuleOf μ)) (ahead : List Ahead) (cursor : Nat) (text : Text) :
    Option (Hit μ) × List Ahead :=
  match rules.findSome? fun rule => Hit.here? rule text with
  | some c => (some c, ahead)
  | none =>
    let ahead := rules.zipWith (fun rule a => a.refresh rule cursor text) ahead
    (Hit.leftmost? ((rules.zip ahead).filterMap fun (rule, a) => a.hit? rule cursor), ahead)

/-- Cuts the text at the cursor into tokens; the cursor is given in characters and in bytes. -/
def scan (rules : List (RuleOf μ)) (fallback : Kind) (ahead : List Ahead) (cursor start : Nat)
    (text : Text) : List Token :=
  if _h : text = [] then []
  else
    match nextHit rules ahead cursor text with
    | (none, _) => [.unmatched fallback text start]
    | (some c, ahead) =>
      c.tokens fallback text start ++
        scan rules fallback ahead (cursor + c.found.skipped + c.found.length)
          (c.stop text start) (c.after text)
termination_by text.length
decreasing_by exact c.after_lt ‹_›

/-- The tokens of a command; text that no rule matches is of the fallback kind. -/
def tokenize (rules : List (RuleOf μ)) (fallback : Kind) (text : Text) : List Token :=
  scan rules fallback (rules.map fun _ => .unknown) 0 0 text

/-!
## Scanning without memory

The plain reading of a rule list: at each cursor every rule is searched afresh, the leftmost
hit wins, and of those that begin together the one whose rule stands earliest. A rule whose
first match is empty has no hit.
-/

def hits (rules : List (RuleOf μ)) (text : Text) : List (Hit μ) :=
  rules.filterMap fun rule => (Matcher.search? rule.pattern text).bind (Hit.of? rule)

/-- Cuts a text that begins at a byte of the command into tokens. -/
def rescan (rules : List (RuleOf μ)) (fallback : Kind) (start : Nat) (text : Text) : List Token :=
  if _h : text = [] then []
  else
    match Hit.leftmost? (hits rules text) with
    | none => [.unmatched fallback text start]
    | some c =>
      c.tokens fallback text start ++ rescan rules fallback (c.stop text start) (c.after text)
termination_by text.length
decreasing_by exact c.after_lt ‹_›

end Token

end Tabletop
