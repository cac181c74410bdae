import Tabletop.Engine

/-!
# The console

The dialogue with a user: a prompt before every line, the report on each command, and messages
about refused lines on a channel of their own. Blanks around a line do not matter, and a blank
line does nothing.
-/

namespace Tabletop

namespace Console

def prompt : Text := "> ".toList

def help : Text :=
  ("Enter dice notation to roll it, e.g. `2d6+3 vs 10` or `1d20+7 ac 18 2d6+4`.\n" ++
    "  :system <generic|pathfinder|vampire>\n" ++
    "  :verbosity <xxs|xs|s|m|l|xl|xxl>\n" ++
    "  :crit <times-two|roll-twice|add-max>\n" ++
    "  :config     show the current settings\n" ++
    "  :help").toList

def overview (s : Settings) : Text :=
  "system: ".toList ++ s.system.name.toList ++ ", verbosity: ".toList ++
    s.verbosity.name.toList ++ ", crit: ".toList ++ s.critMethod.name.toList ++
    ", crit threshold: ".toList ++ Decimal.ofNat s.critThreshold

/-- What is printed on the two channels. -/
structure Printed where
  out : Text
  err : Text
  deriving DecidableEq, Repr

namespace Printed

def line (s : Text) : Printed := ⟨s ++ ['\n'], []⟩

def nothing : Printed := ⟨[], []⟩

def append (a b : Printed) : Printed := ⟨a.out ++ b.out, a.err ++ b.err⟩

instance : Append Printed := ⟨append⟩

end Printed

def printed : Session.Answer → Printed
  | .accepted => .nothing
  | .refused e => ⟨[], "Error: ".toList ++ e.message ++ ['\n']⟩
  | .rolled evaluation => .line evaluation.output

variable {ρ : Type} [Roller ρ]

def take (s : Session ρ) (line : Text) : Printed × Session ρ :=
  let line := Text.trim line
  if line = ":help".toList then (.line help, s)
  else if line = ":config".toList then (.line (overview s.settings), s)
  else if line = [] then (.nothing, s)
  else
    let (answer, s) := s.take line
    (printed answer, s)

/-- What is printed in answer to lines, each followed by the prompt. -/
def answers (s : Session ρ) : List Text → Printed
  | [] => .nothing
  | line :: rest =>
    let (shown, s) := take s line
    shown ++ ⟨prompt, []⟩ ++ answers s rest

/-- The lines of a text; the last one need not be ended. -/
def lines (s : Text) : List Text :=
  let pieces := s.splitOnP (· == '\n')
  if pieces.getLast? = some [] then pieces.dropLast else pieces

def transcript (settings : Settings) (roller : ρ) (input : Text) : Printed :=
  ⟨prompt, []⟩ ++ answers (.start settings roller) (lines input)

end Console

end Tabletop
