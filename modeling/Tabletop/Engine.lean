import Tabletop.Group
import Tabletop.Report
import Tabletop.Token.Scanner

/-!
# The engine and its sessions

From the text of a command to the report on its roll: the text is cut into tokens, the tokens
are read as a group, the group is rolled, and the rolled group is shown. The settings choose
the game system with its token rules once for all commands.
-/

namespace Tabletop

structure Engine where
  settings : Settings
  system : System
  rules : List Token.Rule

/-- A rolled command and the report on it. -/
structure Evaluation where
  roll : GroupRoll
  output : Text
  deriving DecidableEq, Repr

namespace Engine

def ofSettings (settings : Settings) : Engine :=
  let system := System.ofSettings settings
  { settings, system, rules := system.rules }

def tokenize (e : Engine) (text : Text) : List Token := Token.tokenize e.rules .description text

def parse (e : Engine) (text : Text) : Group where
  dice := Group.diceOfTokens e.system (e.tokenize text)
  verbosity := e.settings.verbosity
  critMethod := e.settings.critMethod

def roll {ρ : Type} [Roller ρ] (e : Engine) (g : Group) (r : ρ) : GroupRoll × ρ :=
  GroupRoll.ofGroup e.system g r

def reportAt (e : Engine) (verbosity : Verbosity) (g : GroupRoll) : Text :=
  Report.group e.system verbosity g

def report (e : Engine) (g : GroupRoll) : Text := e.reportAt g.verbosity g

/-- Reads a command, rolls it and reports on the roll. -/
def evaluate {ρ : Type} [Roller ρ] (e : Engine) (text : Text) (r : ρ) : Evaluation × ρ :=
  let (g, r) := e.roll (e.parse text) r
  (⟨g, e.report g⟩, r)

end Engine

/-!
## Sessions

A session takes lines one after the other. A line that begins with a colon changes one setting
or is refused; every other line is a command to roll. One roller serves all lines.
-/

/-- Why a line with a colon is refused. -/
inductive CommandError where
  | unknownSetting (error : UnknownSetting)
  | unknownCommand (word : Text)
  deriving DecidableEq, Repr

def CommandError.message : CommandError → Text
  | .unknownSetting error => error.message
  | .unknownCommand word =>
    "unknown command ".toList ++ word.quoted ++ ", try :help".toList

namespace Settings

/-- The settings changed by a line: its first word names the setting, its second the value. -/
def configure (s : Settings) (line : Text) : Except CommandError Settings :=
  let words := Text.words line
  let word := words.head?.getD []
  let value := words[1]?.getD []
  if word = ":system".toList then
    match SystemKind.read value with
    | .ok system => .ok { s with system }
    | .error e => .error (.unknownSetting e)
  else if word = ":verbosity".toList then
    match Verbosity.read value with
    | .ok verbosity => .ok { s with verbosity }
    | .error e => .error (.unknownSetting e)
  else if word = ":crit".toList then
    match CritMethod.read value with
    | .ok critMethod => .ok { s with critMethod }
    | .error e => .error (.unknownSetting e)
  else .error (.unknownCommand word)

end Settings

structure Session (ρ : Type) where
  settings : Settings
  /-- The engine for the settings, built whenever they are changed. -/
  engine : Engine
  roller : ρ

namespace Session

inductive Answer where
  /-- A setting was changed. -/
  | accepted
  /-- The line was refused. -/
  | refused (error : CommandError)
  /-- A command was rolled. -/
  | rolled (evaluation : Evaluation)
  deriving DecidableEq, Repr

variable {ρ : Type} [Roller ρ]

def start (settings : Settings) (roller : ρ) : Session ρ :=
  ⟨settings, .ofSettings settings, roller⟩

def isSetting (line : Text) : Bool := line.head? == some ':'

def configure (s : Session ρ) (line : Text) : Answer × Session ρ :=
  match s.settings.configure line with
  | .ok settings => (.accepted, { s with settings, engine := .ofSettings settings })
  | .error e => (.refused e, s)

def evaluate (s : Session ρ) (line : Text) : Answer × Session ρ :=
  let (evaluation, roller) := s.engine.evaluate line s.roller
  (.rolled evaluation, { s with roller })

def take (s : Session ρ) (line : Text) : Answer × Session ρ :=
  if isSetting line then s.configure line else s.evaluate line

/-- Takes lines in order; each answer stands with the session after it. -/
def run (s : Session ρ) : List Text → List (Answer × Session ρ)
  | [] => []
  | line :: rest =>
    let step := s.take line
    step :: step.2.run rest

end Session

end Tabletop
