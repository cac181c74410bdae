import Tabletop.Text.Basic
import Tabletop.Text.Quoted

/-!
# Settings

The game system, how much a report tells, and how critical damage is worked out. Each setting
has one name under which it is shown, and may be given under others; blanks around a name and
the case of its letters do not matter.
-/

namespace Tabletop

structure UnknownSetting where
  setting : String
  value : Text
  deriving DecidableEq, Repr

/-- The message for an unknown setting, in which the value is quoted as it was given. -/
def UnknownSetting.message (e : UnknownSetting) : Text :=
  "unknown ".toList ++ e.setting.toList ++ ": ".toList ++ e.value.quoted

/-- How much a report tells, from a bare mark up to every die. -/
inductive Verbosity where
  | xxs | xs | s | m | l | xl | xxl
  deriving DecidableEq, Repr

namespace Verbosity

def all : List Verbosity := [.xxs, .xs, .s, .m, .l, .xl, .xxl]

def level : Verbosity → Nat
  | .xxs => 0
  | .xs => 1
  | .s => 2
  | .m => 3
  | .l => 4
  | .xl => 5
  | .xxl => 6

instance : LE Verbosity := ⟨fun a b => a.level ≤ b.level⟩

instance : LT Verbosity := ⟨fun a b => a.level < b.level⟩

instance (a b : Verbosity) : Decidable (a ≤ b) := inferInstanceAs (Decidable (a.level ≤ b.level))

instance (a b : Verbosity) : Decidable (a < b) := inferInstanceAs (Decidable (a.level < b.level))

def name : Verbosity → String
  | .xxs => "xxs"
  | .xs => "xs"
  | .s => "s"
  | .m => "m"
  | .l => "l"
  | .xl => "xl"
  | .xxl => "xxl"

def read (given : Text) : Except UnknownSetting Verbosity :=
  match all.find? fun v => v.name.toList == Text.lower (Text.trim given) with
  | some v => .ok v
  | none => .error ⟨"verbosity", given⟩

end Verbosity

/-- How damage is raised after a critical hit. -/
inductive CritMethod where
  /-- The damage is multiplied by two. -/
  | timesTwo
  /-- Every damage die counts twice, and so does every flat modifier. -/
  | rollTwice
  /-- The highest value that the damage dice could show is added. -/
  | addMax
  deriving DecidableEq, Repr

namespace CritMethod

def name : CritMethod → String
  | .timesTwo => "times-two"
  | .rollTwice => "roll-twice"
  | .addMax => "add-max"

def names : CritMethod → List String
  | .timesTwo => ["times-two", "timestwo", "x2", "double"]
  | .rollTwice => ["roll-twice", "rolltwice", "twice"]
  | .addMax => ["add-max", "addmax", "max"]

def all : List CritMethod := [.timesTwo, .rollTwice, .addMax]

def read (given : Text) : Except UnknownSetting CritMethod :=
  match all.find? fun m => m.names.any fun n => n.toList == Text.lower (Text.trim given) with
  | some m => .ok m
  | none => .error ⟨"crit method", given⟩

end CritMethod

inductive SystemKind where
  | generic | pathfinder | vampire
  deriving DecidableEq, Repr

namespace SystemKind

def name : SystemKind → String
  | .generic => "generic"
  | .pathfinder => "pathfinder"
  | .vampire => "vampire"

def names : SystemKind → List String
  | .generic => ["generic", "none"]
  | .pathfinder => ["pathfinder", "pf", "pf2e", "starfinder", "sf"]
  | .vampire => ["vampire", "vtm", "v5"]

def all : List SystemKind := [.generic, .pathfinder, .vampire]

def read (given : Text) : Except UnknownSetting SystemKind :=
  match all.find? fun k => k.names.any fun n => n.toList == Text.lower (Text.trim given) with
  | some k => .ok k
  | none => .error ⟨"game system", given⟩

end SystemKind

structure Settings where
  system : SystemKind := .generic
  verbosity : Verbosity := .m
  critMethod : CritMethod := .timesTwo
  /-- The natural d20 from which on an attack that hits is a critical hit, unless the roll
  names another. -/
  critThreshold : Nat := 20
  /-- Whether the words of a description can make a roll a saving throw. -/
  infersSaves : Bool := true
  deriving DecidableEq, Repr

namespace Settings

def forSystem (system : SystemKind) : Settings := { system }

end Settings

theorem Verbosity.read_name (v : Verbosity) : Verbosity.read v.name.toList = .ok v := by
  cases v <;> rfl

theorem CritMethod.read_name (m : CritMethod) : CritMethod.read m.name.toList = .ok m := by
  cases m <;> rfl

theorem SystemKind.read_name (k : SystemKind) : SystemKind.read k.name.toList = .ok k := by
  cases k <;> rfl

end Tabletop
