import Tabletop.Number
import Tabletop.Settings.Basic

/-!
# Stored settings

Settings are kept in a file of structured values. They are a record with one entry for each
setting, or a list of their values in a fixed order; what is left out has its default. A value
of the wrong kind, or one value too many, spoils the whole record. Entries of other names mean
nothing.
-/

namespace Tabletop

inductive Stored where
  | null
  | bool (b : Bool)
  /-- A number written without a fraction. -/
  | whole (n : Int)
  /-- A number written with a fraction. -/
  | fraction
  | text (s : Text)
  | list (items : List Stored)
  | record (entries : List (Text × Stored))
  deriving Inhabited

namespace Stored

/-- One of some named choices: its name, or a record whose one entry has that name and holds
nothing. -/
def choice? {α : Type} (name : α → String) (all : List α) : Stored → Option α
  | .text s => all.find? fun a => (name a).toList == s
  | .record [(s, .null)] => all.find? fun a => (name a).toList == s
  | _ => none

def count? : Stored → Option Nat
  | .whole n => if 0 ≤ n ∧ n ≤ maxCount then some n.toNat else none
  | _ => none

def bool? : Stored → Option Bool
  | .bool b => some b
  | _ => none

end Stored

namespace Settings

/-- The names of the settings, in the order of a list of values. -/
def storedNames : List String :=
  ["system", "verbosity", "crit-method", "crit-threshold", "infer-saves"]

def store? (settings : Settings) (name : String) (value : Stored) : Option Settings :=
  match name with
  | "system" =>
    (value.choice? SystemKind.name SystemKind.all).map fun system => { settings with system }
  | "verbosity" =>
    (value.choice? Verbosity.name Verbosity.all).map fun verbosity => { settings with verbosity }
  | "crit-method" =>
    (value.choice? CritMethod.name CritMethod.all).map fun critMethod =>
      { settings with critMethod }
  | "crit-threshold" => value.count?.map fun critThreshold => { settings with critThreshold }
  | "infer-saves" => value.bool?.map fun infersSaves => { settings with infersSaves }
  | _ => some settings

def ofStored? : Stored → Option Settings
  | .list items =>
    if items.length ≤ storedNames.length then
      (storedNames.zip items).foldlM (fun s (name, value) => s.store? name value) {}
    else none
  | .record entries =>
    entries.foldlM (fun s (name, value) => s.store? (String.ofList name) value) {}
  | _ => none

end Settings

end Tabletop
