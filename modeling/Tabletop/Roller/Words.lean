import Tabletop.Roller.Script

/-!
# Fair rolls from random words

A source of 32-bit words chooses one of the numbers from a lowest to a highest one by
multiplication: with `size` for how many numbers there are, the high half of `word * size` is the
number counted from the lowest one, and the low half says whether the word is used. Words whose low
half lies beyond a zone are passed over, because keeping them would favor some numbers. A single
choice takes a zone that is quick to find; a series takes the largest zone, which passes over the
fewest words.

Numbers are chosen by a library that dice know nothing of. What is assumed of it has a name here,
and the sampler that runs keeps the assumption. A die shows one of the numbers from 1 to its sides.
-/

namespace Tabletop

def wordCount : Nat := 4294967296

/-- Words in the order in which they come. When they have run out, zeros follow for ever. -/
structure Words where
  words : List Nat
  /-- How many words were taken. -/
  taken : Nat := 0
  deriving DecidableEq, Repr

namespace Words

/-- How many zero bits stand before the first one of a 32-bit number that is not zero. -/
def leadingZeros (n : Nat) : Nat := 31 - n.log2

/-- The zone for a single choice: the most bits of a word that a multiple of `size` by a power of
two leaves, less one. -/
def singleZone (size : Nat) : Nat := (size <<< leadingZeros size) - 1

/-- The zone for a series: the largest multiple of `size` that a word can hold, less one. -/
def seriesZone (size : Nat) : Nat := wordCount - 1 - (wordCount - size) % size

def accepts (zone size word : Nat) : Bool := word * size % wordCount ≤ zone

def choice (low size word : Nat) : Nat := low + word * size / wordCount

/-- Takes words up to the first one that is used. A word of zeros is always used. -/
def drawFrom (zone low size : Nat) : List Nat → Nat → Nat × Words
  | [], taken => (choice low size 0, ⟨[], taken + 1⟩)
  | word :: rest, taken =>
    if accepts zone size word then (choice low size word, ⟨rest, taken + 1⟩)
    else drawFrom zone low size rest (taken + 1)

def spread (low high : Nat) : Nat := high + 1 - low

/-- Chooses a number from a lowest to a highest one, with a zone for how many there are. -/
def between (zone : Nat → Nat) (low high : Nat) (w : Words) : Nat × Words :=
  drawFrom (zone (spread low high)) low (spread low high) w.words w.taken

/-- How numbers from a lowest to a highest one are chosen out of words: one by itself, and one of a
series with the same bounds. -/
structure Sampler where
  single : (low high : Nat) → Words → Nat × Words
  series : (low high : Nat) → Words → Nat × Words

namespace Sampler

abbrev roller (s : Sampler) : Roller Words where
  one sides := s.single 1 sides
  many count sides := Roller.repeated (s.series 1 sides) count

/-- The two zone rules: a number is chosen by multiplication, with the zone for a single choice or
with the zone for a series, if there are numbers to choose from and not more than a word can
count. -/
structure GoesByZones (s : Sampler) : Prop where
  single {low high : Nat} : low ≤ high → spread low high ≤ maxCount →
    ∀ w, s.single low high w = between singleZone low high w
  series {low high : Nat} : low ≤ high → spread low high ≤ maxCount →
    ∀ w, s.series low high w = between seriesZone low high w

def byZones : Sampler := ⟨between singleZone, between seriesZone⟩

theorem goesByZones_byZones : byZones.GoesByZones := ⟨fun _ _ _ => rfl, fun _ _ _ => rfl⟩

end Sampler

instance : Roller Words := Sampler.byZones.roller

@[simp] theorem accepts_zero (zone size : Nat) : accepts zone size 0 = true := by simp [accepts]

@[simp] theorem choice_zero (low size : Nat) : choice low size 0 = low := by simp [choice]

end Words

end Tabletop
