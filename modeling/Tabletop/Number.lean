import Tabletop.Text.Basic

/-!
# Numbers and signs

The numbers of the notation: totals with a sign, counts without one, how both are written, and the
signs that join a term to the total of the terms before it.
-/

namespace Tabletop

/-!
## Totals

A total is a whole number of 64 bits with a sign. Sums, differences and products that would
leave the range stop at its nearer end, so a total is always defined and never turns round.
Counts, sides and faces are naturals of at most 32 bits.
-/

/-- The largest count, number of sides or face. -/
def maxCount : Nat := 4294967295

namespace Total

def greatest : Int := 9223372036854775807

def least : Int := -9223372036854775808

/-- The total nearest to a number. -/
def clamp (n : Int) : Int := max least (min greatest n)

def InRange (n : Int) : Prop := least ≤ n ∧ n ≤ greatest

instance (n : Int) : Decidable (InRange n) := inferInstanceAs (Decidable (_ ∧ _))

def add (a b : Int) : Int := clamp (a + b)

def sub (a b : Int) : Int := clamp (a - b)

def mul (a b : Int) : Int := clamp (a * b)

theorem clamp_inRange (n : Int) : InRange (clamp n) := by
  simp only [InRange, clamp, least, greatest]; omega

theorem clamp_of_inRange {n : Int} (h : InRange n) : clamp n = n := by
  simp only [InRange, clamp, least, greatest] at *; omega

theorem clamp_mono {m n : Int} (h : m ≤ n) : clamp m ≤ clamp n := by
  simp only [clamp]; omega

theorem add_inRange (a b : Int) : InRange (add a b) := clamp_inRange _

theorem sub_inRange (a b : Int) : InRange (sub a b) := clamp_inRange _

end Total

/-!
## Decimal numbers

Numbers are written with the fewest digits and, when negative, a minus sign. Reading takes
ASCII digits only and refuses a number beyond a given limit; leading zeros are accepted, so
reading undoes writing but not the other way round.
-/

namespace Decimal

def ofNat (n : Nat) : Text := Nat.toDigits 10 n

def ofInt (n : Int) : Text := if n < 0 then '-' :: ofNat n.natAbs else ofNat n.natAbs

/-- The value of a non-empty run of ASCII digits. -/
def read? (s : Text) : Option Nat :=
  if s ≠ [] ∧ s.all Char.isDigit then some (Nat.ofDigitChars 10 s 0) else none

def readUpTo? (limit : Nat) (s : Text) : Option Nat := (read? s).filter (· ≤ limit)

def readCount? (s : Text) : Option Nat := readUpTo? maxCount s

/-- Reads the size of a modifier or the value of a test. -/
def readTotal? (s : Text) : Option Int :=
  (readUpTo? Total.greatest.toNat s).map Int.ofNat

theorem ofNat_ne_nil (n : Nat) : ofNat n ≠ [] := by
  simp [ofNat, Nat.toDigits_ne_nil]

theorem isDigit_of_mem_ofNat {n : Nat} {c : Char} (h : c ∈ ofNat n) : c.isDigit = true :=
  Nat.isDigit_of_mem_toDigits (by decide) (by decide) h

/-- Reading undoes writing. -/
theorem read?_ofNat (n : Nat) : read? (ofNat n) = some n := by
  have digits : (ofNat n).all Char.isDigit = true :=
    List.all_eq_true.2 fun _ h => isDigit_of_mem_ofNat h
  rw [read?, if_pos ⟨ofNat_ne_nil n, digits⟩, ofNat,
    Nat.ofDigitChars_toDigits (by decide) (by decide)]

theorem ofNat_injective {m n : Nat} (h : ofNat m = ofNat n) : m = n := by
  have := congrArg read? h
  simpa [read?_ofNat] using this

theorem le_of_readUpTo? {limit n : Nat} {s : Text} (h : readUpTo? limit s = some n) :
    n ≤ limit := by
  simp [readUpTo?, Option.filter_eq_some_iff] at h
  exact h.2

end Decimal

/-! ## Signs -/

inductive Sign where
  | plus | minus | times
  deriving DecidableEq, Repr

namespace Sign

/-- The running total with one more term. -/
def apply : Sign → Int → Int → Int
  | .plus, total, value => Total.add total value
  | .minus, total, value => Total.sub total value
  | .times, total, value => Total.mul total value

def symbol : Sign → Char
  | .plus => '+'
  | .minus => '-'
  | .times => '*'

/-- The sign that a token captured; without one, a term is added. -/
def ofCapture (captured : Option Text) : Sign :=
  match captured.map Text.trim with
  | some ['-'] => .minus
  | some ['*'] => .times
  | _ => .plus

theorem ofCapture_symbol (s : Sign) : ofCapture (some [s.symbol]) = s := by cases s <;> decide

theorem apply_inRange (s : Sign) (total value : Int) : Total.InRange (s.apply total value) := by
  cases s <;> exact Total.clamp_inRange _

end Sign

end Tabletop
