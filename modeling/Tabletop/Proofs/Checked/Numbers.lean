import Mathlib
import Tabletop.Number

/-!
# Checked numbers

Some sums, differences and products stop at the end of their range. Others are meant never to leave
it: a total has 64 bits with a sign, and a length or a place 64 bits without one. Here these are
worked out with a check in every step, and lists are cut with a check of their length. Where a check
fails there is no result.
-/

namespace Tabletop

namespace Checked

def greatestPlace : Nat := 18446744073709551615

/-- A whole number as a total, if it is one. -/
def total? (n : Int) : Option Int := if Total.InRange n then some n else none

def upTo? (limit n : Nat) : Option Nat := if n ≤ limit then some n else none

def place? (n : Nat) : Option Nat := upTo? greatestPlace n

/-- A sum from left to right that is never more than `limit`. -/
def sumUpTo? (limit : Nat) (numbers : List Nat) : Option Nat :=
  numbers.foldlM (fun sum n => upTo? limit (sum + n)) 0

/-- A difference of numbers without a sign. -/
def sub? (a b : Nat) : Option Nat := if b ≤ a then some (a - b) else none

variable {α β : Type}

def take? (n : Nat) (items : List α) : Option (List α) :=
  if n ≤ items.length then some (items.take n) else none

/-- The items before a place and those from there on. -/
def splitAt? (n : Nat) (items : List α) : Option (List α × List α) :=
  if n ≤ items.length then some (items.splitAt n) else none

theorem total?_of_inRange {n : Int} (h : Total.InRange n) : total? n = some n := if_pos h

theorem upTo?_of_le {limit n : Nat} (h : n ≤ limit) : upTo? limit n = some n := if_pos h

theorem place?_of_le {n : Nat} (h : n ≤ greatestPlace) : place? n = some n := upTo?_of_le h

theorem sub?_of_le {a b : Nat} (h : b ≤ a) : sub? a b = some (a - b) := if_pos h

theorem take?_of_le {n : Nat} {items : List α} (h : n ≤ items.length) :
    take? n items = some (items.take n) := if_pos h

theorem splitAt?_of_le {n : Nat} {items : List α} (h : n ≤ items.length) :
    splitAt? n items = some (items.take n, items.drop n) := by
  rw [splitAt?, if_pos h, List.splitAt_eq]

theorem foldlM_upTo? {limit start : Nat} (numbers : List Nat) (h : start ≤ limit) :
    numbers.foldlM (fun sum n => upTo? limit (sum + n)) start =
      upTo? limit (start + numbers.sum) := by
  induction numbers generalizing start with
  | nil => exact (upTo?_of_le h).symm
  | cons n rest ih =>
    rw [List.foldlM_cons, List.sum_cons, ← Nat.add_assoc]
    by_cases hn : start + n ≤ limit
    · rw [upTo?_of_le hn, Option.bind_eq_bind, Option.bind_some, ih hn]
    · have hover : ¬start + n + rest.sum ≤ limit := fun hle =>
        hn (Nat.le_trans (Nat.le_add_right _ _) hle)
      rw [upTo?, upTo?, if_neg hn, if_neg hover]
      rfl

/-- No sum on the way is greater than the whole. -/
theorem sumUpTo?_eq (limit : Nat) (numbers : List Nat) :
    sumUpTo? limit numbers = upTo? limit numbers.sum := by
  rw [sumUpTo?, foldlM_upTo? numbers (Nat.zero_le limit), Nat.zero_add]

theorem sumUpTo?_of_le {limit : Nat} {numbers : List Nat} (h : numbers.sum ≤ limit) :
    sumUpTo? limit numbers = some numbers.sum := (sumUpTo?_eq limit numbers).trans (upTo?_of_le h)

/-- Where every item has a result, so has the list. -/
theorem mapM_eq_some {f : α → Option β} {g : α → β} {items : List α}
    (h : ∀ a ∈ items, f a = some (g a)) : items.mapM f = some (items.map g) := by
  induction items with
  | nil => rfl
  | cons a rest ih =>
    obtain ⟨ha, hrest⟩ := List.forall_mem_cons.mp h
    rw [List.mapM_cons, ha, ih hrest]
    rfl

/-- Where every step has a result, so has the way through a list. -/
theorem foldlM_eq_some {f : β → α → Option β} {g : β → α → β} {items : List α}
    (h : ∀ a ∈ items, ∀ b, f b a = some (g b a)) (b : β) :
    items.foldlM f b = some (items.foldl g b) := by
  induction items generalizing b with
  | nil => rfl
  | cons a rest ih =>
    obtain ⟨ha, hrest⟩ := List.forall_mem_cons.mp h
    rw [List.foldlM_cons, ha]
    exact ih hrest (g b a)

end Checked

end Tabletop
