import Tabletop.Number

/-!
# What terms are worth

The terms of an expression after rolling come to a total in two ways. Taken strictly, each sign
applies to its own term and nothing is limited. As they are read, a number that is added or
subtracted right behind dice goes with these dice, whatever sign they have, and totals stay within
their range.
-/

namespace Tabletop

/-- The running total with one more term, where nothing is limited. -/
def Sign.exactly : Sign → Int → Int → Int
  | .plus, total, value => total + value
  | .minus, total, value => total - value
  | .times, total, value => total * value

theorem Sign.apply_eq_clamp (s : Sign) (total value : Int) :
    s.apply total value = Total.clamp (s.exactly total value) := by
  cases s <;> rfl

@[simp] theorem Sign.exactly_plus (total value : Int) :
    Sign.plus.exactly total value = total + value := rfl

@[simp] theorem Sign.exactly_minus (total value : Int) :
    Sign.minus.exactly total value = total - value := rfl

@[simp] theorem Sign.exactly_times (total value : Int) :
    Sign.times.exactly total value = total * value := rfl

structure Worth where
  sign : Sign
  value : Int
  /-- The sides of the dice, where the term has dice. -/
  sides : Option Nat
  deriving DecidableEq, Repr

namespace Worth

structure InRange (a : Worth) : Prop where
  value : 0 ≤ a.value ∧ a.value ≤ Total.greatest
  sideless : a.sides = some 0 → a.value = 0

/-- The terms from left to right, with each sign applied to its own term. -/
def strictTotal (terms : List Worth) : Int :=
  terms.foldl (fun total a => a.sign.exactly total a.value) 0

/-- No strict total on the way leaves the range of totals. -/
def Bounded (terms : List Worth) : Prop :=
  ∀ k ≤ terms.length, Total.InRange (strictTotal (terms.take k))

instance (terms : List Worth) : Decidable (Bounded terms) := by
  delta Bounded
  infer_instance

theorem Bounded.inRange {terms : List Worth} (bounded : Bounded terms) (k : Nat) :
    Total.InRange (strictTotal (terms.take k)) := by
  rw [List.take_eq_take_min]
  exact bounded _ (Nat.min_le_right _ _)

/-- Whether the term is a number that goes with dice right before it. -/
def joins (a : Worth) : Bool := a.sides.isNone && a.sign != .times

/-- The terms read so far: the last one, if it has dice, may still take a number. -/
structure Pending where
  total : Int
  last : Worth

namespace Pending

def settled (p : Pending) : Int := p.last.sign.apply p.total p.last.value

/-- What is pending after one more term. Dice without sides give way to a number that joins them. -/
def add (p : Pending) (a : Worth) : Pending :=
  match a.joins, p.last.sides with
  | true, some 0 => ⟨p.total, a⟩
  | true, some _ => ⟨p.total, ⟨p.last.sign, a.sign.apply p.last.value a.value, none⟩⟩
  | _, _ => ⟨p.settled, a⟩

end Pending

def pending (terms : List Worth) : Pending := terms.foldl Pending.add ⟨0, ⟨.plus, 0, none⟩⟩

def readTotal (terms : List Worth) : Int := (pending terms).settled

/-- A number behind dice counts as if it had not joined them. Dice that are added can take every
number that their range allows, dice that are subtracted only zero. Dice that are multiplied can
take zero as well, and any number where the total before is one or the product stops at the limit
that is reached anyway. Dice without sides do no harm unless they are multiplied. -/
def Harmless (total : Int) (dice number : Worth) : Prop :=
  let after := number.sign.exactly (dice.sign.exactly total dice.value) number.value
  if dice.sides = some 0 then
    dice.sign = .times → total = 0 ∨ 0 < total ∧ after = Total.greatest
  else
    (dice.sign = .plus → Total.InRange (number.sign.exactly dice.value number.value)) ∧
      (dice.sign = .minus → number.value = 0) ∧
      (dice.sign = .times → number.value = 0 ∨ total = 1 ∨
        1 < total ∧ (after = Total.greatest ∨ after = Total.least))

instance (total : Int) (dice number : Worth) : Decidable (Harmless total dice number) := by
  delta Harmless
  infer_instance

def Kept (terms : List Worth) : Prop :=
  ∀ k < terms.length, ∀ dice ∈ terms[k]?, ∀ number ∈ terms[k + 1]?, dice.sides.isSome →
    number.joins → Harmless (strictTotal (terms.take k)) dice number

instance (terms : List Worth) : Decidable (Kept terms) := by
  delta Kept
  infer_instance

theorem strictTotal_concat (terms : List Worth) (a : Worth) :
    strictTotal (terms ++ [a]) = a.sign.exactly (strictTotal terms) a.value := by
  simp [strictTotal]

theorem pending_concat (terms : List Worth) (a : Worth) :
    pending (terms ++ [a]) = (pending terms).add a := by
  simp [pending]

/-- Where nothing is joined, the terms before are settled. -/
theorem Pending.add_of_apart {p : Pending} {a : Worth}
    (apart : a.joins = true → p.last.sides = none) : p.add a = ⟨p.settled, a⟩ := by
  cases hjoins : a.joins with
  | false => rw [add, hjoins]
  | true => rw [add, hjoins, apart hjoins]

theorem Pending.add_of_sideless {p : Pending} {a : Worth} (joins : a.joins = true)
    (sides : p.last.sides = some 0) : p.add a = ⟨p.total, a⟩ := by
  simp only [add, joins, sides]

theorem Pending.add_of_sides {p : Pending} {a : Worth} (joins : a.joins = true) {sides : Nat}
    (h : p.last.sides = some sides) (positive : sides ≠ 0) :
    p.add a = ⟨p.total, ⟨p.last.sign, a.sign.apply p.last.value a.value, none⟩⟩ := by
  cases sides with
  | zero => exact absurd rfl positive
  | succ n => simp only [add, joins, h]

/-- Dice join nothing. -/
theorem pending_concat_dice (terms : List Worth) {a : Worth} (dice : a.sides.isSome) :
    pending (terms ++ [a]) = ⟨readTotal terms, a⟩ := by
  have hjoins : a.joins = false := by simp [joins, Option.isSome_iff_ne_none.mp dice]
  rw [pending_concat, Pending.add_of_apart (by simp [hjoins])]
  rfl

/-- Only dice wait for a number. -/
theorem isSome_sides_of_add {p : Pending} {a : Worth} (h : (p.add a).last.sides.isSome) :
    a.sides.isSome := by
  rw [Pending.add] at h
  split at h <;> first | exact h | simp at h

section

variable {total value d n : Int}

/-- A factor other than one counts for what is added as well, unless the product stops at a
limit. -/
theorem clamp_mul_add_iff (hd : d ≠ 0) (product : Total.InRange (total * value))
    (after : Total.InRange (total * value + d)) :
    Total.clamp (total * (value + d)) = total * value + d ↔
      total = 1 ∨ 1 < total ∧ (total * value + d = Total.greatest ∨
        total * value + d = Total.least) := by
  rw [Int.mul_add]
  simp only [Total.InRange, Total.clamp, Total.greatest, Total.least] at *
  obtain htotal | rfl | htotal : total ≤ 0 ∨ total = 1 ∨ 2 ≤ total := by omega
  · have hup : 0 ≤ d → total * d ≤ 0 := Int.mul_nonpos_of_nonpos_of_nonneg htotal
    have hdown : d ≤ 0 → 0 ≤ total * d := Int.mul_nonneg_of_nonpos_of_nonpos htotal
    omega
  · rw [Int.one_mul] at *
    omega
  · have hup : 0 ≤ d → 2 * d ≤ total * d := Int.mul_le_mul_of_nonneg_right htotal
    have hdown : d ≤ 0 → total * d ≤ 2 * d := Int.mul_le_mul_of_nonpos_right htotal
    omega

/-- A sum that stops at the greatest total has no factor for which this does not show. -/
theorem mul_greatest_ne (hvalue : 0 ≤ value ∧ value ≤ Total.greatest)
    (large : Total.greatest < value + n) (product : Total.InRange (total * value))
    (after : Total.InRange (total * value + n)) :
    total ≤ 0 ∧ Total.clamp (total * Total.greatest) ≠ total * value + n := by
  have hpositive : 1 ≤ total → 1 * value ≤ total * value :=
    fun h => Int.mul_le_mul_of_nonneg_right h hvalue.1
  have hrest : total ≤ 0 → total * (Total.greatest - value) ≤ 0 :=
    fun h => Int.mul_nonpos_of_nonpos_of_nonneg h (by omega)
  have hsplit : total * Total.greatest = total * value + total * (Total.greatest - value) := by
    rw [← Int.mul_add, Int.add_comm, Int.sub_add_cancel]
  rw [hsplit]
  simp only [Total.InRange, Total.clamp, Total.greatest, Total.least] at *
  omega

variable {s : Sign}

/-- A number that joins changes a sum by itself, one way or the other. -/
theorem exists_exactly_eq (n : Int) (joins : s ≠ .times) :
    ∃ d, (d = n ∨ d = -n) ∧ ∀ m, s.exactly m n = m + d := by
  cases s with
  | plus => exact ⟨n, .inl rfl, fun _ => rfl⟩
  | minus => exact ⟨-n, .inr rfl, fun _ => Int.sub_eq_add_neg⟩
  | times => exact absurd rfl joins

/-- A total takes the value of a number that is added or subtracted exactly if it was zero, or if it
was positive and the number is the greatest total. -/
theorem apply_eq_exactly_zero_iff (joins : s ≠ .times) (hn : 0 ≤ n ∧ n ≤ Total.greatest)
    (before : Total.InRange total) :
    s.apply total n = s.exactly 0 n ↔
      total = 0 ∨ 0 < total ∧ s.exactly 0 n = Total.greatest := by
  cases s with
  | plus | minus =>
    simp only [Sign.apply, Sign.exactly, Total.add, Total.sub, Total.InRange, Total.clamp,
      Total.greatest, Total.least] at *
    omega
  | times => exact absurd rfl joins

/-- A number that joins added dice makes no difference to the total exactly if it can be added to
the dice alone. -/
theorem add_apply_iff (joins : s ≠ .times) (before : Total.InRange total)
    (after : Total.InRange (s.exactly (total + value) n)) :
    Total.add total (s.apply value n) = s.exactly (total + value) n ↔
      Total.InRange (s.exactly value n) := by
  obtain ⟨d, hd, hexactly⟩ := exists_exactly_eq n joins
  rw [Sign.apply_eq_clamp, Total.add]
  simp only [hexactly] at after ⊢
  simp only [Total.InRange, Total.clamp, Total.greatest, Total.least] at *
  omega

/-- A number that joins subtracted dice makes no difference to the total exactly if it is zero. -/
theorem sub_apply_iff (joins : s ≠ .times) (hvalue : 0 ≤ value ∧ value ≤ Total.greatest)
    (hn : 0 ≤ n ∧ n ≤ Total.greatest) (alone : Total.InRange (total - value))
    (after : Total.InRange (s.exactly (total - value) n)) :
    Total.sub total (s.apply value n) = s.exactly (total - value) n ↔ n = 0 := by
  obtain ⟨d, hd, hexactly⟩ := exists_exactly_eq n joins
  rw [Sign.apply_eq_clamp, Total.sub]
  simp only [hexactly] at after ⊢
  simp only [Total.InRange, Total.clamp, Total.greatest, Total.least] at *
  omega

/-- A number that joins dice that multiply makes no difference to the total exactly if it is zero,
or if they multiply a one, or if the total stops at a limit. -/
theorem mul_apply_iff (joins : s ≠ .times) (hvalue : 0 ≤ value ∧ value ≤ Total.greatest)
    (hn : 0 ≤ n ∧ n ≤ Total.greatest) (alone : Total.InRange (total * value))
    (after : Total.InRange (s.exactly (total * value) n)) :
    Total.mul total (s.apply value n) = s.exactly (total * value) n ↔
      n = 0 ∨ total = 1 ∨ 1 < total ∧ (s.exactly (total * value) n = Total.greatest ∨
        s.exactly (total * value) n = Total.least) := by
  obtain ⟨d, hd, hexactly⟩ := exists_exactly_eq n joins
  rw [Sign.apply_eq_clamp, Total.mul]
  simp only [hexactly] at after ⊢
  by_cases hzero : n = 0
  · obtain rfl : d = 0 := by omega
    have hsame : Total.clamp (value + 0) = value := by
      rw [Int.add_zero]
      exact Total.clamp_of_inRange ⟨Int.le_trans (by decide) hvalue.1, hvalue.2⟩
    rw [hsame, Int.add_zero, Total.clamp_of_inRange alone]
    simp [hzero]
  by_cases hlarge : Total.greatest < value + d
  · have hclamp : Total.clamp (value + d) = Total.greatest := by
      simp only [Total.clamp, Total.greatest, Total.least] at *
      omega
    obtain ⟨hnonpos, hne⟩ := mul_greatest_ne hvalue hlarge alone after
    rw [hclamp]
    exact iff_of_false hne (by omega)
  · have hrange : Total.InRange (value + d) := by
      simp only [Total.InRange, Total.greatest, Total.least] at *
      omega
    rw [Total.clamp_of_inRange hrange, clamp_mul_add_iff (by omega) alone after]
    simp [hzero]

end

/-- A number that joins dice is harmless where it changes nothing, and only there. -/
theorem settled_joined_iff {total : Int} {dice number : Worth} (hdice : dice.InRange)
    (hnumber : number.InRange) (sides : dice.sides.isSome) (joins : number.joins)
    (before : Total.InRange total) (alone : Total.InRange (dice.sign.exactly total dice.value))
    (after : Total.InRange (number.sign.exactly (dice.sign.exactly total dice.value)
      number.value)) :
    ((⟨total, dice⟩ : Pending).add number).settled =
        number.sign.exactly (dice.sign.exactly total dice.value) number.value ↔
      Harmless total dice number := by
  obtain ⟨sign, value, s⟩ := dice
  obtain ⟨s, rfl⟩ := Option.isSome_iff_exists.mp sides
  obtain ⟨hvalue, hsideless⟩ := hdice
  have htimes : number.sign ≠ .times := by
    intro h
    simp [Worth.joins, h] at joins
  cases s with
  | zero =>
    obtain rfl : value = 0 := hsideless rfl
    rw [Pending.add_of_sideless joins rfl, Harmless, if_pos rfl]
    cases sign with
    | plus =>
      simp only [Sign.exactly_plus, Int.add_zero] at after ⊢
      simp [Pending.settled, Sign.apply_eq_clamp, Total.clamp_of_inRange after]
    | minus =>
      simp only [Sign.exactly_minus, Int.sub_zero] at after ⊢
      simp [Pending.settled, Sign.apply_eq_clamp, Total.clamp_of_inRange after]
    | times =>
      simp only [Sign.exactly_times, Int.mul_zero, forall_const]
      exact apply_eq_exactly_zero_iff htimes hnumber.value before
  | succ s =>
    rw [Pending.add_of_sides joins rfl s.succ_ne_zero, Harmless, if_neg (by simp)]
    cases sign with
    | plus => exact (add_apply_iff htimes before after).trans (by simp)
    | minus => exact (sub_apply_iff htimes hvalue hnumber.value alone after).trans (by simp)
    | times => exact (mul_apply_iff htimes hvalue hnumber.value alone after).trans (by simp)

theorem take_succ_eq {terms : List Worth} {k : Nat} {a : Worth} (h : terms[k]? = some a) :
    terms.take (k + 1) = terms.take k ++ [a] := by
  rw [List.take_add_one, h]
  rfl

theorem readTotal_joined_iff {terms : List Worth} (range : ∀ a ∈ terms, a.InRange)
    (bounded : Bounded terms) {k : Nat} {dice number : Worth}
    (hdice : terms[k]? = some dice) (hnumber : terms[k + 1]? = some number)
    (sides : dice.sides.isSome) (joins : number.joins)
    (same : readTotal (terms.take k) = strictTotal (terms.take k)) :
    readTotal (terms.take (k + 2)) = strictTotal (terms.take (k + 2)) ↔
      Harmless (strictTotal (terms.take k)) dice number := by
  have alone := bounded.inRange (k + 1)
  have after := bounded.inRange (k + 2)
  rw [take_succ_eq hdice, strictTotal_concat] at alone
  rw [take_succ_eq hnumber, take_succ_eq hdice, strictTotal_concat, strictTotal_concat] at after ⊢
  rw [readTotal, pending_concat, pending_concat_dice _ sides, same]
  exact settled_joined_iff (range _ (List.mem_of_getElem? hdice))
    (range _ (List.mem_of_getElem? hnumber)) sides joins (bounded.inRange k) alone after

/-- A term that joins nothing is read as written. -/
theorem readTotal_apart {terms : List Worth} (bounded : Bounded terms) {k : Nat} {a : Worth}
    (ha : terms[k]? = some a)
    (apart : a.joins = true → (pending (terms.take k)).last.sides = none)
    (same : readTotal (terms.take k) = strictTotal (terms.take k)) :
    readTotal (terms.take (k + 1)) = strictTotal (terms.take (k + 1)) := by
  have after := bounded.inRange (k + 1)
  rw [take_succ_eq ha, strictTotal_concat] at after ⊢
  have hread : readTotal (terms.take k ++ [a]) =
      a.sign.apply (readTotal (terms.take k)) a.value := by
    rw [readTotal, pending_concat, Pending.add_of_apart apart]
    rfl
  rw [hread, same, Sign.apply_eq_clamp, Total.clamp_of_inRange after]

/-- What waits for a number is the term before it, and that one has dice. -/
theorem exists_dice_of_waits {terms : List Worth} {k : Nat} (hk : k < terms.length)
    (waits : (pending (terms.take k)).last.sides ≠ none) :
    ∃ j dice, k = j + 1 ∧ terms[j]? = some dice ∧ dice.sides.isSome := by
  cases k with
  | zero => exact absurd rfl waits
  | succ j =>
    have hdice : terms[j]? = some terms[j] := List.getElem?_eq_getElem (by omega)
    rw [take_succ_eq hdice, pending_concat] at waits
    exact ⟨j, terms[j], rfl, hdice, isSome_sides_of_add (Option.isSome_iff_ne_none.mpr waits)⟩

/-- The terms up to each one are read as written exactly where every number behind dice among them
is harmless. -/
theorem readTotal_take_iff {terms : List Worth} (range : ∀ a ∈ terms, a.InRange)
    (bounded : Bounded terms) :
    (∀ k, readTotal (terms.take k) = strictTotal (terms.take k)) ↔ Kept terms := by
  constructor
  · intro same k _ dice hdice number hnumber sides joins
    have h := same (k + 2)
    rw [← readTotal_joined_iff range bounded hdice hnumber sides joins (same k)]
    exact h
  · intro kept k
    -- a number that joins dice is compared with the total before these dice, two terms back
    induction k using Nat.strongRecOn with
    | ind k ih =>
      cases k with
      | zero => rfl
      | succ k =>
        by_cases hk : k < terms.length
        · have ha : terms[k]? = some terms[k] := List.getElem?_eq_getElem hk
          by_cases apart : terms[k].joins = true → (pending (terms.take k)).last.sides = none
          · exact readTotal_apart bounded ha apart (ih k k.lt_succ_self)
          · obtain ⟨joins, waits⟩ := Classical.not_imp.mp apart
            obtain ⟨j, dice, rfl, hdice, sides⟩ := exists_dice_of_waits hk waits
            rw [readTotal_joined_iff range bounded hdice ha sides joins (ih j (by omega))]
            exact kept j (by omega) dice hdice _ ha sides joins
        · rw [List.take_of_length_le (by omega : terms.length ≤ k + 1),
            ← List.take_of_length_le (by omega : terms.length ≤ k)]
          exact ih k k.lt_succ_self

end Worth

end Tabletop
