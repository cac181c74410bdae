import Tabletop.Proofs.Part.Bounds
import Tabletop.Proofs.Roll.Simple
import Tabletop.Proofs.Roll.Worth

/-!
# Rolled parts in print

A rolled expression that is written and read again comes to what its printed terms come to as they
are read. That is its total, and that for every beginning of it, exactly where each part is
harmless: a part without a written form may be lost, an added number may open the expression, and
a number may go with dice that it did not go with before.
-/

namespace Tabletop

namespace Worth

/-- The terms that are left of an expression that opens with the given ones: an added number at the
front is taken for text. -/
def heard : List Worth → List Worth
  | [] => []
  | a :: rest => if a.sides.isNone && a.sign == .plus then rest else a :: rest

/-- It does not matter whether a number goes with dice that wait for one, if some do. -/
def Pending.Regroups (p : Pending) (sign : Sign) (n : Int) : Prop :=
  p.last.sides.isSome →
    p.last.sign.apply p.total (sign.apply p.last.value n) = sign.apply p.settled n

instance (p : Pending) (sign : Sign) (n : Int) : Decidable (p.Regroups sign n) := by
  delta Pending.Regroups
  infer_instance

def ofModifier (n : Int) : List Worth :=
  if n = 0 then [] else [⟨if n < 0 then .minus else .plus, n.natAbs, none⟩]

end Worth

namespace PartRoll

def worths (r : PartRoll) : List Worth :=
  if 0 < r.part.sides then
    ⟨r.part.sign, r.keptSum, some r.part.sides⟩ :: Worth.ofModifier r.part.modifier
  else if r.part.modifier = 0 then []
  else [⟨r.part.sign, r.part.modifier, none⟩]

/-- The printed terms of rolled parts that are heard when they are read again. -/
def printed (parts : List PartRoll) : List Worth := Worth.heard (parts.flatMap worths)

/-- What rolled parts come to when they are written and read again. -/
def rereadTotal (parts : List PartRoll) : Int := Worth.readTotal (printed parts)

/-- A part changes the total as much as its written form does when that is read again. A part
without a written form must not multiply, unless there is nothing to multiply. A number that is
added must not open the expression. And a number that is added or subtracted may come right behind
dice that were read without it only where it does not matter that it goes with them now. -/
def Harmless (before : List PartRoll) (r : PartRoll) : Prop :=
  if r.part.isWritten then
    r.part.sides = 0 → r.part.sign ≠ .times →
      (r.part.sign = .plus → ∃ q ∈ before, q.part.isWritten) ∧
        (Worth.pending (printed before)).Regroups r.part.sign r.part.modifier
  else r.part.sign = .times → joinedTotal before = 0

instance (before : List PartRoll) (r : PartRoll) : Decidable (Harmless before r) := by
  delta Harmless
  infer_instance

def Kept (parts : List PartRoll) : Prop :=
  ∀ k (h : k < parts.length), Harmless (parts.take k) parts[k]

instance (parts : List PartRoll) : Decidable (Kept parts) := by
  delta Kept
  infer_instance

structure IsRead (r : PartRoll) : Prop where
  part : r.part.IsRead
  keptSum : (r.keptSum : Int) ≤ Total.greatest
  sideless : r.part.sides = 0 → r.keptSum = 0

variable {r : PartRoll} {before : List PartRoll}

theorem IsRead.isWritten_iff (h : r.IsRead) : r.part.isWritten = true ↔ r.worths ≠ [] := by
  rw [Part.isWritten, h.part.plain.2.1, h.part.plain.2.2, worths]
  by_cases hsides : 0 < r.part.sides
  · simp [hsides]
  · by_cases hmodifier : r.part.modifier = 0 <;> simp [hsides, hmodifier]

theorem joinedTotal_concat (before : List PartRoll) (r : PartRoll) :
    joinedTotal (before ++ [r]) = r.part.sign.apply (joinedTotal before) r.total := by
  simp [joinedTotal]

theorem joinedTotal_inRange (parts : List PartRoll) : Total.InRange (joinedTotal parts) := by
  rcases List.eq_nil_or_concat parts with rfl | ⟨before, r, rfl⟩
  · decide
  · rw [List.concat_eq_append, joinedTotal_concat]
    exact Sign.apply_inRange _ _ _

/-- A part added at the end of others is printed as it is, if a term is printed before it or its own
first term is no added number. -/
theorem printed_concat (h : before.flatMap worths ≠ [] ∨ Worth.heard r.worths = r.worths) :
    printed (before ++ [r]) = printed before ++ r.worths := by
  rw [printed, printed, List.flatMap_append, List.flatMap_singleton]
  cases hworths : before.flatMap worths with
  | nil => exact h.resolve_left (absurd hworths)
  | cons a rest =>
    rw [List.cons_append, Worth.heard, Worth.heard]
    split <;> rfl

theorem IsRead.total_of_sideless (h : r.IsRead) (sides : r.part.sides = 0) :
    r.total = r.part.modifier := by
  have hrange : Total.InRange r.part.modifier := by
    have := h.part.modifier
    simp only [Total.InRange, Total.greatest, Total.least] at *
    omega
  rw [total, h.sideless sides, Total.add, Int.natCast_zero, Int.zero_add,
    Total.clamp_of_inRange hrange]

/-- A part without a written form adds nothing. -/
theorem IsRead.same_iff_of_unwritten (h : r.IsRead) (unwritten : r.part.isWritten = false)
    (same : rereadTotal before = joinedTotal before) :
    rereadTotal (before ++ [r]) = joinedTotal (before ++ [r]) ↔
      (r.part.sign = .times → joinedTotal before = 0) := by
  have hworths : r.worths = [] := by
    have hiff := h.isWritten_iff
    rw [unwritten] at hiff
    simpa using hiff
  have hzero : r.part.sides = 0 ∧ r.part.modifier = 0 := by
    rw [Part.isWritten] at unwritten
    simp only [Bool.or_eq_false_iff, decide_eq_false_iff_not, bne_eq_false_iff_eq] at unwritten
    omega
  have hreread : rereadTotal (before ++ [r]) = rereadTotal before := by
    rw [rereadTotal, printed, List.flatMap_append, List.flatMap_singleton, hworths, List.append_nil]
    rfl
  have hrange := joinedTotal_inRange before
  rw [hreread, same, joinedTotal_concat, h.total_of_sideless hzero.1, hzero.2]
  cases r.part.sign with
  | plus => simp [Sign.apply, Total.add, Total.clamp_of_inRange hrange]
  | minus => simp [Sign.apply, Total.sub, Total.clamp_of_inRange hrange]
  | times =>
    have hmul : Total.clamp 0 = 0 := by decide
    simp [Sign.apply, Total.mul, hmul]

end PartRoll

/-- A modifier is added with its own sign. -/
theorem Sign.apply_natAbs (total n : Int) :
    (if n < 0 then Sign.minus else .plus).apply total n.natAbs = Total.add total n := by
  split
  · rw [apply, Total.sub, Total.add]
    congr 1
    omega
  · rw [apply, Total.add, Total.add]
    congr 1
    omega

namespace Worth

/-- Dice at the end of terms, with the modifier that joins them, come to what the rolled part comes
to. -/
theorem readTotal_dice (terms : List Worth) (sign : Sign) {value : Int} {sides : Nat}
    (positive : sides ≠ 0) (range : Total.InRange value) (n : Int) :
    readTotal (terms ++ ⟨sign, value, some sides⟩ :: ofModifier n) =
      sign.apply (readTotal terms) (Total.add value n) := by
  have hdice : pending (terms ++ [⟨sign, value, some sides⟩]) =
      ⟨readTotal terms, ⟨sign, value, some sides⟩⟩ := pending_concat_dice terms rfl
  rw [ofModifier]
  split
  · rename_i hn
    rw [readTotal, hdice, hn, Total.add, Int.add_zero, Total.clamp_of_inRange range]
    rfl
  · rename_i hn
    have hjoins : Worth.joins ⟨if n < 0 then .minus else .plus, n.natAbs, none⟩ = true := by
      split <;> rfl
    rw [← List.singleton_append, ← List.append_assoc, readTotal, pending_concat, hdice,
      Pending.add_of_sides hjoins rfl positive]
    simp only [Sign.apply_natAbs]
    rfl

/-- Only dice among the terms wait for a number. -/
theorem exists_of_waits {terms : List Worth} {sides : Nat}
    (h : (pending terms).last.sides = some sides) : ∃ a ∈ terms, a.sides = some sides := by
  rcases List.eq_nil_or_concat terms with rfl | ⟨before, a, rfl⟩
  · simp [pending] at h
  · refine ⟨a, by simp, ?_⟩
    rw [List.concat_eq_append, pending_concat, Pending.add] at h
    split at h
    · exact h
    · simp at h
    · exact h

/-- A number at the end of terms is read as its own summand exactly if it regroups with the dice
that wait for a number. -/
theorem readTotal_number {terms : List Worth} (positive : ∀ a ∈ terms, a.sides ≠ some 0)
    {sign : Sign} (joins : sign ≠ .times) (n : Int) :
    readTotal (terms ++ [⟨sign, n, none⟩]) = sign.apply (readTotal terms) n ↔
      (pending terms).Regroups sign n := by
  have hjoins : Worth.joins ⟨sign, n, none⟩ = true := by simp [Worth.joins, joins]
  rw [readTotal, pending_concat, Pending.Regroups]
  cases hsides : (pending terms).last.sides with
  | none =>
    rw [Pending.add_of_apart fun _ => hsides]
    simp [readTotal, Pending.settled]
  | some sides =>
    have hpositive : sides ≠ 0 := by
      rintro rfl
      obtain ⟨a, ha, hzero⟩ := exists_of_waits hsides
      exact positive a ha hzero
    rw [Pending.add_of_sides hjoins hsides hpositive]
    simp [readTotal, Pending.settled]

end Worth

namespace PartRoll

variable {r : PartRoll} {before : List PartRoll}

theorem positive_of_mem_printed {a : Worth} (h : a ∈ printed before) : a.sides ≠ some 0 := by
  have hmem : a ∈ before.flatMap worths := by
    rw [printed] at h
    cases hworths : before.flatMap worths with
    | nil => rw [hworths] at h; exact h
    | cons b rest =>
      rw [hworths, Worth.heard] at h
      split at h
      · exact List.mem_cons_of_mem b h
      · exact h
  obtain ⟨r, -, ha⟩ := List.mem_flatMap.mp hmem
  have hmodifier : ∀ b ∈ Worth.ofModifier r.part.modifier, b.sides = none := by
    rw [Worth.ofModifier]
    split <;> simp
  rw [worths] at ha
  split at ha
  · rename_i hsides
    rcases List.mem_cons.mp ha with rfl | ha
    · simpa using Nat.pos_iff_ne_zero.mp hsides
    · simp [hmodifier a ha]
  · split at ha
    · simp at ha
    · rw [List.mem_singleton.mp ha]
      simp

/-- Some part has a written form exactly if there are printed terms. -/
theorem flatMap_worths_ne_nil_iff (read : ∀ q ∈ before, q.IsRead) :
    before.flatMap worths ≠ [] ↔ ∃ q ∈ before, q.part.isWritten := by
  constructor
  · intro h
    obtain ⟨a, ha⟩ := List.exists_mem_of_ne_nil _ h
    obtain ⟨q, hq, ha⟩ := List.mem_flatMap.mp ha
    exact ⟨q, hq, (read q hq).isWritten_iff.mpr (List.ne_nil_of_mem ha)⟩
  · rintro ⟨q, hq, hwritten⟩ hnil
    exact (read q hq).isWritten_iff.mp hwritten (List.flatMap_eq_nil_iff.mp hnil q hq)

/-- Dice are read again as they are. -/
theorem IsRead.reread_dice (h : r.IsRead) (sides : 0 < r.part.sides)
    (same : rereadTotal before = joinedTotal before) :
    rereadTotal (before ++ [r]) = joinedTotal (before ++ [r]) := by
  have hworths : r.worths = ⟨r.part.sign, r.keptSum, some r.part.sides⟩ ::
      Worth.ofModifier r.part.modifier := if_pos sides
  have hheard : Worth.heard r.worths = r.worths := by rw [hworths]; rfl
  have hrange : Total.InRange r.keptSum := by
    have := h.keptSum
    simp only [Total.InRange, Total.greatest, Total.least] at *
    omega
  rw [rereadTotal, printed_concat (.inr hheard), hworths,
    Worth.readTotal_dice _ _ (Nat.pos_iff_ne_zero.mp sides) hrange, joinedTotal_concat, ← same]
  rfl

/-- A number is read again as it is exactly where it does not open the expression as an added one
and regroups with dice before it, unless it multiplies. -/
theorem IsRead.same_iff_of_number (h : r.IsRead) (sides : r.part.sides = 0)
    (number : r.part.modifier ≠ 0) (same : rereadTotal before = joinedTotal before) :
    rereadTotal (before ++ [r]) = joinedTotal (before ++ [r]) ↔
      (r.part.sign ≠ .times → (r.part.sign = .plus → before.flatMap worths ≠ []) ∧
        (Worth.pending (printed before)).Regroups r.part.sign r.part.modifier) := by
  have hworths : r.worths = [⟨r.part.sign, r.part.modifier, none⟩] := by
    rw [worths, if_neg (by omega), if_neg number]
  have hheard (hsign : r.part.sign ≠ .plus) : Worth.heard r.worths = r.worths := by
    simp [hworths, Worth.heard, hsign]
  have hjoined : joinedTotal (before ++ [r]) =
      r.part.sign.apply (rereadTotal before) r.part.modifier := by
    rw [joinedTotal_concat, h.total_of_sideless sides, same]
  have hpositive : ∀ a ∈ printed before, a.sides ≠ some 0 := fun a => positive_of_mem_printed
  rw [hjoined]
  by_cases htimes : r.part.sign = .times
  -- A factor never joins dice and never opens as an added number.
  · refine iff_of_true ?_ (absurd htimes)
    rw [rereadTotal, printed_concat (.inr (hheard (by simp [htimes]))), hworths, Worth.readTotal,
      Worth.pending_concat, Worth.Pending.add_of_apart (by simp [Worth.joins, htimes])]
    rfl
  · simp only [htimes, ne_eq, not_false_eq_true, forall_const]
    by_cases hopens : r.part.sign = .plus ∧ before.flatMap worths = []
    -- An added number that opens is lost, and as it is positive it is missed.
    · obtain ⟨hplus, hnil⟩ := hopens
      refine iff_of_false ?_ fun hharmless => hharmless.1 hplus hnil
      have hbefore : rereadTotal before = 0 := by rw [rereadTotal, printed, hnil]; rfl
      have hlost : rereadTotal (before ++ [r]) = 0 := by
        rw [rereadTotal, printed, List.flatMap_append, hnil, List.flatMap_singleton, hworths, hplus]
        rfl
      have hmodifier := h.part.modifier
      rw [hbefore, hlost, hplus, Sign.apply, Total.add]
      simp only [Total.clamp, Total.greatest, Total.least] at *
      omega
    · have happend : before.flatMap worths ≠ [] ∨ Worth.heard r.worths = r.worths := by
        by_cases hplus : r.part.sign = .plus
        · exact .inl fun hnil => hopens ⟨hplus, hnil⟩
        · exact .inr (hheard hplus)
      rw [rereadTotal, printed_concat happend, hworths, rereadTotal,
        Worth.readTotal_number hpositive htimes]
      exact (and_iff_right fun hplus hnil => hopens ⟨hplus, hnil⟩).symm

/-- A part added at the end of parts that are read again as they are leaves them so exactly if it is
harmless behind them. -/
theorem IsRead.same_iff (h : r.IsRead) (read : ∀ q ∈ before, q.IsRead)
    (same : rereadTotal before = joinedTotal before) :
    rereadTotal (before ++ [r]) = joinedTotal (before ++ [r]) ↔ Harmless before r := by
  rw [Harmless]
  cases hwritten : r.part.isWritten with
  | false => exact h.same_iff_of_unwritten hwritten same
  | true =>
    rw [if_pos rfl, ← flatMap_worths_ne_nil_iff read]
    by_cases hsides : r.part.sides = 0
    · have hnumber : r.part.modifier ≠ 0 := by
        intro hzero
        have hworths := h.isWritten_iff.mp hwritten
        simp [worths, hsides, hzero] at hworths
      rw [h.same_iff_of_number hsides hnumber same]
      simp [hsides]
    · simp [hsides, h.reread_dice (Nat.pos_of_ne_zero hsides) same]

/-- Two ways to total parts agree on all beginnings of some parts exactly where every part keeps to
what holds of it behind the parts before it, if that is what one more part needs. -/
theorem forall_take_iff_of_step {f g : List PartRoll → Int} {p : List PartRoll → PartRoll → Prop}
    {parts : List PartRoll} (start : f [] = g [])
    (step : ∀ k (hk : k < parts.length), f (parts.take k) = g (parts.take k) →
      (f (parts.take k ++ [parts[k]]) = g (parts.take k ++ [parts[k]]) ↔
        p (parts.take k) parts[k])) :
    (∀ k, f (parts.take k) = g (parts.take k)) ↔
      ∀ k (hk : k < parts.length), p (parts.take k) parts[k] := by
  constructor
  · intro same k hk
    rw [← step k hk (same k), List.take_concat_get' parts k hk]
    exact same (k + 1)
  · intro kept k
    induction k with
    | zero => exact start
    | succ k ih =>
      by_cases hk : k < parts.length
      · rw [← List.take_concat_get' parts k hk]
        exact (step k hk ih).mpr (kept k hk)
      · have hall : parts.take (k + 1) = parts.take k := by
          rw [List.take_of_length_le (by omega), List.take_of_length_le (by omega)]
        rwa [hall]

/-- The beginnings of rolled parts are read again as they are exactly where each part is
harmless. -/
theorem forall_take_iff {parts : List PartRoll} (read : ∀ r ∈ parts, r.IsRead) :
    (∀ k, rereadTotal (parts.take k) = joinedTotal (parts.take k)) ↔ Kept parts :=
  forall_take_iff_of_step rfl fun _ hk same =>
    (read _ (List.getElem_mem hk)).same_iff (fun q hq => read q (List.mem_of_mem_take hq)) same

end PartRoll

end Tabletop
