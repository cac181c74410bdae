import Mathlib.Data.List.Forall2
import Tabletop.Proofs.Roll.Scripted
import Tabletop.Proofs.Roll.Selected
import Tabletop.Proofs.Roll.Veiled

/-!
# Better pools

Grades are ordered from worst to best, and a test that asks for high totals is passed by whatever is
no lower than what passes it. A pool in which no die shows less has no lower total. Its grade is no
worse either: no critical is lost, a hunger die that is critical stays critical, and one that shows
a 1 showed a 1 before.
-/

namespace Tabletop

namespace Test

/-- The test asks for high totals. -/
def IsUpward (t : Test) : Prop := t.op = .ge ∨ t.op = .gt

instance (t : Test) : Decidable t.IsUpward := inferInstanceAs (Decidable (_ ∨ _))

/-- A total that passes the test passes it for a lower value, and a higher total passes it too. -/
theorem IsUpward.passes_mono {t : Test} (upward : t.IsUpward) {value total total' : Int}
    (lower : value ≤ t.value) (higher : total ≤ total') (passes : t.passes total) :
    { t with value }.passes total' := by
  rcases upward with hop | hop
  all_goals
    simp only [Test.passes, hop, CompareOp.holds, decide_eq_true_eq] at passes ⊢
    omega

end Test

namespace Grade

/-- Both grades stand on the scale from worst to best, the second no lower than the first. -/
def AtMost (g h : Grade) : Prop := ∃ m ∈ g.rank?, ∃ n ∈ h.rank?, m ≤ n

instance (g h : Grade) : Decidable (g.AtMost h) := by
  delta AtMost
  infer_instance

theorem atMost_of_isFailure_of_isSuccess {g h : Grade} (hg : g.isFailure) (hh : h.isSuccess) :
    g.AtMost h := by
  have hrank : ∃ m ∈ g.rank?, m ≤ 2 := by cases g <;> first | decide | exact absurd hg (by decide)
  have hrank' : ∃ n ∈ h.rank?, 3 ≤ n := by cases h <;> first | decide | exact absurd hh (by decide)
  obtain ⟨m, hm, hlow⟩ := hrank
  obtain ⟨n, hn, hhigh⟩ := hrank'
  exact ⟨m, hm, n, hn, by omega⟩

/-- Whoever passes a test where another one does is graded no worse by it. -/
theorem ofTest_mono {t t' : Test} {total total' : Int}
    (h : t.passes total → t'.passes total') :
    (ofTest (some t) total).AtMost (ofTest (some t') total') := by
  rw [ofTest, ofTest]
  by_cases hpasses : t.passes total
  · rw [if_pos hpasses, if_pos (h hpasses)]
    decide
  · rw [if_neg hpasses]
    split <;> decide

end Grade

namespace Pool

/-- No die of the second pool shows less than the die at its place in the first. -/
structure AtMost (p q : Pool) : Prop where
  base : List.Forall₂ (· ≤ ·) p.base q.base
  hunger : List.Forall₂ (· ≤ ·) p.hunger q.hunger
  modifier : p.modifier = q.modifier

/-- Higher faces reach a limit wherever lower ones do. -/
theorem countP_le_of_forall₂ {l m : List Nat} (h : List.Forall₂ (· ≤ ·) l m) (limit : Nat) :
    l.countP (fun face => limit ≤ face) ≤ m.countP fun face => limit ≤ face := by
  induction h with
  | nil => exact Nat.le_refl _
  | cons hface _ ih =>
    rw [List.countP_cons, List.countP_cons]
    simp only [decide_eq_true_eq]
    split <;> split <;> omega

/-- A low face stands above one that is as low. -/
theorem exists_le_of_forall₂ {l m : List Nat} (h : List.Forall₂ (· ≤ ·) l m) {high : Nat}
    (mem : high ∈ m) : ∃ low ∈ l, low ≤ high := by
  induction h with
  | nil => cases mem
  | @cons low first _ _ hfirst _ ih =>
    rcases List.mem_cons.mp mem with rfl | mem
    · exact ⟨low, List.mem_cons_self, hfirst⟩
    · obtain ⟨other, hother, hle⟩ := ih mem
      exact ⟨other, List.mem_cons_of_mem _ hother, hle⟩

theorem AtMost.countP_dice {p q : Pool} (h : p.AtMost q) (limit : Nat) :
    p.dice.countP (fun face => limit ≤ face) ≤ q.dice.countP fun face => limit ≤ face := by
  rw [dice, dice, List.countP_append, List.countP_append]
  exact Nat.add_le_add (countP_le_of_forall₂ h.base limit) (countP_le_of_forall₂ h.hunger limit)

theorem AtMost.total {p q : Pool} (h : p.AtMost q) : p.total ≤ q.total := by
  have hhits := h.countP_dice successFace
  have hcriticals : p.criticals ≤ q.criticals := h.countP_dice criticalFace
  have hsuccesses : p.successes ≤ q.successes := by
    rw [successes, successes]
    omega
  rw [Pool.total, Pool.total, h.modifier]
  exact Total.clamp_mono (by omega)

theorem isSuccess_grade_of_passes (p : Pool) {t : Test} {total : Int} (h : t.passes total) :
    (p.grade (some t) total).isSuccess := by
  rw [p.grade_of_passes h]
  split
  · rfl
  · split <;> rfl

theorem isFailure_grade_of_fails (p : Pool) {t : Test} {total : Int} (h : ¬t.passes total) :
    (p.grade (some t) total).isFailure := by
  rw [p.grade_of_fails h]
  split <;> rfl

/-- Besides the test, the grade of a pool goes by the number of criticals and by whether there is a
critical or a 1 among the hunger dice. -/
theorem grade_mono {p q : Pool} (criticals : p.criticals ≤ q.criticals)
    (messy : (p.hunger.any fun face => criticalFace ≤ face) →
      q.hunger.any fun face => criticalFace ≤ face)
    (bestial : q.hunger.contains 1 → p.hunger.contains 1) {t t' : Test} {total total' : Int}
    (passes : t.passes total → t'.passes total') :
    (p.grade (some t) total).AtMost (q.grade (some t') total') := by
  by_cases hp : t.passes total
  · have hq := passes hp
    rw [p.grade_of_passes hp, q.grade_of_passes hq]
    by_cases hfew : p.criticals < 2
    · rw [if_pos hfew]
      split
      · decide
      · split <;> decide
    · have hmany : ¬q.criticals < 2 := by omega
      rw [if_neg hfew, if_neg hmany]
      by_cases hmessy : p.hunger.any fun face => criticalFace ≤ face
      · rw [if_pos hmessy, if_pos (messy hmessy)]
        decide
      · rw [if_neg hmessy]
        split <;> decide
  · by_cases hq : t'.passes total'
    · exact Grade.atMost_of_isFailure_of_isSuccess (p.isFailure_grade_of_fails hp)
        (q.isSuccess_grade_of_passes hq)
    · rw [p.grade_of_fails hp, q.grade_of_fails hq]
      by_cases hbestial : p.hunger.contains 1
      · rw [if_pos hbestial]
        split <;> decide
      · rw [if_neg hbestial, if_neg fun h => hbestial (bestial h)]
        decide

/-- Of two pools with as many dice of either kind and the same modifier, the one in which no die
shows less has no lower total, and is graded no worse by a test that asks for high totals. -/
theorem total_and_grade_mono {p q : Pool} (better : p.AtMost q) (faces : ∀ face ∈ p.dice, 1 ≤ face)
    {t : Test} (upward : t.IsUpward) :
    p.total ≤ q.total ∧ (p.grade (some t) p.total).AtMost (q.grade (some t) q.total) := by
  refine ⟨better.total, grade_mono (better.countP_dice criticalFace) (fun messy => ?_)
    (fun bestial => ?_) (upward.passes_mono (Int.le_refl _) better.total)⟩
  · rw [List.any_eq_true, ← List.countP_pos_iff] at messy ⊢
    exact messy.trans_le (countP_le_of_forall₂ better.hunger criticalFace)
  · -- only a 1 is as low as a 1
    obtain ⟨face, hface, hle⟩ :=
      exists_le_of_forall₂ better.hunger (List.contains_iff_mem.mp bestial)
    have hone : face = 1 := Nat.le_antisymm hle (faces face (List.mem_append_right _ hface))
    exact List.contains_iff_mem.mpr (hone ▸ hface)

/-- With a 10 in place of a 1 on a hunger die, a pool with a critical passes its test, though
messily. -/
theorem total_and_grade_mono_messy :
    let p : Pool := ⟨[10, 3], [10, 1], -1⟩
    let q : Pool := ⟨[10, 5], [10, 10], -1⟩
    let t : Test := ⟨.operator, .gt, 3, false⟩
    (p.AtMost q ∧ (∀ face ∈ p.dice, 1 ≤ face) ∧ t.IsUpward) ∧
      (p.grade (some t) p.total = .bestialFailure ∧ q.grade (some t) q.total = .messyCritical) ∧
      p.total ≤ q.total ∧ (p.grade (some t) p.total).AtMost (q.grade (some t) q.total) := by
  intro p q t
  have better : p.AtMost q := ⟨by decide, by decide, rfl⟩
  have faces : ∀ face ∈ p.dice, 1 ≤ face := by decide
  have upward : t.IsUpward := .inr rfl
  exact ⟨⟨better, faces, upward⟩, by decide, total_and_grade_mono better faces upward⟩

end Pool

end Tabletop
