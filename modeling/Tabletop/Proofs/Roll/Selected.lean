import Mathlib.Algebra.BigOperators.Group.List.Basic
import Mathlib.Algebra.Order.Ring.Nat
import Mathlib.Data.List.Nodup
import Mathlib.Data.List.Range
import Tabletop.Roll.Part

/-!
# Selected faces

Whether a rule keeps dice or drops them, the faces that it leaves are those that come first when all
faces are put in order from one end: from the end that is kept, or else from the end opposite to the
one that is dropped. How many there are, that no other selection of so many dice comes to more (or
to less), and what happens when all faces are rolled twice over can be read off that order. Only
which of several equal faces are chosen depends on the roll; it is the earlier ones.
-/

namespace Tabletop

def Extremity.opposite : Extremity → Extremity
  | .highest => .lowest
  | .lowest => .highest

namespace DropKeep

variable {e : Extremity}

theorem before_refl (a : Nat) : before e a a = true := by cases e <;> simp [before]

theorem before_trans (a b c : Nat) (hab : before e a b = true) (hbc : before e b c = true) :
    before e a c = true := by
  cases e <;> simp only [before, decide_eq_true_eq] at * <;> omega

theorem before_total (a b : Nat) : (before e a b || before e b a) = true := by
  cases e <;> simp only [before, Bool.or_eq_true, decide_eq_true_eq] <;> omega

theorem before_antisymm {a b : Nat} (hab : before e a b = true) (hba : before e b a = true) :
    a = b := by
  cases e <;> simp only [before, decide_eq_true_eq] at * <;> omega

theorem before_opposite (a b : Nat) : before e.opposite a b = before e b a := by cases e <;> rfl

/-- A sum lies as far to an end as its summands do. -/
theorem before_add {a b s t : Nat} (hab : before e a b = true) (hst : before e s t = true) :
    before e (a + s) (b + t) = true := by
  cases e <;> simp only [before, decide_eq_true_eq] at * <;> omega

/-- Items with the same key stay in order when they are put in order by their keys. -/
theorem filter_mergeSort {α : Type} (e : Extremity) (key : α → Nat) (items : List α) (n : Nat) :
    (items.mergeSort fun a b => before e (key a) (key b)).filter (fun a => key a == n) =
      items.filter fun a => key a == n := by
  have same : (items.filter fun a => key a == n).Pairwise
      fun a b => before e (key a) (key b) = true := by
    refine List.pairwise_of_forall_mem_list fun a ha b hb => ?_
    have hkeys : key a = n ∧ key b = n := by simp_all
    rw [hkeys.1, hkeys.2]
    exact before_refl n
  have kept := List.sublist_mergeSort (fun a b c => before_trans (key a) (key b) (key c))
    (fun a b => before_total (key a) (key b)) same List.filter_sublist
  have hfiltered := kept.filter fun a => key a == n
  rw [List.filter_filter] at hfiltered
  simp only [Bool.and_self] at hfiltered
  exact (hfiltered.eq_of_length ((List.mergeSort_perm items _).filter _).length_eq.symm).symm

/-- Faces in the order in which they are chosen from an end. -/
def ranked (e : Extremity) (faces : List Nat) : List Nat := faces.mergeSort (before e)

theorem ranked_perm (e : Extremity) (faces : List Nat) : (ranked e faces).Perm faces :=
  List.mergeSort_perm _ _

theorem pairwise_ranked (e : Extremity) (faces : List Nat) :
    (ranked e faces).Pairwise fun a b => before e a b = true :=
  List.pairwise_mergeSort before_trans before_total faces

@[simp] theorem length_ranked (e : Extremity) (faces : List Nat) :
    (ranked e faces).length = faces.length := (ranked_perm e faces).length_eq

/-- Faces in order are the ranked faces, since there is one order only. -/
theorem eq_ranked {faces l : List Nat} (ordered : l.Pairwise fun a b => before e a b = true)
    (h : l.Perm faces) : l = ranked e faces :=
  (h.trans (ranked_perm e faces).symm).eq_of_pairwise (fun _ _ _ _ => before_antisymm) ordered
    (pairwise_ranked e faces)

theorem ranked_opposite (e : Extremity) (faces : List Nat) :
    ranked e.opposite faces = (ranked e faces).reverse := by
  refine (eq_ranked ?_ ((ranked e faces).reverse_perm.trans (ranked_perm e faces))).symm
  rw [List.pairwise_reverse]
  exact (pairwise_ranked e faces).imp fun h => (before_opposite _ _).trans h

def marked (faces : List Nat) (marks : List Bool) : List Nat :=
  ((faces.zip marks).filter Prod.snd).map Prod.fst

theorem marked_sublist {faces : List Nat} {marks : List Bool} (h : marks.length = faces.length) :
    (marked faces marks).Sublist faces := by
  have hzip : (faces.zip marks).map Prod.fst = faces := List.map_fst_zip h.ge
  have hsub : (marked faces marks).Sublist ((faces.zip marks).map Prod.fst) :=
    List.filter_sublist.map Prod.fst
  rwa [hzip] at hsub

theorem length_marked {faces : List Nat} {marks : List Bool} (h : marks.length = faces.length) :
    (marked faces marks).length = marks.count true := by
  have hzip : (faces.zip marks).map Prod.snd = marks := List.map_snd_zip h.le
  rw [marked, List.length_map, ← List.countP_eq_length_filter, List.count]
  conv_rhs => rw [← hzip, List.countP_map]
  exact List.countP_congr fun _ _ => by simp

/-- Where marks are worked out from positions, the marked faces are those at marked positions. -/
theorem marked_map_range (faces : List Nat) (mark : Nat → Bool) :
    marked faces ((List.range faces.length).map mark) =
      (faces.zipIdx.filter fun p => mark p.2).map Prod.fst := by
  rw [marked, List.zip_map_right, List.range_eq_range', ← List.zipIdx_eq_zip_range',
    List.filter_map, List.map_map]
  rfl

/-- Faces beside their positions, in the order in which they are chosen from an end. -/
def placed (e : Extremity) (faces : List Nat) : List (Nat × Nat) :=
  faces.zipIdx.mergeSort fun a b => before e a.1 b.1

theorem placed_perm (e : Extremity) (faces : List Nat) : (placed e faces).Perm faces.zipIdx :=
  List.mergeSort_perm _ _

theorem chosen_eq (rule : DropKeep) (faces : List Nat) :
    rule.chosen faces = ((placed rule.extremity faces).take rule.number).map Prod.snd :=
  List.map_take.symm

theorem map_fst_placed (e : Extremity) (faces : List Nat) :
    (placed e faces).map Prod.fst = ranked e faces := by
  rw [placed, List.map_mergeSort (s := before e) fun _ _ _ _ => rfl, List.zipIdx_map_fst, ranked]

theorem nodup_placed (e : Extremity) (faces : List Nat) :
    ((placed e faces).map Prod.snd).Nodup := by
  rw [((placed_perm e faces).map Prod.snd).nodup_iff, List.zipIdx_map_snd]
  exact List.nodup_range'

/-- A property of the first items of a list that no later one has picks out the first items. -/
theorem filter_of_take {α : Type} {l : List α} {n : Nat} {q : α → Bool}
    (first : ∀ a ∈ l.take n, q a = true) (rest : ∀ a ∈ l.drop n, q a = false) :
    l.filter q = l.take n ∧ (l.filter fun a => !q a) = l.drop n := by
  have hsplit (q : α → Bool) : l.filter q = (l.take n).filter q ++ (l.drop n).filter q := by
    rw [← List.filter_append, List.take_append_drop]
  constructor
  · have hnone : (l.drop n).filter q = [] := List.filter_eq_nil_iff.mpr (by simpa using rest)
    rw [hsplit, List.filter_eq_self.mpr first, hnone, List.append_nil]
  · have hnone : (l.take n).filter (fun a => !q a) = [] :=
      List.filter_eq_nil_iff.mpr (by simpa using first)
    rw [hsplit, hnone, List.nil_append]
    exact List.filter_eq_self.mpr (by simpa using rest)

/-- No position stands in two places, so the first places can be told by their positions. -/
theorem filter_placed (rule : DropKeep) (faces : List Nat) :
    let places := placed rule.extremity faces
    (places.filter fun p => (rule.chosen faces).contains p.2) = places.take rule.number ∧
      (places.filter fun p => !(rule.chosen faces).contains p.2) = places.drop rule.number := by
  intro places
  have nodup := nodup_placed rule.extremity faces
  rw [← List.take_append_drop rule.number (placed rule.extremity faces), List.map_append,
    List.nodup_append] at nodup
  rw [chosen_eq]
  refine filter_of_take (fun p hp => ?_) fun p hp => ?_
  · exact List.contains_iff_mem.mpr (List.mem_map_of_mem hp)
  · refine Bool.eq_false_iff.mpr fun h => ?_
    exact nodup.2.2 _ (List.contains_iff_mem.mp h) _ (List.mem_map_of_mem hp) rfl

/-- What a mark says depends on the position alone, so the faces may be put in order before. -/
theorem marked_select_perm_placed (rule : DropKeep) (faces : List Nat) :
    (marked faces (rule.select faces)).Perm (((placed rule.extremity faces).filter fun p =>
      (rule.chosen faces).contains p.2 == (rule.choice == .keep)).map Prod.fst) := by
  rw [select, marked_map_range]
  exact ((placed_perm rule.extremity faces).symm.filter _).map Prod.fst

theorem marked_keep_perm (e : Extremity) (n : Nat) (faces : List Nat) :
    (marked faces (select ⟨.keep, e, n⟩ faces)).Perm ((ranked e faces).take n) := by
  have hplaced := marked_select_perm_placed ⟨.keep, e, n⟩ faces
  have hmark (b : Bool) : (b == (Choice.keep == Choice.keep)) = b := by cases b <;> rfl
  simp only [hmark, (filter_placed ⟨.keep, e, n⟩ faces).1] at hplaced
  rwa [List.map_take, map_fst_placed] at hplaced

theorem marked_drop_perm (e : Extremity) (n : Nat) (faces : List Nat) :
    (marked faces (select ⟨.drop, e, n⟩ faces)).Perm ((ranked e faces).drop n) := by
  have hplaced := marked_select_perm_placed ⟨.drop, e, n⟩ faces
  have hmark (b : Bool) : (b == (Choice.drop == Choice.keep)) = !b := by cases b <;> rfl
  simp only [hmark, (filter_placed ⟨.drop, e, n⟩ faces).2] at hplaced
  rwa [List.map_drop, map_fst_placed] at hplaced

def keptEnd (rule : DropKeep) : Extremity :=
  match rule.choice with
  | .keep => rule.extremity
  | .drop => rule.extremity.opposite

/-- The dice that a rule leaves are those that come first from the end that is kept. -/
theorem marked_select_perm (rule : DropKeep) (faces : List Nat) :
    (marked faces (rule.select faces)).Perm
      ((ranked rule.keptEnd faces).take (rule.keptCount faces.length)) := by
  obtain ⟨choice, e, n⟩ := rule
  rw [← length_ranked e faces]
  cases choice with
  | keep =>
    rw [keptEnd, keptCount, ← List.take_eq_take_min]
    exact marked_keep_perm e n faces
  | drop =>
    rw [keptEnd, keptCount, ranked_opposite, ← List.reverse_drop]
    exact (marked_drop_perm e n faces).trans (List.reverse_perm _).symm

theorem keptCount_le (rule : DropKeep) (count : Nat) : rule.keptCount count ≤ count := by
  rw [keptCount]
  split
  · exact Nat.min_le_right _ _
  · exact Nat.sub_le _ _

/-- A rule leaves as many dice as it says. -/
theorem count_select (rule : DropKeep) (faces : List Nat) :
    (rule.select faces).count true = rule.keptCount faces.length := by
  rw [← length_marked (length_select rule faces), (marked_select_perm rule faces).length_eq,
    List.length_take, length_ranked, Nat.min_eq_left (rule.keptCount_le faces.length)]

/-- No selection from faces in order lies farther to their end than the first ones. -/
theorem before_sum_take {l t : List Nat} (ordered : l.Pairwise fun a b => before e a b = true)
    (h : t.Sublist l) : before e (l.take t.length).sum t.sum = true := by
  induction l generalizing t with
  | nil =>
    rw [List.sublist_nil.mp h]
    exact before_refl _
  | cons a rest ih =>
    obtain ⟨ha, hrest⟩ := List.pairwise_cons.mp ordered
    cases t with
    | nil => exact before_refl _
    | cons b more =>
      have hfirst : before e a b = true := by
        rcases List.mem_cons.mp (h.mem List.mem_cons_self) with rfl | hb
        · exact before_refl b
        · exact ha b hb
      rw [List.length_cons, List.take_succ_cons, List.sum_cons, List.sum_cons]
      exact before_add hfirst (ih hrest h.of_cons_cons)

/-- No selection of as many dice comes nearer to the end that a rule keeps than the dice that the
rule leaves. -/
theorem before_sum_marked (rule : DropKeep) {faces : List Nat} {marks : List Bool}
    (length : marks.length = faces.length)
    (count : marks.count true = rule.keptCount faces.length) :
    before rule.keptEnd (marked faces (rule.select faces)).sum (marked faces marks).sum = true := by
  obtain ⟨t, ht, hsub⟩ :=
    List.exists_perm_sublist (marked_sublist length) (ranked_perm rule.keptEnd faces).symm
  have hlength : t.length = rule.keptCount faces.length := by
    rw [ht.length_eq, length_marked length, count]
  rw [(marked_select_perm rule faces).sum_eq, ← hlength, ← ht.sum_eq]
  exact before_sum_take (pairwise_ranked rule.keptEnd faces) hsub

/-- Items at two positions stand one before the other. -/
theorem pair_sublist {α : Type} {l : List α} {i j : Nat} {a b : α} (hij : i < j)
    (hi : l[i]? = some a) (hj : l[j]? = some b) : [a, b].Sublist l := by
  have ha : a ∈ l.take j := List.mem_of_getElem? ((List.getElem?_take_of_lt hij).trans hi)
  have hb : b ∈ l.drop j := by
    have h : (l.drop j)[0]? = some b := by rwa [List.getElem?_drop]
    exact List.mem_of_getElem? h
  rw [← List.take_append_drop j l]
  exact (List.singleton_sublist.mpr ha).append (List.singleton_sublist.mpr hb)

/-- Where two items stand one before the other, the first places hold the earlier one if they hold
the later one. -/
theorem mem_take_of_pair_sublist {α : Type} {l : List α} (nodup : l.Nodup) {a b : α} {n : Nat}
    (h : [a, b].Sublist l) (hb : b ∈ l.take n) : a ∈ l.take n := by
  rw [← List.take_append_drop n l] at nodup h
  have apart := List.disjoint_of_nodup_append nodup
  obtain ⟨first, rest, hpair, hfirst, hrest⟩ := List.sublist_append_iff.mp h
  match first with
  | [] =>
    obtain rfl : [a, b] = rest := hpair
    exact absurd (hrest.mem (by simp)) (apart hb)
  | x :: more =>
    obtain rfl : a = x := (List.cons.inj hpair).1
    exact hfirst.mem List.mem_cons_self

/-- Of dice that show the same face, those rolled earlier are chosen first. -/
theorem mem_chosen_of_earlier (rule : DropKeep) {faces : List Nat} {i j : Nat} (hij : i < j)
    (same : faces[i]? = faces[j]?) (h : j ∈ rule.chosen faces) : i ∈ rule.chosen faces := by
  rw [chosen_eq] at h ⊢
  obtain ⟨⟨face, place⟩, hlater, hplace⟩ := List.mem_map.mp h
  obtain rfl : place = j := hplace
  have hj : faces[place]? = some face :=
    List.mem_zipIdx_iff_getElem?.mp ((placed_perm _ _).mem_iff.mp (List.mem_of_mem_take hlater))
  have hpair : [(face, i), (face, place)].Sublist (placed rule.extremity faces) :=
    List.pair_sublist_mergeSort (fun a b c => before_trans a.1 b.1 c.1)
      (fun a b => before_total a.1 b.1) (before_refl face)
      (pair_sublist hij (by simp [same, hj]) (by simp [hj]))
  have hearlier := mem_take_of_pair_sublist (nodup_placed _ _).of_map hpair hlater
  exact List.mem_map_of_mem hearlier

/-- A die is marked as the rule marks what it chooses exactly if it is chosen. -/
theorem getElem?_select_eq_iff (rule : DropKeep) {faces : List Nat} {i : Nat}
    (hi : i < faces.length) :
    (rule.select faces)[i]? = some (rule.choice == .keep) ↔ i ∈ rule.chosen faces := by
  have hmark : (rule.select faces)[i]? =
      some ((rule.chosen faces).contains i == (rule.choice == .keep)) := by
    rw [select, List.getElem?_map, List.getElem?_range hi, Option.map_some]
  rw [hmark, Option.some.injEq, ← List.contains_iff_mem]
  cases (rule.chosen faces).contains i <;> cases rule.choice <;> decide

def paired {α : Type} (l : List α) : List α := l.flatMap fun a => [a, a]

theorem paired_perm {α : Type} (l : List α) : (paired l).Perm (l ++ l) := by
  have h := List.flatMap_append_perm l (fun a => [a]) fun a => [a]
  rw [List.flatMap_singleton'] at h
  exact h.symm

theorem take_paired {α : Type} (l : List α) (n : Nat) :
    (paired l).take (n * 2) = paired (l.take n) := by
  induction l generalizing n with
  | nil => simp [paired]
  | cons a rest ih =>
    cases n with
    | zero => simp [paired]
    | succ n =>
      have hcons : paired (a :: rest) = a :: a :: paired rest := rfl
      rw [hcons, Nat.succ_mul, List.take_succ_cons, List.take_succ_cons, ih]
      rfl

/-- Ranking all faces twice over repeats each of the ranked faces. -/
theorem ranked_twice (e : Extremity) (faces : List Nat) :
    ranked e (faces ++ faces) = paired (ranked e faces) := by
  have hfaces := ranked_perm e faces
  refine (eq_ranked ?_ ((paired_perm _).trans (hfaces.append hfaces))).symm
  refine List.pairwise_flatMap.mpr ⟨fun face _ => by simp [before_refl], ?_⟩
  exact (pairwise_ranked e faces).imp fun h => by simpa using h

/-- A rule for twice the dice leaves twice as many, unless neither their number nor that of the rule
can be doubled. -/
theorem keptCount_scaled {rule : DropKeep} {count : Nat}
    (h : rule.number * 2 ≤ maxCount ∨ count * 2 ≤ maxCount) :
    (rule.scaled 2).keptCount (count * 2) = rule.keptCount count * 2 := by
  obtain ⟨choice, e, n⟩ := rule
  cases choice with
  | keep =>
    change min (min maxCount (n * 2)) (count * 2) = min n count * 2
    simp only at h
    omega
  | drop =>
    change count * 2 - min maxCount (n * 2) = (count - n) * 2
    simp only at h
    omega

/-- Of all dice twice over, a rule for twice the dice leaves twice what it left before. -/
theorem marked_scaled_perm {rule : DropKeep} {faces : List Nat}
    (h : rule.number * 2 ≤ maxCount ∨ faces.length * 2 ≤ maxCount) :
    (marked (faces ++ faces) ((rule.scaled 2).select (faces ++ faces))).Perm
      (marked faces (rule.select faces) ++ marked faces (rule.select faces)) := by
  have hkept := marked_select_perm rule faces
  have hend : (rule.scaled 2).keptEnd = rule.keptEnd := rfl
  have hlength : (faces ++ faces).length = faces.length * 2 := by
    rw [List.length_append, Nat.mul_two]
  refine (marked_select_perm (rule.scaled 2) _).trans ?_
  rw [hend, ranked_twice, hlength, keptCount_scaled h, take_paired]
  exact (paired_perm _).trans (hkept.symm.append hkept.symm)

/-- A rule leaves as many dice as it says, and no selection of so many dice comes to more where it
keeps high dice or drops low ones, or to less where it keeps low dice or drops high ones. Of equal
faces it chooses the earlier ones. Keeping the highest dice leaves the same faces as dropping all
others from the lowest, and a rule for twice the dice leaves, of all dice twice over, twice what it
left before. -/
theorem select_spec (rule : DropKeep) (faces : List Nat) :
    let kept := marked faces (rule.select faces)
    (rule.select faces).count true = rule.keptCount faces.length ∧
    (∀ marks : List Bool, marks.length = faces.length →
      marks.count true = rule.keptCount faces.length →
      match rule.choice, rule.extremity with
      | .keep, .highest | .drop, .lowest => (marked faces marks).sum ≤ kept.sum
      | .keep, .lowest | .drop, .highest => kept.sum ≤ (marked faces marks).sum) ∧
    (∀ i j, i < j → j < faces.length → faces[i]? = faces[j]? →
      (rule.select faces)[j]? = some (rule.choice == .keep) →
      (rule.select faces)[i]? = some (rule.choice == .keep)) ∧
    (∀ n ≤ faces.length,
      (marked faces (select ⟨.keep, .highest, n⟩ faces)).Perm
        (marked faces (select ⟨.drop, .lowest, faces.length - n⟩ faces))) ∧
    (rule.number * 2 ≤ maxCount →
      (marked (faces ++ faces) ((rule.scaled 2).select (faces ++ faces))).Perm (kept ++ kept)) := by
  intro kept
  refine ⟨count_select rule faces, fun marks length count => ?_, fun i j hij hj same chosen => ?_,
    fun n hn => ?_, fun h => marked_scaled_perm (.inl h)⟩
  · have hbefore := before_sum_marked rule length count
    obtain ⟨choice, e, n⟩ := rule
    cases choice <;> cases e <;> exact of_decide_eq_true hbefore
  · rw [getElem?_select_eq_iff rule hj] at chosen
    rw [getElem?_select_eq_iff rule (hij.trans hj)]
    exact rule.mem_chosen_of_earlier hij same chosen
  · have hcount : min n faces.length = faces.length - (faces.length - n) := by omega
    refine (marked_select_perm _ faces).trans ((marked_select_perm _ faces).trans ?_).symm
    exact .of_eq (congrArg (fun k => (ranked .highest faces).take k) hcount.symm)

/-- Keeping the highest two of 4, 1, 4 and 6 chooses the six and the first of the two fours. -/
theorem select_spec_tied :
    let rule : DropKeep := ⟨.keep, .highest, 2⟩
    let faces := [4, 1, 4, 6]
    rule.select faces = [true, false, false, true] ∧
      (marked faces [true, false, true, false]).sum ≤ (marked faces (rule.select faces)).sum ∧
      (marked faces (rule.select faces)).Perm (marked faces (select ⟨.drop, .lowest, 2⟩ faces)) ∧
      (marked (faces ++ faces) ((rule.scaled 2).select (faces ++ faces))).Perm [4, 6, 4, 6] := by
  intro rule faces
  have hselect : rule.select faces = [true, false, false, true] := by
    simp [rule, faces, select, chosen, order, before, List.zipIdx, List.mergeSort,
      List.MergeSort.Internal.splitInTwo, List.range, List.range.loop]
  obtain ⟨-, greatest, -, dropped, scaled⟩ := select_spec rule faces
  have hscaled := scaled (by decide)
  rw [hselect] at hscaled
  exact ⟨hselect, greatest _ rfl rfl, dropped 2 (by decide), hscaled⟩

end DropKeep

namespace PartRoll

open DropKeep

/-- The faces that a part's rule leaves. -/
theorem keptFaces_ofFaces (part : Part) (faces : List Nat) :
    (ofFaces part faces).keptFaces =
      match part.dropKeep with
      | some rule => marked faces (rule.select faces)
      | none => faces := by
  rw [keptFaces, ofFaces]
  cases part.dropKeep with
  | some rule =>
    dsimp only
    rw [marked, ← List.map_uncurry_zip_eq_zipWith, List.filter_map, List.map_map]
    rfl
  | none =>
    dsimp only
    rw [List.zipWith_map_right, List.zipWith_self, List.filter_map, List.map_map]
    simp [Function.comp_def]

/-- One die is left or not, whatever it shows. -/
theorem keptFaces_ofFaces_singleton {p : Part} (one : p.count = 1) (face : Nat) :
    (ofFaces p [face]).keptFaces = [face].take p.keptCount := by
  rw [keptFaces_ofFaces, Part.keptCount, one]
  cases p.dropKeep with
  | none => rfl
  | some rule =>
    dsimp only
    have hkept := marked_select_perm rule [face]
    rw [List.perm_singleton.mp (ranked_perm rule.keptEnd [face]), List.length_singleton] at hkept
    cases hcount : rule.keptCount 1 with
    | zero =>
      rw [hcount] at hkept
      exact hkept.eq_nil
    | succ k =>
      rw [hcount] at hkept
      rw [List.take_succ_cons, List.take_nil] at hkept ⊢
      exact List.perm_singleton.mp hkept

end PartRoll

end Tabletop
