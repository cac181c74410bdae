import Mathlib.Data.List.TakeWhile
import Tabletop.Text.Basic

/-!
# Blanks and digits

Both classes of characters are finite, so a property of all blanks or of all ASCII digits can be
checked one by one. A text of blanks has no words, and nothing is left of it when it is trimmed.
-/

namespace Tabletop

namespace Ranges

def members (ranges : Ranges) : List Nat :=
  ranges.flatMap fun range => List.range' range.1 (range.2 + 1 - range.1)

theorem mem_members_of_has {ranges : Ranges} {n : Nat} (h : ranges.has n = true) :
    n ∈ ranges.members := by
  obtain ⟨range, hrange, hlow, hhigh⟩ := exists_of_has h
  exact List.mem_flatMap.mpr ⟨range, hrange, List.mem_range'_1.mpr ⟨hlow, by omega⟩⟩

end Ranges

/-- What holds of each listed blank holds of all blanks. -/
theorem forall_isBlank (holds : Char → Bool)
    (h : (blankRanges.members.all fun n => holds (Char.ofNat n)) = true) {c : Char}
    (hc : isBlank c = true) : holds c = true := by
  have := List.all_eq_true.mp h _ (Ranges.mem_members_of_has hc)
  rwa [Char.ofNat_toNat] at this

/-- What holds of each ASCII digit holds of all characters that are one. -/
theorem forall_digit (holds : Char → Bool)
    (h : ((List.range' 0x30 10).all fun n => holds (Char.ofNat n)) = true) {c : Char}
    (hc : c.isDigit = true) : holds c = true := by
  simp only [Char.isDigit, ge_iff_le, UInt32.le_iff_toNat_le, Bool.and_eq_true,
    decide_eq_true_eq] at hc
  have low : 0x30 ≤ c.toNat := by rw [← Char.toNat_val]; exact hc.1
  have high : c.toNat ≤ 0x39 := by rw [← Char.toNat_val]; exact hc.2
  have := List.all_eq_true.mp h c.toNat (List.mem_range'_1.mpr ⟨low, by omega⟩)
  rwa [Char.ofNat_toNat] at this

theorem isBlank_of_digit {c : Char} (hc : c.isDigit = true) : isBlank c = false := by
  simpa using forall_digit (fun c => !isBlank c) (by decide) hc

namespace Text

theorem trimStart_eq_nil_iff {s : Text} : s.trimStart = [] ↔ ∀ c ∈ s, isBlank c = true :=
  List.dropWhile_eq_nil_iff

theorem trim_eq_nil_iff {s : Text} : s.trim = [] ↔ ∀ c ∈ s, isBlank c = true := by
  rw [trim, List.reverse_eq_nil_iff, List.dropWhile_eq_nil_iff]
  constructor
  · intro h c hc
    rw [← List.takeWhile_append_dropWhile (p := isBlank) (l := s), List.mem_append] at hc
    cases hc with
    | inl hc => exact List.mem_takeWhile_imp hc
    | inr hc => exact h c (List.mem_reverse.mpr hc)
  · intro h
    rw [trimStart_eq_nil_iff.mpr h]
    simp

/-- Trimming takes away what is blank at either end and nothing more. -/
theorem trim_between {blanks s blanks' : Text} (hblanks : ∀ c ∈ blanks, isBlank c = true)
    (first : ∀ c ∈ s.head?, isBlank c = false) (last : ∀ c ∈ s.getLast?, isBlank c = false)
    (hblanks' : ∀ c ∈ blanks', isBlank c = true) : trim (blanks ++ s ++ blanks') = s := by
  have stays (s : Text) (h : ∀ c ∈ s.head?, isBlank c = false) : s.dropWhile isBlank = s := by
    cases s with
    | nil => rfl
    | cons c s => exact List.dropWhile_cons_of_neg (by simp [h c rfl])
  rw [trim, trimStart, List.append_assoc, List.dropWhile_append_of_pos hblanks]
  cases s with
  | nil => simp [List.dropWhile_eq_nil_iff.mpr hblanks']
  | cons c s =>
    have hreverse : ∀ c ∈ blanks'.reverse, isBlank c = true := by simpa using hblanks'
    rw [stays (c :: s ++ blanks') first, List.reverse_append,
      List.dropWhile_append_of_pos hreverse, stays _ (List.head?_reverse ▸ last),
      List.reverse_reverse]

theorem trim_eq_self {s : Text} (h : ∀ c ∈ s, isBlank c = false) : s.trim = s := by
  have hbetween : trim ([] ++ s ++ []) = s :=
    trim_between (by simp) (fun c hc => h c (List.mem_of_mem_head? hc))
      (fun c hc => h c (List.mem_of_getLast? hc)) (by simp)
  simpa using hbetween

/-- Only blanks are trimmed away. -/
theorem mem_trimStart {s : Text} {c : Char} (h : c ∈ s) (hc : isBlank c = false) :
    c ∈ s.trimStart := by
  rw [← List.takeWhile_append_dropWhile (p := isBlank) (l := s), List.mem_append] at h
  refine h.resolve_left fun h => ?_
  rw [List.mem_takeWhile_imp h] at hc
  exact absurd hc (by decide)

theorem mem_trim {s : Text} {c : Char} (h : c ∈ s) (hc : isBlank c = false) : c ∈ s.trim := by
  rw [trim, List.mem_reverse]
  exact mem_trimStart (List.mem_reverse.mpr (mem_trimStart h hc)) hc

theorem words_eq_nil {s : Text} (h : ∀ c ∈ s, isBlank c = true) : s.words = [] := by
  rw [words, List.filter_eq_nil_iff]
  induction s with
  | nil => simp
  | cons c rest ih =>
    obtain ⟨hc, hrest⟩ := List.forall_mem_cons.mp h
    rw [List.splitOnP_cons_eq_if_modifyHead, if_pos hc]
    exact List.forall_mem_cons.mpr ⟨by simp, ih hrest⟩

theorem squeeze_eq_nil {s : Text} (h : ∀ c ∈ s, isBlank c = true) : s.squeeze = [] := by
  rw [squeeze, words_eq_nil h]
  rfl

end Text

end Tabletop
