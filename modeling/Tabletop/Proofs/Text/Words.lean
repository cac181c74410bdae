import Tabletop.Proofs.Text.Blank

/-!
# Words of a text

A text is cut into words at its blanks. What is put together from the words again has single spaces
between them, and all that the text shows: the same characters in the same order, leaving blanks
aside.
-/

namespace Tabletop

/-- Cutting a list at some of its items loses those and nothing else. -/
theorem flatten_splitOnP {α : Type} (p : α → Bool) (items : List α) :
    (items.splitOnP p).flatten = items.filter fun a => !p a := by
  induction items with
  | nil => rfl
  | cons a rest ih =>
    rw [List.splitOnP_cons_eq_if_modifyHead]
    cases ha : p a with
    | true => simpa [ha] using ih
    | false =>
      obtain ⟨run, runs, hruns⟩ := List.exists_cons_of_ne_nil (List.splitOnP_ne_nil p rest)
      rw [hruns] at ih ⊢
      simpa [ha] using ih

namespace Text

variable {s : Text}

theorem isBlank_of_mem_splitOnP {piece : Text} (h : piece ∈ s.splitOnP isBlank) :
    ∀ c ∈ piece, isBlank c = false := by
  induction s generalizing piece with
  | nil =>
    obtain rfl : piece = [] := by simpa using h
    simp
  | cons first rest ih =>
    rw [List.splitOnP_cons_eq_if_modifyHead] at h
    split at h
    · rcases List.mem_cons.mp h with rfl | h
      · simp
      · exact ih h
    · next hfirst =>
      obtain ⟨head, tail, hsplit⟩ := List.exists_cons_of_ne_nil (List.splitOnP_ne_nil isBlank rest)
      rw [hsplit] at ih h
      rw [List.modifyHead_cons] at h
      rcases List.mem_cons.mp h with rfl | h
      · exact List.forall_mem_cons.mpr ⟨Bool.eq_false_iff.mpr hfirst, ih List.mem_cons_self⟩
      · exact ih (List.mem_cons_of_mem _ h)

theorem isBlank_of_mem_words {word : Text} (h : word ∈ s.words) : ∀ c ∈ word, isBlank c = false :=
  isBlank_of_mem_splitOnP (List.mem_filter.mp h).1

/-- The text is some words with one space between each two neighbours, and none at either end. -/
def IsSpaced (s : Text) : Prop :=
  ∃ words : List Text, (∀ word ∈ words, word ≠ [] ∧ ∀ c ∈ word, isBlank c = false) ∧
    s = join [' '] words

theorem isSpaced_squeeze (s : Text) : s.squeeze.IsSpaced :=
  ⟨s.words, fun _ h => ⟨ne_nil_of_mem_words h, isBlank_of_mem_words h⟩, rfl⟩

/-- What the text shows: its characters without the blanks. -/
def ink (s : Text) : Text := s.filter fun c => !isBlank c

@[simp] theorem ink_append (s t : Text) : ink (s ++ t) = s.ink ++ t.ink := List.filter_append ..

theorem ink_flatMap {α : Type} (f : α → Text) (items : List α) :
    ink (items.flatMap f) = items.flatMap fun item => (f item).ink := by
  induction items with
  | nil => rfl
  | cons item rest ih => simp [ih]

theorem ink_eq_nil_iff : s.ink = [] ↔ ∀ c ∈ s, isBlank c = true := by
  simp [ink, List.filter_eq_nil_iff]

/-- A blank between two pieces does not show. -/
theorem ink_join {separator : Text} (blank : separator.ink = []) (pieces : List Text) :
    (join separator pieces).ink = ink pieces.flatten := by
  cases pieces with
  | nil => rfl
  | cons first rest =>
    have hrest : ink (rest.flatMap (separator ++ ·)) = ink rest.flatten := by
      rw [ink_flatMap, ← List.flatMap_id', ink_flatMap]
      simp only [ink_append, blank, List.nil_append]
    rw [join_eq_append_flatMap, ink_append, hrest, List.flatten_cons, ink_append]

/-- Putting the words of a text together again loses nothing that the text shows. -/
@[simp] theorem ink_squeeze (s : Text) : s.squeeze.ink = s.ink := by
  have hwords : s.words.flatten = s.ink := by
    rw [words, List.flatten_filter_not_isEmpty, flatten_splitOnP, ink]
  rw [squeeze, ink_join (by decide), hwords, ink, ink, List.filter_filter]
  simp

end Text

end Tabletop
