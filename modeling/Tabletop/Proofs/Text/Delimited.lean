import Tabletop.Number

/-!
# Delimited forms

Where written forms stand one behind the other, the text has to tell where each of them ends. A way
to write something is delimited by what may stand behind it if the text from there on tells what was
written and what stands behind it. Delimited ways to write put together are delimited again.
-/

namespace Tabletop

namespace Text

/-- The text from a written form on tells what was written and what stands behind it, if that is
something that may stand there. -/
def Delimited {α : Type} (write : α → Text) (ends : Text → Prop) : Prop :=
  ∀ ⦃a b : α⦄ ⦃rest rest' : Text⦄, ends rest → ends rest' → write a ++ rest = write b ++ rest' →
    a = b ∧ rest = rest'

variable {α : Type} {write : α → Text} {ends ends' : Text → Prop}

/-- Where the first character of another kind stands, what stands before it ends. -/
theorem append_inj_of_stop {inside : Char → Bool} {s t rest rest' : Text}
    (hs : ∀ c ∈ s, inside c = true) (ht : ∀ c ∈ t, inside c = true)
    (hrest : ∀ c ∈ rest.head?, ¬ inside c = true) (hrest' : ∀ c ∈ rest'.head?, ¬ inside c = true)
    (h : s ++ rest = t ++ rest') : s = t ∧ rest = rest' := by
  have front {s rest : Text} (hs : ∀ c ∈ s, inside c = true)
      (hrest : ∀ c ∈ rest.head?, ¬ inside c = true) : (s ++ rest).takeWhile inside = s := by
    have hnone : rest.takeWhile inside = [] := by
      cases rest with
      | nil => rfl
      | cons c rest => exact List.takeWhile_cons_of_neg (hrest c rfl)
    rw [List.takeWhile_append_of_pos hs, hnone, List.append_nil]
  obtain rfl : s = t := by rw [← front hs hrest, h, front ht hrest']
  exact ⟨rfl, List.append_cancel_left h⟩

/-- A number ends where no digit follows. -/
theorem delimited_ofNat : Delimited Decimal.ofNat fun rest => ∀ c ∈ rest.head?, ¬ c.isDigit := by
  intro m n rest rest' hrest hrest' h
  have digits (n : Nat) : ∀ c ∈ Decimal.ofNat n, c.isDigit = true :=
    fun _ hc => Decimal.isDigit_of_mem_ofNat hc
  obtain ⟨hsame, hrests⟩ := append_inj_of_stop (digits m) (digits n) hrest hrest' h
  exact ⟨Decimal.ofNat_injective hsame, hrests⟩

/-- A text that is delimited stays so with a fixed text in front of it. -/
theorem Delimited.behind (h : Delimited write ends) (front : Text) :
    Delimited (fun a => front ++ write a) ends := by
  intro a b rest rest' hrest hrest' hsame
  rw [List.append_assoc, List.append_assoc] at hsame
  exact h hrest hrest' (List.append_cancel_left hsame)

/-- What can be left out is delimited where nothing that follows opens like it. -/
theorem Delimited.optional (h : Delimited write ends) (weaker : ∀ rest, ends' rest → ends rest)
    (opens : ∀ a rest, ¬ ends' (write a ++ rest)) :
    Delimited (fun a : Option α => (a.map write).getD []) ends' := by
  intro a b rest rest' hrest hrest' hsame
  cases a with
  | none =>
    cases b with
    | none => exact ⟨rfl, hsame⟩
    | some b =>
      obtain rfl : rest = write b ++ rest' := hsame
      exact absurd hrest (opens b rest')
  | some a =>
    cases b with
    | none =>
      obtain rfl : write a ++ rest = rest' := hsame
      exact absurd hrest' (opens a rest)
    | some b =>
      obtain ⟨rfl, hrests⟩ := h (weaker rest hrest) (weaker rest' hrest') hsame
      exact ⟨rfl, hrests⟩

/-- A row is delimited where nothing that follows opens like one more of it. -/
theorem Delimited.row (h : Delimited write ends) (weaker : ∀ rest, ends' rest → ends rest)
    (more : ∀ a rest, ends (write a ++ rest)) (opens : ∀ a rest, ¬ ends' (write a ++ rest)) :
    Delimited (fun items : List α => items.flatMap write) ends' := by
  have inside (items : List α) {rest : Text} (hrest : ends' rest) :
      ends (items.flatMap write ++ rest) := by
    cases items with
    | nil => exact weaker rest hrest
    | cons a items =>
      rw [List.flatMap_cons, List.append_assoc]
      exact more a _
  intro items items' rest rest' hrest hrest' hsame
  change items.flatMap write ++ rest = items'.flatMap write ++ rest' at hsame
  induction items generalizing items' with
  | nil =>
    cases items' with
    | nil => exact ⟨rfl, hsame⟩
    | cons b items' =>
      rw [List.flatMap_nil, List.nil_append, List.flatMap_cons, List.append_assoc] at hsame
      exact absurd (hsame ▸ hrest) (opens b _)
  | cons a items ih =>
    cases items' with
    | nil =>
      rw [List.flatMap_nil, List.nil_append, List.flatMap_cons, List.append_assoc] at hsame
      exact absurd (hsame ▸ hrest') (opens a _)
    | cons b items' =>
      rw [List.flatMap_cons, List.flatMap_cons, List.append_assoc, List.append_assoc] at hsame
      obtain ⟨rfl, hlater⟩ := h (inside items hrest) (inside items' hrest') hsame
      obtain ⟨rfl, hrests⟩ := ih hlater
      exact ⟨rfl, hrests⟩

/-- Pieces with a separator between them are delimited where what follows opens neither like the
separator nor like a piece. -/
theorem Delimited.join {separator : Text} (h : Delimited write ends)
    (weaker : ∀ rest, ends' rest → ends rest) (more : ∀ rest, ends (separator ++ rest))
    (apart : ∀ rest, ¬ ends' (separator ++ rest)) (opens : ∀ a rest, ¬ ends' (write a ++ rest)) :
    Delimited (fun items : List α => join separator (items.map write)) ends' := by
  have later :
      Delimited (fun items : List α => items.flatMap fun a => separator ++ write a) ends' :=
    (h.behind separator).row weaker (fun a rest => by simpa using more (write a ++ rest))
      fun a rest => by simpa using apart (write a ++ rest)
  have first (a : α) (items : List α) : Text.join separator ((a :: items).map write) =
      write a ++ items.flatMap fun a => separator ++ write a := by
    rw [List.map_cons, join_eq_append_flatMap, List.flatMap_map]
  have inside (items : List α) {rest : Text} (hrest : ends' rest) :
      ends ((items.flatMap fun a => separator ++ write a) ++ rest) := by
    cases items with
    | nil => exact weaker rest hrest
    | cons a items =>
      rw [List.flatMap_cons, List.append_assoc, List.append_assoc]
      exact more _
  intro items items' rest rest' hrest hrest' hsame
  change Text.join separator (items.map write) ++ rest =
    Text.join separator (items'.map write) ++ rest' at hsame
  cases items with
  | nil =>
    cases items' with
    | nil => exact ⟨rfl, hsame⟩
    | cons b items' =>
      obtain rfl : rest = Text.join separator ((b :: items').map write) ++ rest' := hsame
      rw [first, List.append_assoc] at hrest
      exact absurd hrest (opens b _)
  | cons a items =>
    cases items' with
    | nil =>
      obtain rfl : Text.join separator ((a :: items).map write) ++ rest = rest' := hsame
      rw [first, List.append_assoc] at hrest'
      exact absurd hrest' (opens a _)
    | cons b items' =>
      rw [first, first, List.append_assoc, List.append_assoc] at hsame
      obtain ⟨rfl, hlater⟩ := h (inside items hrest) (inside items' hrest') hsame
      obtain ⟨rfl, hrests⟩ := later hrest hrest' hlater
      exact ⟨rfl, hrests⟩

end Text

end Tabletop
