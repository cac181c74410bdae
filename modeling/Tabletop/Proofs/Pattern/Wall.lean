import Tabletop.Proofs.Pattern.Reach

/-!
# Reading up to a wall

A wall is a character that no set of a pattern holds and that stands inside no word. What lies
behind it does not matter for the pattern: matches before the wall are the same as if the text
ended there, and no match reaches over it.
-/

namespace Tabletop

def Capture.onto (tail : Text) (c : Capture) : Capture := { c with text := c.text ++ tail }

def Spot.onto (tail : Text) (s : Spot) : Spot :=
  { s with rest := s.rest ++ tail, captures := s.captures.map (Capture.onto tail) }

/-- A match in a text that goes on with `tail`. -/
def Found.onto (tail : Text) (f : Found) : Found :=
  { f with captures := f.captures.map (Capture.onto tail) }

theorem Capture.content_onto {c : Capture} (h : c.length ≤ c.text.length) (tail : Text) :
    (c.onto tail).content = c.content :=
  List.take_append_of_le_length h

theorem Found.groupTexts_onto {f : Found} (h : ∀ c ∈ f.captures, c.length ≤ c.text.length)
    (tail : Text) (groups : Nat) : (f.onto tail).groupTexts groups = f.groupTexts groups := by
  have same (number : Nat) :
      ((f.captures.map (Capture.onto tail)).find? (·.group == number)).map Capture.content =
        (f.captures.find? (·.group == number)).map Capture.content := by
    rw [List.find?_map]
    change ((f.captures.find? (·.group == number)).map (Capture.onto tail)).map _ = _
    cases hc : f.captures.find? (·.group == number) with
    | none => rfl
    | some c =>
      have hfits := h c (List.mem_of_find?_eq_some hc)
      simp only [Option.map_some, Capture.content_onto hfits]
  simp only [groupTexts, onto, same]

namespace Pattern

def avoids : Pattern → Char → Bool
  | .one set, c => !set.has c
  | .many set _, c => !set.has c
  | .maybe p, c => avoids p c
  | .seq p q, c => avoids p c && avoids q c
  | .alt p q, c => avoids p c && avoids q c
  | .group _ p, c => avoids p c
  | _, _ => true

section

variable {wall : Char} {more : Text}

theorem sweep_onto {set : CharSet} (h : set.has wall = false) (text : Text) (least : Nat)
    (s : Spot) (nearer : List Spot) :
    set.sweep (text ++ wall :: more) least (s.onto (wall :: more))
        (nearer.map (Spot.onto (wall :: more))) =
      (set.sweep text least s nearer).map (Spot.onto (wall :: more)) := by
  induction text generalizing least s nearer with
  | nil => by_cases hl : least = 0 <;> simp [CharSet.sweep, h, hl]
  | cons c rest ih =>
    have reached :
        (if least = 0 then s.onto (wall :: more) :: nearer.map (Spot.onto (wall :: more))
          else nearer.map (Spot.onto (wall :: more))) =
        (if least = 0 then s :: nearer else nearer).map (Spot.onto (wall :: more)) := by
      split <;> rfl
    simp only [List.cons_append, CharSet.sweep, reached]
    split
    · exact ih (least - 1) (s.past c rest) _
    · rfl

/-- A pattern read in front of a wall reads nothing beyond it. -/
theorem runs_onto {p : Pattern} (h : p.avoids wall = true) (edge : isWordChar wall = false)
    (s : Spot) :
    p.runs (s.onto (wall :: more)) = (p.runs s).map (Spot.onto (wall :: more)) := by
  induction p generalizing s with
  | empty => rfl
  | one set =>
    simp only [avoids, Bool.not_eq_eq_eq_not, Bool.not_true] at h
    cases hs : s.rest with
    | nil => simp [runs, Spot.onto, hs, h]
    | cons c rest =>
      cases hc : set.has c <;> simp [runs, Spot.onto, Spot.past, hs, hc]
  | many set n =>
    simp only [avoids, Bool.not_eq_eq_eq_not, Bool.not_true] at h
    exact sweep_onto h s.rest n s []
  | maybe p ih => simp [runs, ih h]
  | seq p q ihp ihq =>
    simp only [avoids, Bool.and_eq_true] at h
    simp only [runs, ihp h.1, List.flatMap_map, List.map_flatMap, ihq h.2]
  | alt p q ihp ihq =>
    simp only [avoids, Bool.and_eq_true] at h
    simp [runs, ihp h.1, ihq h.2]
  | group number p ih =>
    simp only [runs, ih h, List.map_map]
    rfl
  | edge =>
    have hedge : atWordEdge s.before (s.rest ++ wall :: more).head? =
        atWordEdge s.before s.rest.head? := by
      cases s.rest with
      | nil => simp [atWordEdge, edge]
      | cons c rest => rfl
    simp only [runs, Spot.onto, hedge]
    split <;> rfl
  | start => by_cases hs : s.before.isNone <;> simp [runs, Spot.onto, hs]

theorem here?_onto {p : Pattern} (h : p.avoids wall = true) (edge : isWordChar wall = false)
    (before : Option Char) (text : Text) :
    p.here? before (text ++ wall :: more) =
      (p.here? before text).map (Spot.onto (wall :: more)) := by
  rw [here?, here?, ← List.head?_map, ← runs_onto h edge]
  rfl

/-- A match before the wall stays the first one. -/
theorem search_onto {p : Pattern} (h : p.avoids wall = true) (edge : isWordChar wall = false)
    {before : Option Char} {text : Text} {f : Found} (hf : p.search before text = some f) :
    p.search before (text ++ wall :: more) = some (f.onto (wall :: more)) := by
  induction text generalizing before f with
  | nil =>
    obtain ⟨s, hs, rfl⟩ := Option.map_eq_some_iff.mp hf
    have hhere : p.here? before ([] ++ wall :: more) = _ := here?_onto h edge before []
    rw [hs, List.nil_append] at hhere
    rw [List.nil_append, search, hhere]
    rfl
  | cons c rest ih =>
    have hhere : p.here? before (c :: rest ++ wall :: more) = _ :=
      here?_onto h edge before (c :: rest)
    simp only [search] at hf
    rw [List.cons_append] at hhere ⊢
    rw [search, hhere]
    split at hf
    · rename_i s hs
      cases hf
      rw [hs]
      rfl
    · rename_i hs
      obtain ⟨g, hg, rfl⟩ := Option.map_eq_some_iff.mp hf
      rw [hs, ih hg]
      rfl

/-- Without a match before the wall, the next one begins behind it. -/
theorem lt_skipped_of_search_onto {p : Pattern} (h : p.avoids wall = true)
    (edge : isWordChar wall = false) {before : Option Char} {text : Text}
    (hnone : p.search before text = none) {f : Found}
    (hf : p.search before (text ++ wall :: more) = some f) : text.length < f.skipped := by
  induction text generalizing before f with
  | nil =>
    have hhere : p.here? before ([] ++ wall :: more) = _ := here?_onto h edge before []
    rw [search, Option.map_eq_none_iff] at hnone
    rw [hnone, List.nil_append] at hhere
    rw [List.nil_append, search, hhere] at hf
    obtain ⟨g, -, rfl⟩ := Option.map_eq_some_iff.mp hf
    exact Nat.succ_pos _
  | cons c rest ih =>
    have hhere : p.here? before (c :: rest ++ wall :: more) = _ :=
      here?_onto h edge before (c :: rest)
    simp only [search] at hnone
    rw [List.cons_append] at hhere hf
    rw [search, hhere] at hf
    split at hnone
    · simp at hnone
    · rename_i hs
      rw [hs] at hf
      obtain ⟨g, hg, rfl⟩ := Option.map_eq_some_iff.mp hf
      have := ih (Option.map_eq_none_iff.mp hnone) hg
      simp only [Found.later, List.length_cons]
      omega

end

end Pattern

end Tabletop
