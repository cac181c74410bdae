import Tabletop.Pattern.Basic

/-!
# Where the reading of a pattern ends

A reading goes forward through the text and remembers only parts of it. How many characters a
pattern uses at least, and whether it never uses any, can be seen from the pattern alone. A
pattern of which neither is known can match nothing at one spot and something at another; the
patterns of token rules are not of that kind.
-/

namespace Tabletop

/-- A reading that stands at `s` can come to `t`: some text was used in between, and every
capture made there lies within the text. -/
structure Spot.Reaches (s t : Spot) : Prop where
  used : ∃ word, s.rest = word ++ t.rest ∧ t.used = s.used + word.length
  captures : ∃ made, t.captures = made ++ s.captures ∧ ∀ c ∈ made, c.length ≤ c.text.length

namespace Spot.Reaches

theorem refl (s : Spot) : s.Reaches s := ⟨⟨[], by simp⟩, ⟨[], by simp⟩⟩

theorem trans {s t u : Spot} (h : s.Reaches t) (h' : t.Reaches u) : s.Reaches u := by
  obtain ⟨⟨word, hrest, hused⟩, made, hmade, hfits⟩ := h
  obtain ⟨⟨word', hrest', hused'⟩, made', hmade', hfits'⟩ := h'
  refine ⟨⟨word ++ word', ?_, ?_⟩, made' ++ made, ?_, ?_⟩
  · rw [hrest, hrest', List.append_assoc]
  · rw [hused', hused, List.length_append]; omega
  · rw [hmade', hmade, List.append_assoc]
  · exact List.forall_mem_append.mpr ⟨hfits', hfits⟩

theorem past {s : Spot} {c : Char} {rest : Text} (h : s.rest = c :: rest) :
    s.Reaches (s.past c rest) :=
  ⟨⟨[c], by simp [Spot.past, h]⟩, ⟨[], by simp [Spot.past]⟩⟩

theorem capture {s t : Spot} (h : s.Reaches t) (number : Nat) :
    s.Reaches (Spot.capture number s t) := by
  obtain ⟨⟨word, hrest, hused⟩, made, hmade, hfits⟩ := h
  refine ⟨⟨word, hrest, hused⟩, ⟨⟨number, s.rest, t.used - s.used⟩ :: made, ?_, ?_⟩⟩
  · simp [Spot.capture, hmade]
  · refine List.forall_mem_cons.mpr ⟨?_, hfits⟩
    simp only [hrest, hused, List.length_append]
    omega

theorem used_le {s t : Spot} (h : s.Reaches t) : s.used ≤ t.used := by
  obtain ⟨word, -, hused⟩ := h.used
  omega

theorem used_add_length {s t : Spot} (h : s.Reaches t) :
    t.used + t.rest.length = s.used + s.rest.length := by
  obtain ⟨word, hrest, hused⟩ := h.used
  rw [hused, hrest, List.length_append]; omega

end Spot.Reaches

/-- What a sweep over the text ahead adds: spots behind at least `least` more members of the
set. -/
theorem CharSet.mem_sweep {set : CharSet} {text : Text} {least : Nat} {s t : Spot}
    {nearer : List Spot} (hs : s.rest = text) (ht : t ∈ set.sweep text least s nearer) :
    t ∈ nearer ∨ s.Reaches t ∧ s.used + least ≤ t.used ∧
      ∃ word, text = word ++ t.rest ∧ ∀ c ∈ word, set.has c = true := by
  induction text generalizing least s nearer with
  | nil =>
    by_cases h : least = 0
    · simp only [sweep, h, ↓reduceIte, List.mem_cons] at ht
      rcases ht with rfl | ht
      · exact .inr ⟨.refl t, by omega, [], hs.symm, by simp⟩
      · exact .inl ht
    · simp only [sweep, h, ↓reduceIte] at ht
      exact .inl ht
  | cons c rest ih =>
    have reached (h : t ∈ if least = 0 then s :: nearer else nearer) :
        t ∈ nearer ∨ s.Reaches t ∧ s.used + least ≤ t.used ∧
          ∃ word, c :: rest = word ++ t.rest ∧ ∀ c ∈ word, set.has c = true := by
      split at h
      · rcases List.mem_cons.mp h with rfl | h
        · exact .inr ⟨.refl t, by omega, [], hs.symm, by simp⟩
        · exact .inl h
      · exact .inl h
    simp only [sweep] at ht
    split at ht
    · rename_i hc
      rcases ih rfl ht with h | ⟨hr, hl, word, hword, hmembers⟩
      · exact reached h
      · refine .inr ⟨(Spot.Reaches.past hs).trans hr, ?_, c :: word, ?_, ?_⟩
        · simp only [Spot.past] at hl
          omega
        · rw [hword, List.cons_append]
        · exact List.forall_mem_cons.mpr ⟨hc, hmembers⟩
    · exact reached ht

namespace Pattern

/-- The fewest characters that a match can have. -/
def least : Pattern → Nat
  | .one _ => 1
  | .many _ n => n
  | .seq p q => least p + least q
  | .alt p q => min (least p) (least q)
  | .group _ p => least p
  | _ => 0

def isHollow : Pattern → Bool
  | .empty | .edge | .start => true
  | .one _ | .many _ _ => false
  | .maybe p => isHollow p
  | .seq p q => isHollow p && isHollow q
  | .alt p q => isHollow p && isHollow q
  | .group _ p => isHollow p

def isSolid (p : Pattern) : Bool := 0 < p.least

/-- Either every match has a character or none has. -/
def isUniform (p : Pattern) : Bool := p.isSolid || p.isHollow

/-- A reading goes forward by at least as much as the pattern needs. -/
theorem reaches_of_mem_runs {p : Pattern} {s t : Spot} (h : t ∈ p.runs s) :
    s.Reaches t ∧ s.used + p.least ≤ t.used := by
  induction p generalizing s t with
  | empty =>
    simp only [runs, List.mem_singleton] at h
    subst h
    exact ⟨.refl t, Nat.le_refl _⟩
  | one set =>
    simp only [runs] at h
    split at h
    · simp at h
    · rename_i c rest hrest
      split at h
      · rw [List.mem_singleton.mp h]
        exact ⟨.past hrest, Nat.le_refl _⟩
      · simp at h
  | many set n =>
    simp only [runs] at h
    obtain ⟨hreach, hused, -⟩ := (CharSet.mem_sweep rfl h).resolve_left (by simp)
    exact ⟨hreach, hused⟩
  | maybe p ih =>
    simp only [runs, List.mem_append, List.mem_singleton] at h
    rcases h with h | rfl
    · exact ⟨(ih h).1, (ih h).1.used_le⟩
    · exact ⟨.refl t, Nat.le_refl _⟩
  | seq p q ihp ihq =>
    simp only [runs, List.mem_flatMap] at h
    obtain ⟨u, hu, ht⟩ := h
    have hp := ihp hu
    have hq := ihq ht
    exact ⟨hp.1.trans hq.1, by simp only [least]; omega⟩
  | alt p q ihp ihq =>
    simp only [runs, List.mem_append] at h
    cases h with
    | inl h => exact ⟨(ihp h).1, by have := (ihp h).2; simp only [least]; omega⟩
    | inr h => exact ⟨(ihq h).1, by have := (ihq h).2; simp only [least]; omega⟩
  | group number p ih =>
    simp only [runs, List.mem_map] at h
    obtain ⟨u, hu, rfl⟩ := h
    exact ⟨(ih hu).1.capture number, (ih hu).2⟩
  | edge =>
    simp only [runs] at h
    split at h
    · rw [List.mem_singleton.mp h]
      exact ⟨.refl s, Nat.le_refl _⟩
    · simp at h
  | start =>
    simp only [runs] at h
    split at h
    · rw [List.mem_singleton.mp h]
      exact ⟨.refl s, Nat.le_refl _⟩
    · simp at h

/-- A hollow pattern is read without using anything. -/
theorem used_of_isHollow {p : Pattern} (hollow : p.isHollow = true) {s t : Spot}
    (h : t ∈ p.runs s) : t.used = s.used := by
  induction p generalizing s t with
  | empty | edge | start => grind [runs]
  | one set => simp [isHollow] at hollow
  | many set n => simp [isHollow] at hollow
  | maybe p ih =>
    simp only [runs, List.mem_append, List.mem_singleton] at h
    rcases h with h | rfl
    · exact ih hollow h
    · rfl
  | seq p q ihp ihq =>
    simp only [isHollow, Bool.and_eq_true] at hollow
    simp only [runs, List.mem_flatMap] at h
    obtain ⟨u, hu, ht⟩ := h
    rw [ihq hollow.2 ht, ihp hollow.1 hu]
  | alt p q ihp ihq =>
    simp only [isHollow, Bool.and_eq_true] at hollow
    simp only [runs, List.mem_append] at h
    cases h with
    | inl h => exact ihp hollow.1 h
    | inr h => exact ihq hollow.2 h
  | group number p ih =>
    simp only [runs, List.mem_map] at h
    obtain ⟨u, hu, rfl⟩ := h
    change u.used = s.used
    exact ih hollow hu

/-- A match found right here has as many characters as the pattern needs, and no more than
there are. -/
theorem used_of_here? {p : Pattern} {before : Option Char} {text : Text} {s : Spot}
    (h : p.here? before text = some s) : p.least ≤ s.used ∧ s.used ≤ text.length := by
  have hs := reaches_of_mem_runs (List.mem_of_mem_head? h)
  have hlen := hs.1.used_add_length
  simp only [Spot.ofText] at hs hlen
  omega

theorem used_eq_zero_of_here? {p : Pattern} (hollow : p.isHollow = true) {before : Option Char}
    {text : Text} {s : Spot} (h : p.here? before text = some s) : s.used = 0 :=
  used_of_isHollow hollow (List.mem_of_mem_head? h)

/-- A match found by a search is a match right at the place where it begins. -/
theorem exists_here?_of_search {p : Pattern} {before : Option Char} {text : Text} {f : Found}
    (h : p.search before text = some f) :
    f.skipped ≤ text.length ∧ ∃ before' s, p.here? before' (text.drop f.skipped) = some s ∧
      f = { Found.atOnce s with skipped := f.skipped } := by
  induction text generalizing before f with
  | nil =>
    simp only [search, Option.map_eq_some_iff] at h
    obtain ⟨s, hs, rfl⟩ := h
    exact ⟨Nat.le_refl _, before, s, hs, rfl⟩
  | cons c rest ih =>
    simp only [search] at h
    split at h
    · rename_i s hs
      cases h
      exact ⟨Nat.zero_le _, before, s, hs, rfl⟩
    · obtain ⟨g, hg, rfl⟩ := Option.map_eq_some_iff.mp h
      obtain ⟨hle, before', s, hs, hf⟩ := ih hg
      refine ⟨Nat.succ_le_succ hle, before', s, hs, ?_⟩
      rw [hf]
      rfl

/-- A match found further on lies within the text, and so does what it captured. -/
theorem bounds_of_search {p : Pattern} {before : Option Char} {text : Text} {f : Found}
    (h : p.search before text = some f) :
    p.least ≤ f.length ∧ f.skipped + f.length ≤ text.length ∧
      ∀ c ∈ f.captures, c.length ≤ c.text.length := by
  obtain ⟨hle, before', s, hs, hf⟩ := exists_here?_of_search h
  obtain ⟨hleast, hused⟩ := used_of_here? hs
  obtain ⟨made, hmade, hfits⟩ := (reaches_of_mem_runs (List.mem_of_mem_head? hs)).1.captures
  rw [List.length_drop] at hused
  have hlength : f.length = s.used := by rw [hf]; rfl
  have hcaptures : f.captures = made := by
    rw [hf]
    simpa [Spot.ofText, Found.atOnce] using hmade
  exact ⟨by omega, by omega, hcaptures ▸ hfits⟩

theorem length_eq_zero_of_search {p : Pattern} (hollow : p.isHollow = true)
    {before : Option Char} {text : Text} {f : Found} (h : p.search before text = some f) :
    f.length = 0 := by
  obtain ⟨-, before', s, hs, hf⟩ := exists_here?_of_search h
  rw [hf]
  exact used_eq_zero_of_here? hollow hs

end Pattern

end Tabletop
