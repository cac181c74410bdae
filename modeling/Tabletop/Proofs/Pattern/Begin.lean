import Tabletop.Proofs.Pattern.Reach

/-!
# Which characters begin a match

From a pattern alone one can tell characters that no match of it begins with. Where such a
character is next, a solid pattern does not match.
-/

namespace Tabletop

namespace Pattern

/-- Whether a match that has a character can begin with a given one. -/
def begins : Pattern → Char → Bool
  | .one set, c => set.has c
  | .many set _, c => set.has c
  | .maybe p, c => begins p c
  | .seq p q, c => begins p c || (p.least == 0 && begins q c)
  | .alt p q, c => begins p c || begins q c
  | .group _ p, c => begins p c
  | _, _ => false

theorem sweep_eq_nil {set : CharSet} {c : Char} (hc : set.has c = false) (rest : Text)
    {least : Nat} (s : Spot) :
    set.sweep (c :: rest) least s [] = if least = 0 then [s] else [] := by
  simp [CharSet.sweep, hc]

/-- A reading that has used something began with a character that can begin a match. -/
theorem begins_of_mem_runs {p : Pattern} {s t : Spot} (h : t ∈ p.runs s)
    (hused : s.used < t.used) {c : Char} {rest : Text} (hs : s.rest = c :: rest) :
    p.begins c = true := by
  induction p generalizing s t with
  | empty | edge | start => grind [runs]
  | one set =>
    simp only [runs, hs] at h
    split at h
    · assumption
    · simp at h
  | many set n =>
    cases hset : set.has c with
    | true => exact hset
    | false =>
      simp only [runs, hs, sweep_eq_nil hset] at h
      split at h
      · rw [List.mem_singleton.mp h] at hused
        omega
      · simp at h
  | maybe p ih =>
    simp only [runs, List.mem_append, List.mem_singleton] at h
    rcases h with h | rfl
    · exact ih h hused hs
    · omega
  | seq p q ihp ihq =>
    simp only [runs, List.mem_flatMap] at h
    obtain ⟨u, hu, ht⟩ := h
    simp only [begins, Bool.or_eq_true, Bool.and_eq_true, beq_iff_eq]
    obtain ⟨hreach, hleast⟩ := reaches_of_mem_runs hu
    by_cases hlt : s.used < u.used
    · exact .inl (ihp hu hlt hs)
    · obtain ⟨word, hword, hlen⟩ := hreach.used
      have hnil : word = [] := List.length_eq_zero_iff.mp (by omega)
      rw [hnil, List.nil_append] at hword
      exact .inr ⟨by omega, ihq ht (by omega) (hword ▸ hs)⟩
  | alt p q ihp ihq =>
    simp only [runs, List.mem_append] at h
    simp only [begins, Bool.or_eq_true]
    cases h with
    | inl h => exact .inl (ihp h hused hs)
    | inr h => exact .inr (ihq h hused hs)
  | group number p ih =>
    simp only [runs, List.mem_map] at h
    obtain ⟨u, hu, rfl⟩ := h
    exact ih hu hused hs

/-- A solid pattern cannot be read at the end of the text, nor where the next character begins no
match of it. -/
theorem runs_eq_nil {p : Pattern} (solid : p.isSolid = true) {s : Spot}
    (h : ∀ c ∈ s.rest.head?, p.begins c = false) : p.runs s = [] := by
  rw [List.eq_nil_iff_forall_not_mem]
  intro t ht
  obtain ⟨hreach, hleast⟩ := reaches_of_mem_runs ht
  have hlength := hreach.used_add_length
  simp only [isSolid, decide_eq_true_eq] at solid
  cases hs : s.rest with
  | nil =>
    rw [hs, List.length_nil] at hlength
    omega
  | cons c rest =>
    have hc := h c (by rw [hs]; rfl)
    rw [begins_of_mem_runs ht (by omega) hs] at hc
    exact absurd hc (by decide)

theorem here?_eq_none {p : Pattern} (solid : p.isSolid = true) {before : Option Char} {text : Text}
    (h : ∀ c ∈ text.head?, p.begins c = false) : p.here? before text = none := by
  rw [here?, runs_eq_nil solid h]
  rfl

/-- A solid pattern is not found in a text without a character that begins a match of it. -/
theorem search_eq_none {p : Pattern} (solid : p.isSolid = true) {before : Option Char} {text : Text}
    (h : ∀ c ∈ text, p.begins c = false) : p.search before text = none := by
  induction text generalizing before with
  | nil => rw [search, here?_eq_none solid (by simp), Option.map_none]
  | cons c rest ih =>
    obtain ⟨hc, hrest⟩ := List.forall_mem_cons.mp h
    have hhere : p.here? before (c :: rest) = none := here?_eq_none solid (by simpa using hc)
    simp only [search, hhere, ih hrest, Option.map_none]

end Pattern

end Tabletop
