import Mathlib.Data.List.Forall2
import Tabletop.Proofs.Pattern.Takes

/-!
# What a pattern says

Leaving aside where a word stands, a pattern describes a set of words, and for each of them what
its groups hold. Every reading of the pattern is one of these words. A pattern with alternatives
describes what its choices describe together.
-/

namespace Tabletop

namespace Pattern

/-- The pattern describes a word, and its groups hold what is said, the latest group first. -/
def Says : Pattern → Text → List (Nat × Text) → Prop
  | .empty, word, said => word = [] ∧ said = []
  | .one set, word, said => (∃ c, word = [c] ∧ set.has c = true) ∧ said = []
  | .many set least, word, said =>
    least ≤ word.length ∧ (∀ c ∈ word, set.has c = true) ∧ said = []
  | .maybe p, word, said => Says p word said ∨ word = [] ∧ said = []
  | .seq p q, word, said =>
    ∃ u v a b, word = u ++ v ∧ said = b ++ a ∧ Says p u a ∧ Says q v b
  | .alt p q, word, said => Says p word said ∨ Says q word said
  | .group number p, word, said => ∃ inner, said = (number, word) :: inner ∧ Says p word inner
  | .edge, word, said => word = [] ∧ said = []
  | .start, word, said => word = [] ∧ said = []

/-- A sweep adds the spots behind `least` or more members of the set. -/
theorem mem_sweep_iff {set : CharSet} {text : Text} {least : Nat} {s t : Spot}
    {nearer : List Spot} (hs : s.rest = text) :
    t ∈ set.sweep text least s nearer ↔ t ∈ nearer ∨ ∃ word rest, text = word ++ rest ∧
      least ≤ word.length ∧ (∀ c ∈ word, set.has c = true) ∧ t = s.behind word rest [] := by
  have reached {least : Nat} {s : Spot} {nearer : List Spot} :
      (t ∈ if least = 0 then s :: nearer else nearer) ↔ t ∈ nearer ∨ least = 0 ∧ t = s := by
    split
    · next h => simp [h, or_comm]
    · next h => simp [h]
  induction text generalizing least s nearer with
  | nil =>
    rw [CharSet.sweep, reached]
    refine or_congr_right ⟨?_, ?_⟩
    · rintro ⟨rfl, rfl⟩
      exact ⟨[], [], rfl, Nat.le_refl _, by simp, (Spot.behind_nil hs).symm⟩
    · rintro ⟨word, rest, htext, hleast, -, rfl⟩
      obtain ⟨rfl, rfl⟩ := List.append_eq_nil_iff.mp htext.symm
      exact ⟨Nat.le_zero.mp hleast, Spot.behind_nil hs⟩
  | cons c more ih =>
    rw [CharSet.sweep]
    split
    · next hc =>
      refine (ih rfl).trans ?_
      rw [reached, or_assoc]
      refine or_congr_right ⟨?_, ?_⟩
      · rintro (⟨rfl, rfl⟩ | ⟨word, rest, rfl, hleast, hmembers, rfl⟩)
        · exact ⟨[], c :: more, rfl, Nat.le_refl _, by simp, (Spot.behind_nil hs).symm⟩
        · refine ⟨c :: word, rest, rfl, ?_, List.forall_mem_cons.mpr ⟨hc, hmembers⟩, ?_⟩
          · rw [List.length_cons]
            omega
          · rw [Spot.past_eq_behind, Spot.behind_behind]
            rfl
      · rintro ⟨word, rest, htext, hleast, hmembers, rfl⟩
        cases word with
        | nil => exact .inl ⟨Nat.le_zero.mp hleast, Spot.behind_nil (hs.trans htext)⟩
        | cons d word =>
          obtain ⟨rfl, rfl⟩ := List.cons.inj htext
          refine .inr ⟨word, rest, rfl, ?_, (List.forall_mem_cons.mp hmembers).2, ?_⟩
          · rw [List.length_cons] at hleast
            omega
          · rw [Spot.past_eq_behind, Spot.behind_behind]
            rfl
    · next hc =>
      rw [reached]
      refine or_congr_right ⟨?_, ?_⟩
      · rintro ⟨rfl, rfl⟩
        exact ⟨[], c :: more, rfl, Nat.le_refl _, by simp, (Spot.behind_nil hs).symm⟩
      · rintro ⟨word, rest, htext, hleast, hmembers, rfl⟩
        cases word with
        | nil => exact ⟨Nat.le_zero.mp hleast, Spot.behind_nil (hs.trans htext)⟩
        | cons d word =>
          obtain ⟨rfl, -⟩ := List.cons.inj htext
          exact absurd (hmembers c List.mem_cons_self) hc

/-- What a reading uses is a word of the pattern. -/
theorem says_of_mem_runs {p : Pattern} {s t : Spot} (h : t ∈ p.runs s) :
    ∃ word rest made, s.rest = word ++ rest ∧ t = s.behind word rest made ∧
      p.Says word (made.map Capture.said) := by
  induction p generalizing s t with
  | empty =>
    obtain rfl := List.mem_singleton.mp h
    exact ⟨[], t.rest, [], rfl, rfl, rfl, rfl⟩
  | one set =>
    rw [runs] at h
    split at h
    · simp at h
    · next c rest hrest =>
      split at h
      · next hc =>
        obtain rfl := List.mem_singleton.mp h
        exact ⟨[c], rest, [], hrest, rfl, ⟨c, rfl, hc⟩, rfl⟩
      · simp at h
  | many set least =>
    obtain ⟨word, rest, hrest, hleast, hmembers, rfl⟩ :=
      ((mem_sweep_iff rfl).mp h).resolve_left (by simp)
    exact ⟨word, rest, [], hrest, rfl, hleast, hmembers, rfl⟩
  | maybe p ih =>
    rcases List.mem_append.mp h with h | h
    · obtain ⟨word, rest, made, hrest, ht, hsays⟩ := ih h
      exact ⟨word, rest, made, hrest, ht, .inl hsays⟩
    · obtain rfl := List.mem_singleton.mp h
      exact ⟨[], t.rest, [], rfl, rfl, .inr ⟨rfl, rfl⟩⟩
  | seq p q ihp ihq =>
    obtain ⟨u, hu, ht⟩ := List.mem_flatMap.mp h
    obtain ⟨word, rest, made, hrest, rfl, hsays⟩ := ihp hu
    obtain ⟨word', rest', made', hrest', rfl, hsays'⟩ := ihq ht
    obtain rfl : rest = word' ++ rest' := hrest'
    exact ⟨word ++ word', rest', made' ++ made, by rw [hrest, List.append_assoc],
      Spot.behind_behind .., word, word', _, _, rfl, List.map_append, hsays, hsays'⟩
  | alt p q ihp ihq =>
    rcases List.mem_append.mp h with h | h
    · obtain ⟨word, rest, made, hrest, ht, hsays⟩ := ihp h
      exact ⟨word, rest, made, hrest, ht, .inl hsays⟩
    · obtain ⟨word, rest, made, hrest, ht, hsays⟩ := ihq h
      exact ⟨word, rest, made, hrest, ht, .inr hsays⟩
  | group number p ih =>
    obtain ⟨u, hu, rfl⟩ := List.mem_map.mp h
    obtain ⟨word, rest, made, hrest, rfl, hsays⟩ := ih hu
    refine ⟨word, rest, .ofWord number word rest :: made, hrest, ?_, _, ?_, hsays⟩
    · simp [Spot.capture, Spot.behind, Capture.ofWord, hrest]
    · rw [List.map_cons, Capture.said_ofWord]
  | edge =>
    rw [runs] at h
    split at h
    · obtain rfl := List.mem_singleton.mp h
      exact ⟨[], t.rest, [], rfl, rfl, rfl, rfl⟩
    · simp at h
  | start =>
    rw [runs] at h
    split at h
    · obtain rfl := List.mem_singleton.mp h
      exact ⟨[], t.rest, [], rfl, rfl, rfl, rfl⟩
    · simp at h

/-- A match is a word of the pattern. -/
theorem says_of_here? {p : Pattern} {before : Option Char} {text : Text} {s : Spot}
    (h : p.here? before text = some s) :
    p.Says (text.take s.used) (s.captures.map Capture.said) := by
  obtain ⟨word, rest, made, hrest, rfl, hsays⟩ := says_of_mem_runs (List.mem_of_mem_head? h)
  obtain rfl : text = word ++ rest := hrest
  simpa [Spot.behind, Spot.ofText] using hsays

def numbered : Pattern → List (Nat × Pattern)
  | .maybe p => numbered p
  | .seq p q => numbered p ++ numbered q
  | .alt p q => numbered p ++ numbered q
  | .group number p => (number, p) :: numbered p
  | _ => []

/-- What a group holds is a word of the pattern in its brackets. -/
theorem Says.of_mem_said {p : Pattern} {word : Text} {said : List (Nat × Text)}
    (h : p.Says word said) {number : Nat} {held : Text} (hheld : (number, held) ∈ said) :
    ∃ q, (number, q) ∈ p.numbered ∧ ∃ inner, q.Says held inner := by
  induction p generalizing word said with
  | empty | edge | start => simp [h.2] at hheld
  | one set => simp [h.2] at hheld
  | many set least => simp [h.2.2] at hheld
  | maybe p ih =>
    rcases h with h | h
    · exact ih h hheld
    · simp [h.2] at hheld
  | seq p q ihp ihq =>
    obtain ⟨u, v, a, b, -, rfl, hu, hv⟩ := h
    rcases List.mem_append.mp hheld with hheld | hheld
    · obtain ⟨r, hr, hword⟩ := ihq hv hheld
      exact ⟨r, List.mem_append_right _ hr, hword⟩
    · obtain ⟨r, hr, hword⟩ := ihp hu hheld
      exact ⟨r, List.mem_append_left _ hr, hword⟩
  | alt p q ihp ihq =>
    rcases h with h | h
    · obtain ⟨r, hr, hword⟩ := ihp h hheld
      exact ⟨r, List.mem_append_left _ hr, hword⟩
    · obtain ⟨r, hr, hword⟩ := ihq h hheld
      exact ⟨r, List.mem_append_right _ hr, hword⟩
  | group number' p ih =>
    obtain ⟨inner, rfl, hinner⟩ := h
    rcases List.mem_cons.mp hheld with heq | hheld
    · cases heq
      exact ⟨p, List.mem_cons_self, inner, hinner⟩
    · obtain ⟨r, hr, hword⟩ := ih hinner hheld
      exact ⟨r, List.mem_cons_of_mem _ hr, hword⟩

/-- A pattern without groups holds nothing in any. -/
theorem Says.said_eq_nil {p : Pattern} {word : Text} {said : List (Nat × Text)}
    (h : p.Says word said) (hnone : p.numbered = []) : said = [] := by
  rw [List.eq_nil_iff_forall_not_mem]
  intro ⟨number, held⟩ hheld
  obtain ⟨q, hq, -⟩ := h.of_mem_said hheld
  simp [hnone] at hq

theorem says_concat_cons {p : Pattern} {rest : List Pattern} {word : Text}
    {said : List (Nat × Text)} :
    (concat (p :: rest)).Says word said ↔ (seq p (concat rest)).Says word said := by
  cases rest with
  | cons q rest => rfl
  | nil =>
    constructor
    · intro h
      exact ⟨word, [], said, [], by simp, by simp, h, rfl, rfl⟩
    · rintro ⟨u, _, a, _, rfl, rfl, h, rfl, rfl⟩
      simpa [concat] using h

/-- A sequence of sets describes the texts with one member of each set. -/
theorem says_concat_one {sets : List CharSet} {word : Text} {said : List (Nat × Text)} :
    (concat (sets.map .one)).Says word said ↔
      List.Forall₂ (fun c set => set.has c = true) word sets ∧ said = [] := by
  induction sets generalizing word said with
  | nil => simp [concat, Says]
  | cons set sets ih =>
    rw [List.map_cons, says_concat_cons]
    constructor
    · rintro ⟨_, v, _, b, rfl, rfl, ⟨⟨c, rfl, hc⟩, rfl⟩, hv⟩
      obtain ⟨hall, rfl⟩ := ih.mp hv
      exact ⟨.cons hc hall, rfl⟩
    · rintro ⟨hall, rfl⟩
      cases hall with
      | @cons c _ rest _ hc hrest =>
        exact ⟨[c], rest, [], [], rfl, rfl, ⟨⟨c, rfl, hc⟩, rfl⟩, ih.mpr ⟨hrest, rfl⟩⟩

/-- The pattern of a word describes the word with each letter in either case. -/
theorem says_word {name : String} {word : Text} {said : List (Nat × Text)} :
    (Pattern.word name).Says word said ↔ word.map foldCase = name.toList ∧ said = [] := by
  have hsets : Pattern.word name =
      concat ((name.toList.map fun c => CharSet.anyCase [c]).map .one) := by
    rw [List.map_map]
    rfl
  have heq : (fun (c d : Char) => (CharSet.anyCase [d]).has c = true) =
      fun c d => foldCase c = d := by
    funext c d
    simp [CharSet.has]
  rw [hsets, says_concat_one, List.forall₂_map_right_iff, heq, ← List.forall₂_map_left_iff,
    List.forall₂_eq_eq_eq]

/-- The pattern of some characters describes just these characters. -/
theorem says_chars {symbol : String} {word : Text} {said : List (Nat × Text)} :
    (concat (chars symbol)).Says word said ↔ word = symbol.toList ∧ said = [] := by
  have hsets : chars symbol = (symbol.toList.map fun c => CharSet.exactly [c]).map .one := by
    rw [List.map_map]
    rfl
  have heq : (fun (c d : Char) => (CharSet.exactly [d]).has c = true) = Eq := by
    funext c d
    simp [CharSet.has]
  rw [hsets, says_concat_one, List.forall₂_map_right_iff, heq, List.forall₂_eq_eq_eq]

/-- The ways through the alternatives and the optional parts of a pattern, in order of
preference. -/
def choices : Pattern → List Pattern
  | .maybe p => choices p ++ [.empty]
  | .seq p q => (choices p).flatMap fun c => (choices q).map (.seq c)
  | .alt p q => choices p ++ choices q
  | .group number p => (choices p).map (.group number)
  | p => [p]

/-- A pattern describes what its choices describe together. -/
theorem says_iff_choices {p : Pattern} {word : Text} {said : List (Nat × Text)} :
    p.Says word said ↔ ∃ c ∈ p.choices, c.Says word said := by
  induction p generalizing word said with
  | empty | one | many | edge | start => simp [choices]
  | maybe p ih =>
    simp only [Says, choices, List.mem_append, List.mem_singleton, or_and_right, exists_or, ih,
      exists_eq_left]
  | seq p q ihp ihq =>
    simp only [Says, choices, List.mem_flatMap, List.mem_map, ihp, ihq]
    constructor
    · rintro ⟨u, v, a, b, hword, hsaid, ⟨c, hc, hu⟩, d, hd, hv⟩
      exact ⟨_, ⟨c, hc, d, hd, rfl⟩, u, v, a, b, hword, hsaid, hu, hv⟩
    · rintro ⟨_, ⟨c, hc, d, hd, rfl⟩, u, v, a, b, hword, hsaid, hu, hv⟩
      exact ⟨u, v, a, b, hword, hsaid, ⟨c, hc, hu⟩, d, hd, hv⟩
  | alt p q ihp ihq =>
    simp only [Says, choices, List.mem_append, or_and_right, exists_or, ihp, ihq]
  | group number p ih =>
    simp only [Says, choices, List.mem_map, ih]
    constructor
    · rintro ⟨inner, hsaid, c, hc, hword⟩
      exact ⟨_, ⟨c, hc, rfl⟩, inner, hsaid, hword⟩
    · rintro ⟨_, ⟨c, hc, rfl⟩, inner, hsaid, hword⟩
      exact ⟨inner, hsaid, c, hc, hword⟩

end Pattern

end Tabletop
