import Mathlib
import Tabletop.Proofs.Pattern.Says
import Tabletop.System

/-!
# Words that occur

A pattern that does not look at its surroundings reads each of its words wherever the word stands.
Between two edges it occurs in a text exactly if one of its words stands there by itself. So a
description makes a saving throw exactly if one of six words stands in it by itself, in letters of
either case.
-/

namespace Tabletop

namespace Pattern

/-- The pattern does not look at what stands around it. -/
def isFree : Pattern → Bool
  | .edge | .start => false
  | .maybe p => isFree p
  | .seq p q => isFree p && isFree q
  | .alt p q => isFree p && isFree q
  | .group _ p => isFree p
  | _ => true

/-- A free pattern reads each of its words from wherever the word begins. -/
theorem exists_mem_runs_of_says {p : Pattern} (free : p.isFree = true) {word : Text}
    {said : List (Nat × Text)} (h : p.Says word said) {s : Spot} {rest : Text}
    (hs : s.rest = word ++ rest) :
    ∃ made, s.behind word rest made ∈ p.runs s ∧ made.map Capture.said = said := by
  induction p generalizing word said s rest with
  | empty =>
    obtain ⟨rfl, rfl⟩ := h
    exact ⟨[], List.mem_singleton.mpr (Spot.behind_nil hs), rfl⟩
  | one set =>
    obtain ⟨⟨c, rfl, hc⟩, rfl⟩ := h
    refine ⟨[], ?_, rfl⟩
    rw [List.cons_append, List.nil_append] at hs
    simp only [runs, hs, hc, ↓reduceIte, List.mem_singleton, Spot.past_eq_behind]
  | many set least =>
    obtain ⟨hleast, hmembers, rfl⟩ := h
    exact ⟨[], (mem_sweep_iff rfl).mpr (.inr ⟨word, rest, hs, hleast, hmembers, rfl⟩), rfl⟩
  | maybe p ih =>
    rcases h with h | ⟨rfl, rfl⟩
    · obtain ⟨made, hmem, hmade⟩ := ih free h hs
      exact ⟨made, List.mem_append_left _ hmem, hmade⟩
    · exact ⟨[], List.mem_append_right _ (List.mem_singleton.mpr (Spot.behind_nil hs)), rfl⟩
  | seq p q ihp ihq =>
    obtain ⟨u, v, a, b, rfl, rfl, hu, hv⟩ := h
    rw [isFree, Bool.and_eq_true] at free
    rw [List.append_assoc] at hs
    obtain ⟨made, hmem, hmade⟩ := ihp free.1 hu hs
    obtain ⟨made', hmem', hmade'⟩ := ihq free.2 hv (s := s.behind u (v ++ rest) made) rfl
    refine ⟨made' ++ made, ?_, by rw [List.map_append, hmade, hmade']⟩
    rw [← s.behind_behind u v (v ++ rest)]
    exact List.mem_flatMap.mpr ⟨_, hmem, hmem'⟩
  | alt p q ihp ihq =>
    rw [isFree, Bool.and_eq_true] at free
    rcases h with h | h
    · obtain ⟨made, hmem, hmade⟩ := ihp free.1 h hs
      exact ⟨made, List.mem_append_left _ hmem, hmade⟩
    · obtain ⟨made, hmem, hmade⟩ := ihq free.2 h hs
      exact ⟨made, List.mem_append_right _ hmem, hmade⟩
  | group number p ih =>
    obtain ⟨inner, rfl, h⟩ := h
    obtain ⟨made, hmem, hmade⟩ := ih free h hs
    refine ⟨.ofWord number word rest :: made, ?_, ?_⟩
    · refine List.mem_map.mpr ⟨_, hmem, ?_⟩
      simp [Spot.capture, Spot.behind, Capture.ofWord, hs]
    · rw [List.map_cons, Capture.said_ofWord, hmade]
  | edge | start => cases free

theorem isSome_here?_iff {p : Pattern} {before : Option Char} {s : Text} :
    (p.here? before s).isSome ↔ ∃ t, t ∈ p.runs (.ofText before s) := by
  rw [here?, List.isSome_head?]
  constructor
  · exact List.exists_mem_of_ne_nil _
  · rintro ⟨_, h⟩
    exact List.ne_nil_of_mem h

/-- A search finds a match exactly if there is a place where one begins. -/
theorem isSome_search_iff {p : Pattern} {before : Option Char} {s : Text} :
    (p.search before s).isSome ↔
      ∃ a b, s = a ++ b ∧ (p.here? (a.getLast?.or before) b).isSome := by
  induction s generalizing before with
  | nil => simp [search]
  | cons c rest ih =>
    have hsearch : (p.search before (c :: rest)).isSome ↔
        (p.here? before (c :: rest)).isSome ∨ (p.search (some c) rest).isSome := by
      rw [search]
      split
      · next h => simp [h]
      · next h => simp [h]
    have hbefore (a : Text) : a.getLast?.or (some c) = (c :: a).getLast?.or before := by
      rw [List.getLast?_cons]
      cases a.getLast? <;> rfl
    rw [hsearch, ih]
    constructor
    · rintro (h | ⟨a, b, rfl, h⟩)
      · exact ⟨[], c :: rest, rfl, h⟩
      · exact ⟨c :: a, b, rfl, hbefore a ▸ h⟩
    · rintro ⟨a, b, hs, h⟩
      cases a with
      | nil => exact .inl (hs ▸ h)
      | cons d a =>
        obtain ⟨rfl, rfl⟩ := List.cons.inj hs
        exact .inr ⟨a, b, rfl, (hbefore a).symm ▸ h⟩

/-- Between two edges a free pattern occurs where one of its words stands with an edge at either
end. -/
theorem occursIn_between_edges {p : Pattern} (free : p.isFree = true) {s : Text} :
    (concat [.edge, p, .edge]).occursIn s = true ↔
      ∃ before word behind said, s = before ++ word ++ behind ∧ p.Says word said ∧
        atWordEdge before.getLast? (word ++ behind).head? = true ∧
        atWordEdge (word.getLast?.or before.getLast?) behind.head? = true := by
  have hruns {before : Option Char} {text : Text} {t : Spot} :
      t ∈ (concat [.edge, p, .edge]).runs (.ofText before text) ↔
        atWordEdge before text.head? = true ∧ t ∈ p.runs (.ofText before text) ∧
          atWordEdge t.before t.rest.head? = true := by
    simp only [concat, runs, List.mem_flatMap]
    split
    · next h => simp_all [Spot.ofText]
    · next h => simp_all [Spot.ofText]
  simp only [occursIn, isSome_search_iff, isSome_here?_iff, hruns, Option.or_none]
  constructor
  · rintro ⟨before, text, rfl, _, hopen, ht, hclose⟩
    obtain ⟨word, rest, made, hrest, rfl, hsays⟩ := says_of_mem_runs ht
    obtain rfl : text = word ++ rest := hrest
    exact ⟨before, word, rest, _, (List.append_assoc ..).symm, hsays, hopen, hclose⟩
  · rintro ⟨before, word, behind, said, rfl, hsays, hopen, hclose⟩
    obtain ⟨made, hmem, -⟩ := exists_mem_runs_of_says free hsays
      (s := .ofText before.getLast? (word ++ behind)) rfl
    exact ⟨before, word ++ behind, List.append_assoc .., _, hopen, hmem, hclose⟩

/-- A sequence is not changed by nothing at its end. -/
theorem says_concat_append_empty {ps : List Pattern} {word : Text} {said : List (Nat × Text)} :
    (concat (ps ++ [.empty])).Says word said ↔ (concat ps).Says word said := by
  induction ps generalizing word said with
  | nil => rfl
  | cons p rest ih =>
    rw [List.cons_append, says_concat_cons, says_concat_cons]
    simp only [Says, ih]

end Pattern

/-- What counts as a small letter is a word character. -/
theorem isWordChar_of_foldCase {c : Char} (h : (foldCase c).isLower = true) :
    isWordChar c = true := by
  have checked (low : Nat)
      (all : ((List.range' low 26).all fun n => isWordChar (Char.ofNat n)) = true)
      (range : low ≤ c.toNat ∧ c.toNat < low + 26) : isWordChar c = true := by
    have := List.all_eq_true.mp all c.toNat (List.mem_range'_1.mpr range)
    rwa [Char.ofNat_toNat] at this
  rw [foldCase] at h
  split at h
  · next hkelvin => exact hkelvin ▸ by decide +kernel
  · split at h
    · next hlong => exact hlong ▸ by decide
    · rw [Char.isLower_toLower_eq_isAlpha, Char.isAlpha, Bool.or_eq_true, Char.isUpper,
        Char.isLower] at h
      simp only [ge_iff_le, UInt32.le_iff_toNat_le, Char.toNat_val, Bool.and_eq_true,
        decide_eq_true_eq] at h
      rcases h with ⟨hlow, hhigh⟩ | ⟨hlow, hhigh⟩
      · exact checked 0x41 (by decide) ⟨hlow, Nat.lt_succ_of_le hhigh⟩
      · exact checked 0x61 (by decide) ⟨hlow, Nat.lt_succ_of_le hhigh⟩

/-- The word stands in the text by itself, in letters of either case: no character beside it goes
on with it. -/
def Text.HasWord (s word : Text) : Prop :=
  ∃ before found behind, s = before ++ found ++ behind ∧ found.map foldCase = word ∧
    before.getLast?.any isWordChar = false ∧ behind.head?.any isWordChar = false

namespace System

def saveWords : List Text :=
  ["fortitude".toList, "fort".toList, "reflex".toList, "ref".toList, "will".toList, "save".toList]

/-- The pattern for one of the words that make a saving throw, without the edges around it. -/
def saveName : Pattern :=
  .anyOf [.concat (Pattern.letters "fort" ++ [.maybe (.word "itude")]),
    .concat (Pattern.letters "ref" ++ [.maybe (.word "lex")]), .word "will", .word "save"]

theorem says_saveName {word : Text} {said : List (Nat × Text)} :
    saveName.Says word said ↔ word.map foldCase ∈ saveWords ∧ said = [] := by
  have hchoices : saveName.choices =
      [.word "fortitude", .concat (Pattern.letters "fort" ++ [.empty]), .word "reflex",
        .concat (Pattern.letters "ref" ++ [.empty]), .word "will", .word "save"] := rfl
  have hword (name : String) :
      (Pattern.concat (Pattern.letters name)).Says word said ↔
        word.map foldCase = name.toList ∧ said = [] := Pattern.says_word
  rw [Pattern.says_iff_choices, hchoices]
  simp only [List.mem_cons, List.not_mem_nil, or_false, or_and_right, exists_or, exists_eq_left,
    Pattern.says_concat_append_empty, Pattern.says_word, hword, saveWords]

/-- A description names a saving throw exactly if one of the words stands in it by itself. -/
theorem occursIn_saveWord_iff {s : Text} :
    Pattern.saveWord.occursIn s = true ↔ ∃ word ∈ saveWords, s.HasWord word := by
  have hletters : ∀ word ∈ saveWords, word ≠ [] ∧ ∀ c ∈ word, c.isLower = true := by
    simp [saveWords]
  have hedges {before found behind : Text} (h : found.map foldCase ∈ saveWords) :
      atWordEdge before.getLast? (found ++ behind).head? = true ∧
          atWordEdge (found.getLast?.or before.getLast?) behind.head? = true ↔
        before.getLast?.any isWordChar = false ∧ behind.head?.any isWordChar = false := by
    obtain ⟨hne, hlower⟩ := hletters _ h
    have hinside : ∀ c ∈ found, isWordChar c = true := fun c hc =>
      isWordChar_of_foldCase (hlower _ (List.mem_map_of_mem hc))
    have hfound : found ≠ [] := by simpa using hne
    obtain ⟨first, rest, hfirst⟩ := List.exists_cons_of_ne_nil hfound
    have hhead : (found ++ behind).head? = some first := by rw [hfirst]; rfl
    have hlast : found.getLast?.or before.getLast? = some (found.getLast hfound) := by
      rw [List.getLast?_eq_some_getLast hfound]
      rfl
    have hopens : isWordChar first = true := hinside first (by simp [hfirst])
    have hcloses : isWordChar (found.getLast hfound) = true := hinside _ (List.getLast_mem hfound)
    rw [atWordEdge, atWordEdge, hhead, hlast, Option.any_some, Option.any_some, hopens, hcloses]
    cases before.getLast?.any isWordChar <;> cases behind.head?.any isWordChar <;> decide
  rw [show Pattern.saveWord = .concat [.edge, saveName, .edge] from rfl,
    Pattern.occursIn_between_edges (by decide)]
  constructor
  · rintro ⟨before, word, behind, said, rfl, hsays, hopen, hclose⟩
    have hword := (says_saveName.mp hsays).1
    exact ⟨_, hword, before, word, behind, rfl, rfl, (hedges hword).mp ⟨hopen, hclose⟩⟩
  · rintro ⟨_, hword, before, found, behind, rfl, rfl, houtside⟩
    obtain ⟨hopen, hclose⟩ := (hedges hword).mpr houtside
    exact ⟨before, found, behind, [], rfl, says_saveName.mpr ⟨hword, rfl⟩, hopen, hclose⟩

end System

end Tabletop
