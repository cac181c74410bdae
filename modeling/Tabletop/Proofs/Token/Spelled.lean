import Tabletop.Proofs.Group.Reading
import Tabletop.Proofs.Pattern.Says

/-!
# Reading what a pattern takes

A pattern where case does not matter takes two characters outside ASCII for letters: the Kelvin
sign for a `k` and the long s for an `s`. The readers of captured text know the ASCII letters only.
So every target and every rule for dropping or keeping is read as what its pattern names exactly if
it is written without these two characters. With them a target reads as the operator `>=`, and a
rule disappears.
-/

namespace Tabletop

/-- The text has none of the characters that count as an ASCII letter without being one. -/
def Text.IsPlain (s : Text) : Prop := '\u212a' ∉ s ∧ '\u017f' ∉ s

instance (s : Text) : Decidable s.IsPlain := inferInstanceAs (Decidable (_ ∧ _))

theorem Text.IsPlain.ne {s : Text} (h : s.IsPlain) {c : Char} (hc : c ∈ s) :
    c ≠ '\u212a' ∧ c ≠ '\u017f' :=
  ⟨ne_of_mem_of_not_mem hc h.1, ne_of_mem_of_not_mem hc h.2⟩

theorem foldCase_of_plain {c : Char} (h : c ≠ '\u212a' ∧ c ≠ '\u017f') :
    foldCase c = c.toLower := by
  rw [foldCase, if_neg h.1, if_neg h.2]

theorem foldCase_eq_toLower {c : Char} (h : foldCase c ≠ 'k' ∧ foldCase c ≠ 's') :
    foldCase c = c.toLower := by
  refine foldCase_of_plain ⟨?_, ?_⟩
  · rintro rfl
    exact h.1 rfl
  · rintro rfl
    exact h.2 rfl

/-- A plain text in small letters is the text that its letters count as. -/
theorem Text.IsPlain.lower_eq {s : Text} (h : s.IsPlain) : Text.lower s = s.map foldCase :=
  List.map_congr_left fun _ hc => (foldCase_of_plain (h.ne hc)).symm

/-- A blank counts as itself. -/
theorem foldCase_of_isBlank {c : Char} (h : isBlank c = true) : foldCase c = c :=
  beq_iff_eq.mp (forall_isBlank (fun c => foldCase c == c) (by decide) h)

/-- What counts as letters has no blanks. -/
theorem Text.not_isBlank_of_map_foldCase {s letters : Text} (h : s.map foldCase = letters)
    (hletters : ∀ c ∈ letters, isBlank c = false) : ∀ c ∈ s, isBlank c = false := by
  intro c hc
  rw [Bool.eq_false_iff]
  intro hblank
  have hmem : foldCase c ∈ letters := h ▸ List.mem_map_of_mem hc
  rw [foldCase_of_isBlank hblank] at hmem
  rw [hletters c hmem] at hblank
  exact absurd hblank (by decide)

theorem Text.lower_of_isBlank {s : Text} (h : ∀ c ∈ s, isBlank c = true) : lower s = s := by
  have hlower (c : Char) (hc : isBlank c = true) : c.toLower = c :=
    beq_iff_eq.mp (forall_isBlank (fun c => c.toLower == c) (by decide) hc)
  exact List.map_congr_left (fun c hc => hlower c (h c hc)) |>.trans (List.map_id s)

/-- A text that is not plain has a character that is no blank, is its own small letter and counts
as another one. -/
theorem Text.exists_of_not_isPlain {s : Text} (h : ¬s.IsPlain) :
    ∃ c ∈ s, c = '\u212a' ∨ c = '\u017f' := by
  rw [IsPlain, not_and_or, not_not, not_not] at h
  rcases h with h | h
  · exact ⟨_, h, .inl rfl⟩
  · exact ⟨_, h, .inr rfl⟩

namespace Target

/-- One of the ways to write a target. -/
inductive Spelling where
  /-- The letters of a name. -/
  | name (letters : String)
  /-- The letters `vs`, and a name behind them or nothing. -/
  | behindVs (letters : String)
  /-- The characters of a symbol. -/
  | symbol (characters : String)
  deriving DecidableEq, Repr

namespace Spelling

def pattern : Spelling → Pattern
  | .name letters => .seq .edge (Pattern.word letters)
  | .behindVs letters =>
    .seq .edge (.seq (.one (.anyCase ['v'])) (.seq (.one (.anyCase ['s']))
      (.seq Pattern.blanks (Pattern.word letters))))
  | .symbol characters => Pattern.concat (Pattern.chars characters)

def text : Spelling → Text
  | .name letters => letters.toList
  | .behindVs letters => "vs".toList ++ letters.toList
  | .symbol characters => characters.toList

end Spelling

namespace Spelling

variable {letters : String} {word : Text} {said : List (Nat × Text)}

theorem says_name (h : (name letters).pattern.Says word said) :
    word.map foldCase = letters.toList := by
  obtain ⟨_, v, _, _, rfl, -, ⟨rfl, -⟩, hv⟩ := h
  exact (Pattern.says_word.mp hv).1

theorem says_behindVs (h : (behindVs letters).pattern.Says word said) :
    ∃ v s blanks rest, word = v :: s :: (blanks ++ rest) ∧ foldCase v = 'v' ∧ foldCase s = 's' ∧
      (∀ c ∈ blanks, isBlank c = true) ∧ rest.map foldCase = letters.toList := by
  obtain ⟨_, _, _, _, rfl, -, ⟨rfl, -⟩, _, _, _, _, rfl, -, ⟨⟨v, rfl, hv⟩, -⟩, _, _, _, _, rfl, -,
    ⟨⟨s, rfl, hs⟩, -⟩, blanks, rest, _, _, rfl, -, ⟨-, hblanks, -⟩, hrest⟩ := h
  refine ⟨v, s, blanks, rest, rfl, ?_, ?_, hblanks, (Pattern.says_word.mp hrest).1⟩
  · simpa [CharSet.has] using hv
  · simpa [CharSet.has] using hs

theorem says_symbol (h : (symbol letters).pattern.Says word said) : word = letters.toList :=
  (Pattern.says_chars.mp h).1

end Spelling

/-- The alternatives of the pattern for targets in its order, each with the target and the operator
that it names. -/
def alternatives : List (Spelling × Target × CompareOp) :=
  [(.behindVs "eac", .eac, .ge), (.behindVs "kac", .kac, .ge), (.behindVs "ac", .ac, .ge),
    (.behindVs "dc", .dc, .ge), (.behindVs "", .vs, .ge), (.name "gteq", .operator, .ge),
    (.name "gt", .operator, .gt), (.name "lteq", .operator, .le), (.name "lt", .operator, .lt),
    (.name "eq", .operator, .eq), (.name "eac", .eac, .ge), (.name "kac", .kac, .ge),
    (.name "ac", .ac, .ge), (.name "dc", .dc, .ge), (.symbol ">=", .operator, .ge),
    (.symbol "<=", .operator, .le), (.symbol "!=", .operator, .ne), (.symbol "==", .operator, .eq),
    (.symbol "=>", .operator, .ge), (.symbol "=<", .operator, .le), (.symbol "<>", .operator, .ne),
    (.symbol "=", .operator, .eq), (.symbol ">", .operator, .gt), (.symbol "<", .operator, .lt)]

theorem choices_target : Pattern.target.choices = alternatives.map fun a => a.1.pattern := rfl

def spelled? (raw : Text) : Option (Target × CompareOp) :=
  match "vs".toList.isPrefixOf? (Text.lower raw.trim) with
  | none => spellings.lookup (Text.lower raw.trim)
  | some rest =>
    if Text.trimStart rest = [] then some (.vs, .ge) else spellings.lookup (Text.trimStart rest)

/-- A spelling is read as what it stands for, and as the operator `>=` only if it is unknown or
stands for that. -/
theorem ofSpelling_eq (raw : Text) : ofSpelling raw = (spelled? raw).getD (.operator, .ge) := by
  rw [ofSpelling, spelled?]
  cases "vs".toList.isPrefixOf? (Text.lower raw.trim) with
  | none => rfl
  | some rest =>
    by_cases hnil : Text.trimStart rest = [] <;> simp [hnil]

/-- The spellings in small letters stand for what they name. -/
theorem spelled?_text : ∀ a ∈ alternatives, spelled? a.1.text = some a.2 := by decide

/-- What holds of each character of each spelling can be checked one by one. -/
theorem forall_text (holds : Char → Bool)
    (h : (alternatives.all fun a => a.1.text.all holds) = true) :
    ∀ a ∈ alternatives, ∀ c ∈ a.1.text, holds c = true := by
  intro a ha
  exact List.all_eq_true.mp (List.all_eq_true.mp h a ha)

theorem isBlank_text : ∀ a ∈ alternatives, ∀ c ∈ a.1.text, isBlank c = false := by
  simpa using forall_text (fun c => !isBlank c) (by decide)

theorem lower_text : ∀ a ∈ alternatives, Text.lower a.1.text = a.1.text := by decide

/-- Where `>=` is named, no letter stands that a character outside ASCII counts as. -/
theorem strangers_text : ∀ a ∈ alternatives, a.2 = (.operator, .ge) →
    'k' ∉ a.1.text ∧ 's' ∉ a.1.text := by
  decide

theorem foldCase_text : ∀ a ∈ alternatives, ∀ c ∈ a.1.text, foldCase c = c := by
  simpa using forall_text (fun c => foldCase c == c) (by decide)

theorem spelled?_congr {v w : Text} (h : Text.lower w.trim = Text.lower v.trim) :
    spelled? w = spelled? v := by
  rw [spelled?, spelled?, h]

/-- Blanks behind `vs` make no difference. -/
theorem spelled?_behindVs {v w blanks rest : Text} (hblanks : ∀ c ∈ blanks, isBlank c = true)
    (hw : Text.lower w.trim = 'v' :: 's' :: (blanks ++ rest))
    (hv : Text.lower v.trim = 'v' :: 's' :: rest) : spelled? w = spelled? v := by
  have hprefix (more : Text) : "vs".toList.isPrefixOf? ('v' :: 's' :: more) = some more := rfl
  have htrim : Text.trimStart (blanks ++ rest) = Text.trimStart rest :=
    List.dropWhile_append_of_pos hblanks
  simp only [spelled?, hw, hv, hprefix, htrim]

theorem lookup_spellings_of_stranger {s : Text} {c : Char} (hc : c ∈ s)
    (stranger : c = '\u212a' ∨ c = '\u017f') : spellings.lookup s = none := by
  have hkeys : ∀ p ∈ spellings, '\u212a' ∉ p.1 ∧ '\u017f' ∉ p.1 := by decide
  rw [List.lookup_eq_none_iff]
  rintro p hp
  rw [bne_iff_ne]
  rintro rfl
  rcases stranger with rfl | rfl
  · exact (hkeys p hp).1 hc
  · exact (hkeys p hp).2 hc

/-- A spelling with a character that only counts as a letter is unknown. -/
theorem spelled?_of_not_isPlain {w : Text} (h : ¬w.IsPlain) : spelled? w = none := by
  obtain ⟨c, hc, stranger⟩ := Text.exists_of_not_isPlain h
  have hblank : isBlank c = false := by rcases stranger with rfl | rfl <;> decide
  have hlower : c.toLower = c := by rcases stranger with rfl | rfl <;> decide
  have hspelled : c ∈ Text.lower w.trim :=
    List.mem_map.mpr ⟨c, Text.mem_trim hc hblank, hlower⟩
  rw [spelled?]
  split
  · exact lookup_spellings_of_stranger hspelled stranger
  · next rest hvs =>
    have hrest : c ∈ rest := by
      rw [← List.isPrefixOf?_eq_some_iff_append_eq.mp hvs] at hspelled
      refine (List.mem_append.mp hspelled).resolve_left ?_
      rcases stranger with rfl | rfl <;> decide
    have htrim := Text.mem_trimStart hrest hblank
    rw [if_neg (List.ne_nil_of_mem htrim)]
    exact lookup_spellings_of_stranger htrim stranger

section

variable {a : Spelling × Target × CompareOp} {word : Text} {said : List (Nat × Text)}

/-- Everything but blanks counts as a letter of the spelling. -/
theorem isBlank_or_foldCase_mem (ha : a ∈ alternatives) (h : a.1.pattern.Says word said) {c : Char}
    (hc : c ∈ word) : isBlank c = true ∨ foldCase c ∈ a.1.text := by
  obtain ⟨spelling, named⟩ := a
  cases spelling with
  | name letters =>
    have hmem := List.mem_map_of_mem (f := foldCase) hc
    rw [Spelling.says_name h] at hmem
    exact .inr hmem
  | behindVs letters =>
    obtain ⟨v, s, blanks, rest, rfl, hv, hs, hblanks, hrest⟩ := Spelling.says_behindVs h
    simp only [List.mem_cons, List.mem_append] at hc
    rcases hc with rfl | rfl | hc | hc
    · exact .inr (hv ▸ .head _)
    · exact .inr (hs ▸ .tail _ (.head _))
    · exact .inl (hblanks c hc)
    · have hmem := List.mem_map_of_mem (f := foldCase) hc
      rw [hrest] at hmem
      exact .inr (List.mem_append_right _ hmem)
  | symbol characters =>
    obtain rfl := Spelling.says_symbol h
    exact .inr ((foldCase_text _ ha c hc).symm ▸ hc)

/-- Trimming may take the blanks behind `vs`, and nothing else. -/
theorem trim_behindVs {v s : Char} {blanks rest : Text} (hvs : ∀ c ∈ [v, s], isBlank c = false)
    (hblanks : ∀ c ∈ blanks, isBlank c = true) (hrest : ∀ c ∈ rest, isBlank c = false) :
    ∃ blanks', (∀ c ∈ blanks', isBlank c = true) ∧
      Text.trim (v :: s :: (blanks ++ rest)) = v :: s :: (blanks' ++ rest) := by
  have hfirst : isBlank v = false := hvs v (.head _)
  by_cases hnil : rest = []
  · refine ⟨[], by simp, ?_⟩
    have h : Text.trim ([] ++ [v, s] ++ blanks) = [v, s] :=
      Text.trim_between (by simp) (by simpa using hfirst)
        (fun c hc => hvs c (List.mem_of_getLast? hc)) hblanks
    simpa [hnil] using h
  · refine ⟨blanks, hblanks, ?_⟩
    have hlast : (v :: s :: (blanks ++ rest)).getLast? = rest.getLast? := by
      rw [← List.cons_append, ← List.cons_append, List.getLast?_append_of_ne_nil _ hnil]
    have h : Text.trim ([] ++ v :: s :: (blanks ++ rest) ++ []) = v :: s :: (blanks ++ rest) :=
      Text.trim_between (by simp) (by simpa using hfirst)
        (fun c hc => hrest c (List.mem_of_getLast? (hlast ▸ hc))) (by simp)
    simpa using h

/-- A plain spelling stands for what it names. -/
theorem spelled?_of_isPlain (ha : a ∈ alternatives) (h : a.1.pattern.Says word said)
    (plain : word.IsPlain) : spelled? word = some a.2 := by
  rw [← spelled?_text a ha]
  have hnone := isBlank_text a ha
  have htext : Text.lower (Text.trim a.1.text) = a.1.text := by
    rw [Text.trim_eq_self hnone, lower_text a ha]
  obtain ⟨spelling, named⟩ := a
  cases spelling with
  | name letters =>
    have hletters := Spelling.says_name h
    refine spelled?_congr ?_
    rw [Text.trim_eq_self (Text.not_isBlank_of_map_foldCase hletters hnone), plain.lower_eq,
      hletters, htext]
    rfl
  | behindVs letters =>
    obtain ⟨v, s, blanks, rest, rfl, hv, hs, hblanks, hrest⟩ := Spelling.says_behindVs h
    have hletters : [v, s].map foldCase = ['v', 's'] := by simp [hv, hs]
    have hvs : ∀ c ∈ [v, s], isBlank c = false :=
      Text.not_isBlank_of_map_foldCase hletters fun c hc =>
        hnone c (List.mem_append_left letters.toList hc)
    have hname : ∀ c ∈ rest, isBlank c = false :=
      Text.not_isBlank_of_map_foldCase hrest fun c hc => hnone c (List.mem_append_right _ hc)
    obtain ⟨blanks', hblanks', htrim⟩ := trim_behindVs hvs hblanks hname
    have plain_rest : Text.IsPlain rest := by
      simp only [Text.IsPlain, List.mem_cons, List.mem_append, not_or] at plain
      exact ⟨plain.1.2.2.2, plain.2.2.2.2⟩
    refine spelled?_behindVs hblanks' ?_ htext
    rw [htrim, Text.lower, List.map_cons, List.map_cons, List.map_append,
      ← foldCase_of_plain (plain.ne (.head _)), hv,
      ← foldCase_of_plain (plain.ne (.tail _ (.head _))), hs, ← hrest,
      ← Text.IsPlain.lower_eq plain_rest]
    exact congrArg (fun b => 'v' :: 's' :: (b ++ _)) (Text.lower_of_isBlank hblanks')
  | symbol characters =>
    rw [Spelling.says_symbol h]
    rfl

/-- A spelling that the pattern takes is known exactly if it is plain. -/
theorem spelled?_eq (ha : a ∈ alternatives) (h : a.1.pattern.Says word said) :
    spelled? word = if word.IsPlain then some a.2 else none := by
  split
  · next plain => exact spelled?_of_isPlain ha h plain
  · next plain => exact spelled?_of_not_isPlain plain

/-- A target is read as what the pattern names exactly if it is plain: no spelling of `>=` has a
letter that a character outside ASCII counts as. -/
theorem ofSpelling_eq_iff (ha : a ∈ alternatives) (h : a.1.pattern.Says word said) :
    ofSpelling word = a.2 ↔ word.IsPlain := by
  rw [ofSpelling_eq, spelled?_eq ha h]
  refine ⟨fun hread => ?_, fun plain => by rw [if_pos plain]; rfl⟩
  by_contra hplain
  rw [if_neg hplain] at hread
  obtain ⟨c, hc, stranger⟩ := Text.exists_of_not_isPlain hplain
  have hfold : foldCase c ∈ a.1.text := by
    refine (isBlank_or_foldCase_mem ha h hc).resolve_left ?_
    rcases stranger with rfl | rfl <;> decide
  obtain ⟨hk, hs⟩ := strangers_text a ha hread.symm
  rcases stranger with rfl | rfl
  · exact hk hfold
  · exact hs hfold

end

end Target

end Tabletop
