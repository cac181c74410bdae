import Tabletop.Proofs.Pattern.Begin

/-!
# The preferred reading

A pattern takes a word where its preferred reading uses just that word. What a pattern takes is
worked out from what its parts take: a sequence takes one word after the other, a choice takes
the first alternative that can be read at all, and a repetition goes on up to a character that
does not belong to it.
-/

namespace Tabletop

namespace Spot

/-- The spot behind a word, where `rest` lies ahead and `made` was captured on the way. -/
def behind (s : Spot) (word rest : Text) (made : List Capture) : Spot :=
  ⟨word.getLast?.or s.before, rest, s.used + word.length, made ++ s.captures⟩

theorem behind_nil {s : Spot} {rest : Text} (hs : s.rest = rest) : s.behind [] rest [] = s :=
  hs ▸ rfl

theorem behind_behind (s : Spot) (word word' rest rest' : Text) (made made' : List Capture) :
    (s.behind word rest made).behind word' rest' made' =
      s.behind (word ++ word') rest' (made' ++ made) := by
  simp only [behind, List.getLast?_append, List.length_append, List.append_assoc, Spot.mk.injEq,
    true_and, and_true]
  refine ⟨?_, by omega⟩
  cases word'.getLast? <;> rfl

theorem past_eq_behind (s : Spot) (c : Char) (rest : Text) :
    s.past c rest = s.behind [c] rest [] := rfl

end Spot

def Capture.ofWord (number : Nat) (word rest : Text) : Capture :=
  ⟨number, word ++ rest, word.length⟩

def Capture.said (c : Capture) : Nat × Text := (c.group, c.content)

@[simp] theorem Capture.said_ofWord (number : Nat) (word rest : Text) :
    (ofWord number word rest).said = (number, word) :=
  congrArg (number, ·) List.take_left

/-- The texts of the groups by what the captures say. -/
theorem Found.groupTexts_eq (f : Found) (groups : Nat) :
    f.groupTexts groups = (List.range groups).map fun i =>
      ((f.captures.map Capture.said).lookup (i + 1)).filter fun s => !s.isEmpty := by
  have lookup_said (number : Nat) (captures : List Capture) :
      (captures.find? (·.group == number)).map Capture.content =
        (captures.map Capture.said).lookup number := by
    induction captures with
    | nil => rfl
    | cons c captures ih =>
      have hsymm : (number == c.group) = (c.group == number) := Bool.beq_comm
      simp only [List.find?_cons, List.map_cons, Capture.said, List.lookup_cons, hsymm]
      cases c.group == number
      · exact ih
      · rfl
  simp only [groupTexts, lookup_said]

namespace Pattern

/-- Between a character and a text the pattern cannot be read. -/
def Fails (p : Pattern) (before : Option Char) (text : Text) : Prop :=
  ∀ s : Spot, s.before = before → s.rest = text → p.runs s = []

/-- Behind a character, the preferred reading of a pattern takes a word and leaves `rest` ahead.
The captures made on the way are given by what they say. -/
def Takes (p : Pattern) (before : Option Char) (word rest : Text) (said : List (Nat × Text)) :
    Prop :=
  ∀ s : Spot, s.before = before → s.rest = word ++ rest →
    ∃ made, (p.runs s).head? = some (s.behind word rest made) ∧ made.map Capture.said = said

section

variable {p q : Pattern} {before : Option Char} {word word' rest text : Text}
  {said said' : List (Nat × Text)}

theorem fails_of_begins (solid : p.isSolid = true) (h : ∀ c ∈ text.head?, p.begins c = false) :
    p.Fails before text :=
  fun _ _ hs => runs_eq_nil solid (hs ▸ h)

theorem Fails.seq (h : p.Fails before text) (q : Pattern) :
    (Pattern.seq p q).Fails before text := by
  intro s hbefore hs
  rw [runs, h s hbefore hs]
  rfl

/-- Where the first part of a sequence is read as nothing, the sequence fails with the rest. -/
theorem Fails.edge_seq (h : q.Fails before text) : (Pattern.seq edge q).Fails before text := by
  intro s hbefore hs
  simp only [runs]
  split
  · simpa using h s hbefore hs
  · rfl

theorem takes_one {set : CharSet} {c : Char} (hc : set.has c = true) :
    (one set).Takes before [c] rest [] := by
  intro s _ hs
  rw [List.cons_append, List.nil_append] at hs
  refine ⟨[], ?_, rfl⟩
  simp only [runs, hs, hc, ↓reduceIte, List.head?_cons, Spot.past_eq_behind]

theorem head?_sweep {set : CharSet} {least : Nat} {s : Spot} {nearer : List Spot}
    (members : ∀ c ∈ word, set.has c = true) (enough : least ≤ word.length)
    (stop : ∀ c ∈ rest.head?, set.has c = false) (hs : s.rest = word ++ rest) :
    (set.sweep (word ++ rest) least s nearer).head? = some (s.behind word rest []) := by
  induction word generalizing s least nearer with
  | nil =>
    obtain rfl : least = 0 := Nat.le_zero.mp enough
    rw [List.nil_append] at hs ⊢
    rw [Spot.behind_nil hs]
    cases rest with
    | nil => simp [CharSet.sweep]
    | cons c rest => simp [CharSet.sweep, stop c rfl]
  | cons c word ih =>
    obtain ⟨hc, hword⟩ := List.forall_mem_cons.mp members
    simp only [List.cons_append, CharSet.sweep, hc, ↓reduceIte]
    rw [ih hword (by simp only [List.length_cons] at enough; omega) rfl, Spot.past_eq_behind,
      Spot.behind_behind]
    rfl

theorem takes_many {set : CharSet} {least : Nat} (members : ∀ c ∈ word, set.has c = true)
    (enough : least ≤ word.length) (stop : ∀ c ∈ rest.head?, set.has c = false) :
    (many set least).Takes before word rest [] := by
  intro s _ hs
  refine ⟨[], ?_, rfl⟩
  rw [runs, hs]
  exact head?_sweep members enough stop hs

theorem Takes.seq (h : p.Takes before word (word' ++ rest) said)
    (h' : q.Takes (word.getLast?.or before) word' rest said') :
    (Pattern.seq p q).Takes before (word ++ word') rest (said' ++ said) := by
  intro s hbefore hs
  obtain ⟨made, hfirst, hmade⟩ := h s hbefore (by rw [hs, List.append_assoc])
  obtain ⟨made', hfirst', hmade'⟩ := h' (s.behind word (word' ++ rest) made)
    (congrArg word.getLast?.or hbefore) rfl
  refine ⟨made' ++ made, ?_, by rw [List.map_append, hmade, hmade']⟩
  obtain ⟨more, hruns⟩ := List.head?_eq_some_iff.mp hfirst
  rw [runs, hruns, List.flatMap_cons, List.head?_append, hfirst', Spot.behind_behind]
  rfl

/-- A sequence takes what its second part takes if its first part takes nothing. -/
theorem Takes.nil_seq (h : p.Takes before [] (word ++ rest) said)
    (h' : q.Takes before word rest said') :
    (Pattern.seq p q).Takes before word rest (said' ++ said) :=
  Takes.seq h h'

/-- A sequence takes what its first part takes if its second part takes nothing. -/
theorem Takes.seq_nil (h : p.Takes before word rest said)
    (h' : q.Takes (word.getLast?.or before) [] rest said') :
    (Pattern.seq p q).Takes before word rest (said' ++ said) := by
  have htakes : (Pattern.seq p q).Takes before (word ++ []) rest (said' ++ said) := Takes.seq h h'
  rwa [List.append_nil] at htakes

theorem Takes.alt (h : p.Takes before word rest said) (q : Pattern) :
    (Pattern.alt p q).Takes before word rest said := by
  intro s hbefore hs
  obtain ⟨made, hfirst, hmade⟩ := h s hbefore hs
  refine ⟨made, ?_, hmade⟩
  rw [runs, List.head?_append, hfirst]
  rfl

/-- Where the preferred alternative cannot be read, the other one is. -/
theorem Takes.alt_right (h : q.Takes before word rest said) (hnil : p.Fails before (word ++ rest)) :
    (Pattern.alt p q).Takes before word rest said := by
  intro s hbefore hs
  obtain ⟨made, hfirst, hmade⟩ := h s hbefore hs
  refine ⟨made, ?_, hmade⟩
  rw [runs, hnil s hbefore hs, List.nil_append, hfirst]

/-- An optional part is read as the part or else as nothing. -/
theorem runs_maybe (p : Pattern) (s : Spot) : (maybe p).runs s = (alt p empty).runs s := rfl

theorem Takes.maybe (h : p.Takes before word rest said) :
    (Pattern.maybe p).Takes before word rest said := by
  intro s
  rw [runs_maybe]
  exact h.alt .empty s

/-- Where the optional part cannot be read, nothing is taken. -/
theorem Fails.maybe (h : p.Fails before rest) : (Pattern.maybe p).Takes before [] rest [] := by
  intro s hbefore hs
  rw [List.nil_append] at hs
  refine ⟨[], ?_, rfl⟩
  rw [runs, h s hbefore hs, Spot.behind_nil hs]
  rfl

theorem Takes.group (h : p.Takes before word rest said) (number : Nat) :
    (Pattern.group number p).Takes before word rest ((number, word) :: said) := by
  intro s hbefore hs
  obtain ⟨made, hfirst, hmade⟩ := h s hbefore hs
  refine ⟨.ofWord number word rest :: made, ?_, by rw [List.map_cons, hmade, Capture.said_ofWord]⟩
  rw [runs, List.head?_map, hfirst]
  simp [Spot.capture, Spot.behind, Capture.ofWord, hs]

theorem takes_edge (h : atWordEdge before rest.head? = true) : edge.Takes before [] rest [] := by
  intro s hbefore hs
  rw [List.nil_append] at hs
  refine ⟨[], ?_, rfl⟩
  rw [runs, hbefore, hs, if_pos h, Spot.behind_nil hs]
  rfl

theorem Fails.here? (h : p.Fails before text) : p.here? before text = none := by
  rw [Pattern.here?, h (.ofText before text) rfl rfl]
  rfl

theorem Takes.here? (h : p.Takes before word rest said) :
    ∃ s, p.here? before (word ++ rest) = some s ∧ s.used = word.length ∧
      s.captures.map Capture.said = said := by
  obtain ⟨made, hfirst, hmade⟩ := h (.ofText before (word ++ rest)) rfl rfl
  refine ⟨_, hfirst, ?_, ?_⟩
  · simp [Spot.behind, Spot.ofText]
  · simpa [Spot.behind, Spot.ofText] using hmade

end

end Pattern

end Tabletop
