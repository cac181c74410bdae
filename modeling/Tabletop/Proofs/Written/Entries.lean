import Tabletop.Proofs.Text.Delimited
import Tabletop.Proofs.Written.Parts

/-!
# What an expression shows

The written form of an expression is a row of entries with a test behind them. Each entry has a
sign, and behind it dice, a number or nothing but marks. The entries are delimited, so the written
form tells which they are. It does not tell which parts they come from: a number behind dice may be
their modifier or a part of its own, and a part without a written form leaves no entry.
-/

namespace Tabletop

open Text

theorem Sign.symbol_injective {s s' : Sign} (h : s.symbol = s'.symbol) : s = s' := by
  revert h
  cases s <;> cases s' <;> decide

theorem Sign.symbol_ne_blank (s : Sign) : s.symbol ≠ ' ' := by cases s <;> decide

theorem Choice.letter_injective {c c' : Choice} (h : c.letter = c'.letter) : c = c' := by
  revert h
  cases c <;> cases c' <;> decide

theorem Extremity.letter_injective {e e' : Extremity} (h : e.letter = e'.letter) : e = e' := by
  revert h
  cases e <;> cases e' <;> decide

namespace Written

/-- What an entry says of the total. -/
inductive Amount where
  | nothing
  | number (n : Nat)
  | dice (count sides : Nat) (rule : Option DropKeep)
  deriving DecidableEq, Repr

namespace Amount

def dieText (die : Nat × Option DropKeep) : Text :=
  'd' :: (Decimal.ofNat die.1 ++ (die.2.map DropKeep.text).getD [])

def text : Amount → Text
  | .nothing => []
  | .number n => Decimal.ofNat n
  | .dice count sides rule => Decimal.ofNat count ++ dieText (sides, rule)

def first? : Amount → Option Nat
  | .nothing => none
  | .number n => some n
  | .dice count _ _ => some count

def die? : Amount → Option (Nat × Option DropKeep)
  | .dice _ sides rule => some (sides, rule)
  | _ => none

theorem text_eq (a : Amount) :
    a.text = (a.first?.map Decimal.ofNat).getD [] ++ (a.die?.map dieText).getD [] := by
  cases a with
  | nothing => rfl
  | number n => exact (List.append_nil _).symm
  | dice count sides rule => rfl

theorem eq_of_first?_of_die? {a b : Amount} (first : a.first? = b.first?) (die : a.die? = b.die?) :
    a = b := by
  cases a <;> cases b <;> simp_all [first?, die?]

end Amount

structure Entry where
  sign : Sign
  amount : Amount
  hunger : Option Nat
  critThreshold : Option Nat
  deriving DecidableEq, Repr

namespace Entry

def body (e : Entry) : Text :=
  e.amount.text ++ (Part.markText " h" e.hunger ++ Part.markText " crit" e.critThreshold)

def text (e : Entry) : Text := e.sign.symbol :: e.body

def opening (e : Entry) : Text := if e.sign = .plus then e.body else e.text

end Entry

theorem Stops.isDigit_eq_false {rest : Text} (h : Stops rest) : ∀ c ∈ rest.head?, ¬ c.isDigit := by
  intro c hc hdigit
  have hnone := isDigit_of_endsWord (h c hc)
  rw [isDigit_of_ascii hdigit] at hnone
  exact absurd hnone (by decide)

/-- A rule for dropping or keeping opens with a letter. -/
theorem delimited_rule :
    Delimited (fun rule : Option DropKeep => (rule.map DropKeep.text).getD []) Stops := by
  have hrule : Delimited DropKeep.text fun rest => ∀ c ∈ rest.head?, ¬ c.isDigit := by
    rintro ⟨choice, extremity, number⟩ ⟨choice', extremity', number'⟩ rest rest' hrest hrest' h
    obtain ⟨hchoice, h⟩ := List.cons.inj h
    obtain ⟨hextremity, h⟩ := List.cons.inj h
    obtain rfl := Choice.letter_injective hchoice
    obtain rfl := Extremity.letter_injective hextremity
    obtain ⟨rfl, hrests⟩ := delimited_ofNat hrest hrest' h
    exact ⟨rfl, hrests⟩
  refine hrule.optional (fun _ => Stops.isDigit_eq_false) fun rule rest hstops => ?_
  have hletter : endsWord rule.choice.letter = true := hstops _ rfl
  cases hchoice : rule.choice <;> rw [hchoice] at hletter <;> exact absurd hletter (by decide)

theorem Amount.delimited_dieText : Delimited Amount.dieText Stops := by
  rintro ⟨sides, rule⟩ ⟨sides', rule'⟩ rest rest' hrest hrest' h
  have hbehind (rule : Option DropKeep) {rest : Text} (hrest : Stops rest) :
      ∀ c ∈ ((rule.map DropKeep.text).getD [] ++ rest).head?, ¬ c.isDigit := by
    cases rule with
    | none => exact hrest.isDigit_eq_false
    | some rule =>
      intro c hc
      obtain rfl : rule.choice.letter = c := Option.some.inj hc
      cases rule.choice <;> decide
  simp only [dieText, List.cons_append, List.append_assoc] at h
  obtain ⟨rfl, hrule⟩ :=
    delimited_ofNat (hbehind rule hrest) (hbehind rule' hrest') (List.cons.inj h).2
  obtain ⟨rfl, hrests⟩ := delimited_rule hrest hrest' hrule
  exact ⟨rfl, hrests⟩

theorem Amount.delimited : Delimited Amount.text Stops := by
  have hfirst : Delimited (fun n : Option Nat => (n.map Decimal.ofNat).getD [])
      fun rest => ∀ c ∈ rest.head?, ¬ c.isDigit := by
    refine delimited_ofNat.optional (fun _ h => h) fun n rest h => ?_
    obtain ⟨c, digits, hdigits, hc⟩ := (Numeral.ofNat n).exists_cons
    rw [Numeral.text_ofNat] at hdigits
    rw [hdigits] at h
    exact h c rfl hc
  have hdie : Delimited (fun die : Option (Nat × Option DropKeep) => (die.map dieText).getD [])
      Stops :=
    delimited_dieText.optional (fun _ h => h) fun die rest h => absurd (h 'd' rfl) (by decide)
  have hbehind (a : Amount) {rest : Text} (hrest : Stops rest) :
      ∀ c ∈ ((a.die?.map dieText).getD [] ++ rest).head?, ¬ c.isDigit := by
    cases a with
    | nothing | number => exact hrest.isDigit_eq_false
    | dice count sides rule =>
      intro c hc
      obtain rfl : 'd' = c := Option.some.inj hc
      decide
  intro a b rest rest' hrest hrest' h
  rw [text_eq, text_eq, List.append_assoc, List.append_assoc] at h
  obtain ⟨hnumber, h⟩ := hfirst (hbehind a hrest) (hbehind b hrest') h
  obtain ⟨hdice, hrests⟩ := hdie hrest hrest' h
  exact ⟨eq_of_first?_of_die? hnumber hdice, hrests⟩

/-- The number behind a mark. -/
theorem delimited_markText (mark : String) :
    Delimited (Part.markText mark) fun rest => Stops rest ∧ ¬ mark.toList <+: rest := by
  refine (delimited_ofNat.behind mark.toList).optional (fun _ h => h.1.isDigit_eq_false)
    fun n rest h => h.2 ?_
  rw [List.append_assoc]
  exact List.prefix_append _ _

/-- What can stand behind an entry: the sign of the next one, a blank that opens no mark, or
nothing. -/
structure EndsEntry (rest : Text) : Prop where
  stops : Stops rest
  hunger : ¬ " h".toList <+: rest
  crit : ¬ " crit".toList <+: rest

theorem stops_markText_append {mark : String} (blank : mark.toList.head? = some ' ')
    (n : Option Nat) {rest : Text} (h : Stops rest) : Stops (Part.markText mark n ++ rest) := by
  cases n with
  | none => exact h
  | some n =>
    obtain ⟨more, hmark⟩ := List.head?_eq_some_iff.mp blank
    rw [Part.markText, Option.map_some, Option.getD_some, hmark]
    exact stops_cons (by decide) _

theorem Entry.delimited : Delimited Entry.text EndsEntry := by
  -- The other mark may come next, but it does not open like this one.
  have hother (n : Option Nat) {rest : Text} (hrest : EndsEntry rest) :
      Stops (Part.markText " crit" n ++ rest) ∧
        ¬ " h".toList <+: Part.markText " crit" n ++ rest := by
    refine ⟨stops_markText_append rfl n hrest.stops, ?_⟩
    cases n with
    | none => exact hrest.hunger
    | some n =>
      intro h
      have hletters := (List.cons_prefix_cons.mp (List.cons_prefix_cons.mp h).2).1
      exact absurd hletters (by decide)
  rintro ⟨sign, amount, hunger, crit⟩ ⟨sign', amount', hunger', crit'⟩ rest rest' hrest hrest' h
  simp only [Entry.text, Entry.body, List.cons_append, List.append_assoc] at h
  obtain ⟨hsign, hamounts⟩ := List.cons.inj h
  obtain rfl := Sign.symbol_injective hsign
  have hcrit := hother crit hrest
  have hcrit' := hother crit' hrest'
  have hblank : " h".toList.head? = some ' ' := rfl
  obtain ⟨rfl, hmarks⟩ := Amount.delimited (stops_markText_append hblank hunger hcrit.1)
    (stops_markText_append hblank hunger' hcrit'.1) hamounts
  obtain ⟨rfl, hlast⟩ := delimited_markText " h" hcrit hcrit' hmarks
  obtain ⟨rfl, hrests⟩ := delimited_markText " crit" ⟨hrest.stops, hrest.crit⟩
    ⟨hrest'.stops, hrest'.crit⟩ hlast
  exact ⟨rfl, hrests⟩

/-- What can stand behind all entries: something that ends an entry and is not the sign of one
more. -/
structure EndsEntries (rest : Text) : Prop extends EndsEntry rest where
  last : ∀ sign : Sign, rest.head? ≠ some sign.symbol

theorem delimited_entries :
    Delimited (fun entries : List Entry => entries.flatMap Entry.text) EndsEntries := by
  refine Entry.delimited.row (fun _ h => h.toEndsEntry) (fun e rest => ?_) fun e rest h =>
    h.last e.sign rfl
  refine ⟨stops_cons (endsWord_symbol _) _, fun h => ?_, fun h => ?_⟩
  · exact e.sign.symbol_ne_blank (List.cons_prefix_cons.mp h).1.symm
  · exact e.sign.symbol_ne_blank (List.cons_prefix_cons.mp h).1.symm

/-- No mark opens like the label of a test. -/
theorem exists_label_eq (t : Test) : ∃ c more, t.label.toList = c :: more ∧ c ≠ 'h' ∧ c ≠ 'c' := by
  let labels := ["vs", "AC", "KAC", "EAC", "DC", "<", ">", "<=", ">=", "==", "!="]
  have hlabel : t.label ∈ labels := by
    rw [Test.label]
    cases t.target <;> cases t.op <;> simp [labels, CompareOp.symbol]
  have hopens : (labels.all fun l => l.toList.head?.any fun c => c != 'h' && c != 'c') = true := by
    decide
  obtain ⟨c, hhead, hc⟩ := (Option.any_eq_true _ _).mp (List.all_eq_true.mp hopens _ hlabel)
  obtain ⟨more, hmore⟩ := List.head?_eq_some_iff.mp hhead
  exact ⟨c, more, hmore, by simpa using hc⟩

/-- A test opens like no mark. -/
theorem endsEntries_testText (t : Option Test) : EndsEntries (Part.testText t) := by
  cases t with
  | none => exact ⟨⟨stops_nil, by decide, by decide⟩, by simp [Part.testText]⟩
  | some t =>
    obtain ⟨c, more, hlabel, hh, hc⟩ := exists_label_eq t
    have htext : ∃ rest, Part.testText (some t) = ' ' :: c :: rest := by
      rw [Part.testText, Option.map_some, Option.getD_some, Test.text, hlabel]
      exact ⟨_, rfl⟩
    obtain ⟨rest, htext⟩ := htext
    rw [htext]
    refine ⟨⟨stops_cons (by decide) _, fun h => ?_, fun h => ?_⟩, fun sign h => ?_⟩
    · exact hh (List.cons_prefix_cons.mp (List.cons_prefix_cons.mp h).2).1.symm
    · exact hc (List.cons_prefix_cons.mp (List.cons_prefix_cons.mp h).2).1.symm
    · exact sign.symbol_ne_blank (Option.some.inj h).symm

/-- The text with the plus sign that the first entry leaves out. -/
def signed (s : Text) : Text :=
  if s.head? = some '-' ∨ s.head? = some '*' then s else '+' :: s

/-- The first entry of an expression is told from the others by its sign alone. -/
theorem signed_itemsText {e : Entry} (shows : e.body ≠ []) (rest : List Entry) (tail : Text) :
    signed (Part.itemsText Entry.opening Entry.text (e :: rest) ++ tail) =
      (e :: rest).flatMap Entry.text ++ tail := by
  rw [Part.itemsText, List.flatMap_cons, List.append_assoc, List.append_assoc, Entry.opening,
    Entry.text]
  cases hsign : e.sign with
  | minus | times => rfl
  | plus =>
    -- Without a sign, an entry opens with a digit or with the blank of a mark.
    have hopens : ∃ c more, e.body = c :: more ∧ c ≠ '-' ∧ c ≠ '*' := by
      have hdigits (n : Nat) (more : Text) :
          ∃ c more', Decimal.ofNat n ++ more = c :: more' ∧ c ≠ '-' ∧ c ≠ '*' := by
        obtain ⟨c, digits, hdigits, hc⟩ := (Numeral.ofNat n).exists_cons
        rw [Numeral.text_ofNat] at hdigits
        refine ⟨c, digits ++ more, by rw [hdigits]; rfl, ?_, ?_⟩
        · rintro rfl
          exact absurd hc (by decide)
        · rintro rfl
          exact absurd hc (by decide)
      rw [Entry.body] at shows ⊢
      cases hamount : e.amount with
      | number n => exact hdigits n _
      | dice count sides rule =>
        rw [Amount.text, List.append_assoc]
        exact hdigits count _
      | nothing =>
        cases hhunger : e.hunger with
        | some n => exact ⟨' ', _, rfl, by decide, by decide⟩
        | none =>
          cases hcrit : e.critThreshold with
          | some n => exact ⟨' ', _, rfl, by decide, by decide⟩
          | none => exact absurd (by rw [hamount, hhunger, hcrit]; rfl) shows
    obtain ⟨c, more, hbody, hminus, htimes⟩ := hopens
    simp [hbody, signed, hminus, htimes, Sign.symbol]

/-- The written form of an expression tells its entries and its test. -/
theorem itemsText_injective {es es' : List Entry} {t t' : Option Test}
    (shows : ∀ e ∈ es, e.body ≠ []) (shows' : ∀ e ∈ es', e.body ≠ [])
    (tested : es = [] → t = none) (tested' : es' = [] → t' = none)
    (same : Part.itemsText Entry.opening Entry.text es ++ Part.testText t =
      Part.itemsText Entry.opening Entry.text es' ++ Part.testText t') :
    es = es' ∧ Part.testText t = Part.testText t' := by
  have hnil {es : List Entry} {t : Option Test} (shows : ∀ e ∈ es, e.body ≠ [])
      (h : Part.itemsText Entry.opening Entry.text es ++ Part.testText t = []) : es = [] := by
    cases es with
    | nil => rfl
    | cons e rest =>
      have hopening : e.opening ≠ [] := by
        rw [Entry.opening]
        split
        · exact shows e List.mem_cons_self
        · exact List.cons_ne_nil _ _
      rw [List.append_eq_nil_iff, Part.itemsText, List.append_eq_nil_iff] at h
      exact absurd h.1.1 hopening
  cases es with
  | nil =>
    obtain rfl := tested rfl
    obtain rfl := hnil shows' same.symm
    exact ⟨rfl, by rw [tested' rfl]⟩
  | cons e rest =>
    cases es' with
    | nil =>
      obtain rfl := tested' rfl
      exact absurd (hnil shows same) (List.cons_ne_nil _ _)
    | cons e' rest' =>
      have hsigned := congrArg signed same
      rw [signed_itemsText (shows e List.mem_cons_self),
        signed_itemsText (shows' e' List.mem_cons_self)] at hsigned
      exact delimited_entries (endsEntries_testText t) (endsEntries_testText t') hsigned

end Written

open Written

namespace Part

def diceAmount (p : Part) : Amount := .dice p.count p.sides p.dropKeep

/-- The entries that a part is written as: its dice, with an entry for the modifier behind them, or
a number, or marks alone. The marks go with the last one. -/
def entries (p : Part) : List Entry :=
  if p.sides = 0 then
    if p.isWritten then
      [⟨p.shownSign, if p.modifier = 0 then .nothing else .number p.modifier.natAbs, p.hunger,
        p.critThreshold⟩]
    else []
  else if p.modifier = 0 then [⟨p.sign, p.diceAmount, p.hunger, p.critThreshold⟩]
  else
    [⟨p.sign, p.diceAmount, none, none⟩,
      ⟨if p.modifier < 0 then .minus else .plus, .number p.modifier.natAbs, p.hunger,
        p.critThreshold⟩]

variable {p : Part}

theorem isWritten_iff_entries : p.isWritten = true ↔ p.entries ≠ [] := by
  rw [entries]
  by_cases hsides : p.sides = 0
  · by_cases hwritten : p.isWritten = true <;> simp [hsides, hwritten]
  · have hwritten : p.isWritten = true := by simp [isWritten, Nat.pos_of_ne_zero hsides]
    by_cases hmodifier : p.modifier = 0 <;> simp [hsides, hmodifier, hwritten]

/-- The first entry of a part has the sign that the part is written with. -/
theorem text_eq_entries {e : Entry} {more : List Entry} (h : p.entries = e :: more) :
    p.shownSign = e.sign ∧ p.text = e.body ++ more.flatMap Entry.text := by
  rw [entries] at h
  split at h
  · next hsides =>
    split at h
    · obtain ⟨rfl, rfl⟩ := List.cons.inj h
      refine ⟨rfl, ?_⟩
      rw [text, if_neg (by omega), Entry.body, List.flatMap_nil, List.append_nil, List.append_assoc]
      congr 1
      by_cases hmodifier : p.modifier = 0 <;> simp [hmodifier, Amount.text]
    · cases h
  · next hsides =>
    have hsign : p.shownSign = p.sign := if_neg fun hflat => hsides hflat.1
    split at h
    · next hmodifier =>
      obtain ⟨rfl, rfl⟩ := List.cons.inj h
      refine ⟨hsign, ?_⟩
      rw [text, if_pos (Nat.pos_of_ne_zero hsides), diceText, hmodifier]
      simp [Entry.body, diceAmount, Amount.text, Amount.dieText, modifierText]
    · next hmodifier =>
      obtain ⟨rfl, rfl⟩ := List.cons.inj h
      refine ⟨hsign, ?_⟩
      rw [text, if_pos (Nat.pos_of_ne_zero hsides), diceText, modifierText_of_ne_zero hmodifier]
      simp [Entry.body, Entry.text, diceAmount, Amount.text, Amount.dieText, markText]

/-- Every entry shows something besides its sign. -/
theorem body_ne_nil_of_mem_entries {e : Entry} (h : e ∈ p.entries) : e.body ≠ [] := by
  have hnumber (n : Nat) (more : Text) : Decimal.ofNat n ++ more ≠ [] :=
    List.append_ne_nil_of_left_ne_nil (Decimal.ofNat_ne_nil n) more
  have hdice (sign : Sign) (hunger crit : Option Nat) :
      Entry.body ⟨sign, p.diceAmount, hunger, crit⟩ ≠ [] := by
    rw [Entry.body, diceAmount, Amount.text, List.append_assoc]
    exact hnumber p.count _
  rw [entries] at h
  split at h
  · next hsides =>
    split at h
    · next hwritten =>
      rw [List.mem_singleton.mp h, Entry.body]
      by_cases hmodifier : p.modifier = 0
      · cases hhunger : p.hunger with
        | some n => simp [hmodifier, Amount.text, markText]
        | none =>
          cases hcrit : p.critThreshold with
          | some n => simp [hmodifier, Amount.text, markText]
          | none => simp [isWritten, hsides, hmodifier, hhunger, hcrit] at hwritten
      · rw [if_neg hmodifier]
        exact hnumber _ _
    · simp at h
  · split at h
    · rw [List.mem_singleton.mp h]
      exact hdice _ _ _
    · rcases List.mem_cons.mp h with rfl | h
      · exact hdice _ _ _
      · rw [List.mem_singleton.mp h]
        exact hnumber _ _

/-- The written form of parts is that of their entries. -/
theorem termsText_eq_entries (parts : List Part) :
    termsText (parts.filter isWritten) =
      itemsText Entry.opening Entry.text (parts.flatMap entries) := by
  refine termsText_eq_itemsText (fun p _ => isWritten_iff_entries) fun p _ e more hentries => ?_
  obtain ⟨hsign, htext⟩ := text_eq_entries hentries
  have hsigned : p.signedText = e.text ++ more.flatMap Entry.text := by
    rw [signedText, hsign, htext]
    rfl
  refine ⟨?_, hsigned⟩
  rw [hsign, htext, hsigned, Entry.opening]
  split <;> rfl

end Part

namespace Dice

def entries (d : Dice) : List Entry := d.parts.flatMap Part.entries

/-- Expressions with the same written form have the same entries. An expression with a test must
have dice, as all do that were asked for. -/
theorem entries_eq_of_text_eq {d d' : Dice}
    (tested : d.test?.isSome → ∃ p ∈ d.parts, 0 < p.sides)
    (tested' : d'.test?.isSome → ∃ p ∈ d'.parts, 0 < p.sides) (same : d.text = d'.text) :
    d.entries = d'.entries := by
  have hwritten {d : Dice} (tested : d.test?.isSome → ∃ p ∈ d.parts, 0 < p.sides)
      (h : d.test?.isSome) : ∃ p ∈ d.parts, p.isWritten = true := by
    obtain ⟨p, hp, hsides⟩ := tested h
    exact ⟨p, hp, by simp [Part.isWritten, hsides]⟩
  have htext {d : Dice} (tested : d.test?.isSome → ∃ p ∈ d.parts, 0 < p.sides) :
      d.text = Part.itemsText Entry.opening Entry.text d.entries ++ Part.testText d.test? := by
    rw [text, Part.expressionText_of_isWritten fun h => List.any_eq_true.mpr (hwritten tested h),
      Part.termsText_eq_entries]
    rfl
  have hshows (d : Dice) : ∀ e ∈ d.entries, e.body ≠ [] := by
    intro e he
    obtain ⟨p, -, he⟩ := List.mem_flatMap.mp he
    exact Part.body_ne_nil_of_mem_entries he
  have htested {d : Dice} (tested : d.test?.isSome → ∃ p ∈ d.parts, 0 < p.sides)
      (h : d.entries = []) : d.test? = none := by
    cases htest : d.test? with
    | none => rfl
    | some t =>
      obtain ⟨p, hp, hshown⟩ := hwritten tested (by simp [htest])
      exact absurd (List.flatMap_eq_nil_iff.mp h p hp) (Part.isWritten_iff_entries.mp hshown)
  rw [htext tested, htext tested'] at same
  exact (itemsText_injective (hshows d) (hshows d') (htested tested) (htested tested') same).1

end Dice

end Tabletop
