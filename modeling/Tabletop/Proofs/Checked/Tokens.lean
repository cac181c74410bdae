import Tabletop.Proofs.Checked.Numbers
import Tabletop.Proofs.Token.Tiling

/-!
# Checked places in a command

The scanner counts where matches begin and end and cuts the text there. With checks it counts and
cuts the same, because what it remembers and what it picks lies within the command.
-/

namespace Tabletop

namespace Text

/-- A text has no more characters than bytes. -/
theorem length_le_byteSize (s : Text) : s.length ≤ s.byteSize := by
  induction s with
  | nil => exact Nat.le_refl 0
  | cons c rest ih =>
    have := c.utf8Size_pos
    rw [List.length_cons, byteSize_cons]
    omega

end Text

namespace Token

open Checked

/-- The place at which the text behind a hit begins, where the hit lies within the text. -/
def Hit.stop? (c : Hit Pattern) (text : Text) (start : Nat) : Option Nat := do
  let taken ← take? (c.found.skipped + c.found.length) text
  place? (start + Text.byteSize taken)

def Ahead.place? : Ahead → Option (Option Nat)
  | .known origin found => (Checked.place? (origin + found.skipped)).map some
  | _ => some none

/-- Cuts the text at the cursor into tokens, with a check of every place. -/
def scan? (rules : List Rule) (fallback : Kind) (ahead : List Ahead) (cursor start : Nat)
    (text : Text) : Option (List Token) :=
  if _h : text = [] then some []
  else
    match nextHit rules ahead cursor text with
    | (none, ahead) => do
      let _ ← ahead.mapM Ahead.place?
      some [.unmatched fallback text start]
    | (some c, ahead) => do
      let _ ← ahead.mapM Ahead.place?
      let stop ← c.stop? text start
      let behind ← scan? rules fallback ahead (cursor + c.found.skipped + c.found.length) stop
        (c.after text)
      some (c.tokens fallback text start ++ behind)
termination_by text.length
decreasing_by exact c.after_lt ‹_›

def tokenize? (rules : List Rule) (fallback : Kind) (text : Text) : Option (List Token) :=
  scan? rules fallback (rules.map fun _ => .unknown) 0 0 text

theorem Hit.stop_add_byteSize_after (c : Hit Pattern) (text : Text) (start : Nat) :
    c.stop text start + (c.after text).byteSize = start + text.byteSize := by
  rw [stop, after, Nat.add_assoc, ← Text.byteSize_append, List.take_append_drop]

theorem Hit.stop?_eq {c : Hit Pattern} {text : Text} {start : Nat}
    (fits : c.found.skipped + c.found.length ≤ text.length)
    (short : start + text.byteSize ≤ greatestPlace) :
    c.stop? text start = some (c.stop text start) := by
  have hwhole := c.stop_add_byteSize_after text start
  rw [stop?, take?_of_le fits]
  exact place?_of_le (Nat.le_trans (Nat.le.intro hwhole) short)

theorem mapM_place?_isSome {ahead : List Ahead} {limit : Nat}
    (h : ∀ a ∈ ahead, a.EndsBy limit) (short : limit ≤ greatestPlace) :
    ∃ places, ahead.mapM Ahead.place? = some places := by
  refine ⟨_, mapM_eq_some (g := fun
    | .known origin found => some (origin + found.skipped)
    | _ => none) fun a ha => ?_⟩
  cases a with
  | unknown | nowhere => rfl
  | known origin found =>
    have hends := h _ ha origin found rfl
    rw [Ahead.place?, place?_of_le (by omega)]
    rfl

/-- Wherever the scanner stands in a command that can be counted, the checks change nothing. -/
theorem scan?_eq (rules : List Rule) (fallback : Kind) {ahead : List Ahead} {cursor start : Nat}
    {text : Text} (h : ∀ a ∈ ahead, a.EndsBy (cursor + text.length))
    (length : cursor + text.length ≤ greatestPlace)
    (size : start + text.byteSize ≤ greatestPlace) :
    scan? rules fallback ahead cursor start text =
      some (scan rules fallback ahead cursor start text) := by
  induction hn : text.length using Nat.strongRecOn generalizing ahead cursor start text with
  | ind n ih =>
    rw [scan?, scan]
    by_cases hnil : text = []
    · rw [dif_pos hnil, dif_pos hnil]
    · rw [dif_neg hnil, dif_neg hnil]
      obtain ⟨hfits, hkeep⟩ := nextHit_fits (fun rule _ => Pattern.staysWithin rule.pattern) h
      obtain ⟨places, hplaces⟩ := mapM_place?_isSome hkeep length
      cases hnext : nextHit rules ahead cursor text with
      | mk pick ahead' =>
        rw [hnext] at hfits hkeep hplaces
        cases pick with
        | none => simp only [hplaces, Option.bind_eq_bind, Option.bind_some]
        | some c =>
          have hend := hfits c rfl
          have hlength := c.cursor_add_length_after hend cursor
          have hmore := ih _ (hn ▸ c.after_lt hnil) (hlength ▸ hkeep) (hlength ▸ length)
            ((c.stop_add_byteSize_after text start).symm ▸ size) rfl
          simp only [hplaces, Hit.stop?_eq hend size, hmore, Option.bind_eq_bind,
            Option.bind_some]

theorem tokenize?_eq {text : Text} (short : text.byteSize ≤ greatestPlace) (rules : List Rule)
    (fallback : Kind) : tokenize? rules fallback text = some (tokenize rules fallback text) := by
  refine scan?_eq rules fallback (endsBy_unknown rules _) ?_ ?_
  · rw [Nat.zero_add]
    exact Nat.le_trans text.length_le_byteSize short
  · rwa [Nat.zero_add]

end Token

end Tabletop
