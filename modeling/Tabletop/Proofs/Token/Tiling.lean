import Tabletop.Proofs.Token.Hits

/-!
# Tokens fill a command

The tokens of a command stand one behind the other and leave nothing out, whatever the rules and
whatever finds their matches, as long as a match lies within the text that is read. What the scanner
remembers of a search then lies within the command and is used only while it begins behind the
cursor, so the match that it picks lies within the text at the cursor. As a hit has a character,
each round of the scanner leaves less text, and there are at most as many tokens as characters.
-/

namespace Tabletop

theorem Pattern.staysWithin (p : Pattern) : Matcher.StaysWithin p where
  here h := by
    obtain ⟨s, hs, rfl⟩ := Option.map_eq_some_iff.mp h
    simpa [Found.atOnce] using (used_of_here? hs).2
  search h := (bounds_of_search h).2.1

namespace Token

variable {μ : Type} [Matcher μ]

/-- The tokens stand one behind the other in a text that begins at a byte of the command, and
nothing of the text is left out. -/
inductive Tiles : Nat → Text → List Token → Prop
  | nil (start : Nat) : Tiles start [] []
  | cons {t : Token} {rest : Text} {tokens : List Token} (nonempty : t.raw ≠ [])
    (behind : Tiles t.stop rest tokens) : Tiles t.start (t.raw ++ rest) (t :: tokens)

namespace Tiles

variable {start : Nat} {text : Text} {tokens : List Token}

theorem singleton {t : Token} (nonempty : t.raw ≠ []) : Tiles t.start t.raw [t] := by
  have h : Tiles t.start (t.raw ++ []) [t] := .cons nonempty (.nil t.stop)
  rwa [List.append_nil] at h

/-- Tokens that fill a text are no more than its characters. -/
theorem length_le (h : Tiles start text tokens) : tokens.length ≤ text.length := by
  induction h with
  | nil => exact Nat.le_refl 0
  | cons nonempty _ ih =>
    have hpos := List.length_pos_iff.mpr nonempty
    rw [List.length_cons, List.length_append]
    omega

/-- A token begins and ends between characters and holds what stands there. -/
theorem exists_split (h : Tiles start text tokens) :
    ∀ t ∈ tokens, ∃ before after, text = before ++ t.raw ++ after ∧
      t.start = start + before.byteSize ∧ t.stop = start + (before ++ t.raw).byteSize := by
  induction h with
  | nil => simp
  | @cons t rest tokens _ _ ih =>
    refine List.forall_mem_cons.mpr ⟨⟨[], rest, rfl, rfl, rfl⟩, fun u hu => ?_⟩
    obtain ⟨before, after, hrest, hstart, hstop⟩ := ih u hu
    refine ⟨t.raw ++ before, after, by rw [hrest]; simp only [List.append_assoc], ?_, ?_⟩
    · rw [hstart, stop, Text.byteSize_append, Nat.add_assoc]
    · rw [hstop, stop, List.append_assoc, Text.byteSize_append t.raw, Nat.add_assoc]

end Tiles

namespace Hit

/-- The tokens up to the end of a hit, with tokens for what is left behind it. -/
theorem tiles_tokens {c : Hit μ} {text : Text} (nonempty : text ≠ [])
    (fits : c.found.skipped + c.found.length ≤ text.length) (fallback : Kind) {start : Nat}
    {more : List Token} (behind : Tiles (c.stop text start) (c.after text) more) :
    Tiles start text (c.tokens fallback text start ++ more) := by
  have hsplit : text.take c.found.skipped ++ ((c.token text start).raw ++ c.after text) = text := by
    rw [token, after, ← List.drop_drop, List.take_append_drop, List.take_append_drop]
  have htaken : text.take c.found.skipped ++ (c.token text start).raw =
      text.take (c.found.skipped + c.found.length) := List.take_add.symm
  have hraw : (c.token text start).raw ≠ [] := by
    have := c.nonempty
    rw [← List.length_pos_iff, token, List.length_take, List.length_drop]
    omega
  have hstop : (c.token text start).stop = c.stop text start := by
    rw [Token.stop, stop, ← htaken, Text.byteSize_append, ← Nat.add_assoc]
    rfl
  have hhit : Tiles (c.token text start).start ((c.token text start).raw ++ c.after text)
      (c.token text start :: more) := .cons hraw (hstop ▸ behind)
  rw [tokens]
  split
  · next hskipped =>
    rw [hskipped, List.take_zero, List.nil_append] at hsplit
    rw [hsplit] at hhit
    have hstart : (c.token text start).start = start := by simp [token, hskipped]
    rwa [hstart] at hhit
  · next hskipped =>
    have hbefore : text.take c.found.skipped ≠ [] := by simp [nonempty, hskipped]
    have hall : Tiles start
        (text.take c.found.skipped ++ ((c.token text start).raw ++ c.after text))
        (.unmatched fallback (text.take c.found.skipped) start :: c.token text start :: more) :=
      .cons (t := .unmatched fallback (text.take c.found.skipped) start) hbefore hhit
    rwa [hsplit] at hall

theorem fits_of_here? {rule : RuleOf μ} (within : Matcher.StaysWithin rule.pattern) {text : Text}
    {c : Hit μ} (h : here? rule text = some c) :
    c.found.skipped + c.found.length ≤ text.length := by
  exact within.here (here?_eq_some_iff.mp h).2

/-- A hit moves the cursor and leaves less text behind it, but the command ends where it did. -/
theorem cursor_add_length_after (c : Hit μ) {text : Text}
    (h : c.found.skipped + c.found.length ≤ text.length) (cursor : Nat) :
    cursor + c.found.skipped + c.found.length + (c.after text).length = cursor + text.length := by
  rw [after, List.length_drop]
  omega

end Hit

namespace Ahead

/-- The remembered match ends within the first `limit` characters of the command. -/
def EndsBy (a : Ahead) (limit : Nat) : Prop :=
  ∀ origin found, a = .known origin found → origin + found.skipped + found.length ≤ limit

/-- A remembered match that can be used begins behind the cursor or was found from there. -/
def IsFresh (a : Ahead) (cursor : Nat) : Prop :=
  ∀ origin found, a = .known origin found → cursor ≤ origin + found.skipped

theorem ofSearch_eq_known {rule : RuleOf μ} {cursor origin : Nat} {text : Text} {found : Found}
    (h : ofSearch rule cursor text = .known origin found) :
    origin = cursor ∧ Matcher.search? rule.pattern text = some found := by
  rw [ofSearch] at h
  split at h
  · next hfound =>
    cases h
    exact ⟨rfl, hfound⟩
  · cases h

theorem endsBy_ofSearch {rule : RuleOf μ} (within : Matcher.StaysWithin rule.pattern) (cursor : Nat)
    (text : Text) : (ofSearch rule cursor text).EndsBy (cursor + text.length) := by
  intro origin found h
  obtain ⟨rfl, hfound⟩ := ofSearch_eq_known h
  have hfits := within.search hfound
  omega

theorem isFresh_ofSearch (rule : RuleOf μ) (cursor : Nat) (text : Text) :
    (ofSearch rule cursor text).IsFresh cursor := by
  intro origin found h
  obtain ⟨rfl, -⟩ := ofSearch_eq_known h
  exact Nat.le_add_right _ _

/-- A match is searched for again, or it is kept and begins behind the cursor. -/
theorem refresh_spec {a : Ahead} {cursor : Nat} {text : Text}
    (h : a.EndsBy (cursor + text.length)) {rule : RuleOf μ}
    (within : Matcher.StaysWithin rule.pattern) :
    (a.refresh rule cursor text).EndsBy (cursor + text.length) ∧
      (a.refresh rule cursor text).IsFresh cursor := by
  have searched : (ofSearch rule cursor text).EndsBy (cursor + text.length) ∧
      (ofSearch rule cursor text).IsFresh cursor :=
    ⟨endsBy_ofSearch within cursor text, isFresh_ofSearch rule cursor text⟩
  cases a with
  | unknown => exact searched
  | nowhere => exact ⟨h, nofun⟩
  | known origin found =>
    rw [refresh]
    split
    · exact searched
    · next hbehind =>
      refine ⟨h, fun origin' found' hknown => ?_⟩
      cases hknown
      omega

theorem fits_of_hit? {a : Ahead} {rule : RuleOf μ} {cursor length : Nat} {c : Hit μ}
    (ends : a.EndsBy (cursor + length)) (fresh : a.IsFresh cursor)
    (h : a.hit? rule cursor = some c) : c.found.skipped + c.found.length ≤ length := by
  cases a with
  | unknown | nowhere => cases h
  | known origin found =>
    have hends := ends origin found rfl
    have hfresh := fresh origin found rfl
    rw [(Hit.of?_eq_some_iff.mp h).2]
    simp only
    omega

end Ahead

/-- Before its first search the scanner remembers nothing. -/
theorem endsBy_unknown (rules : List (RuleOf μ)) (limit : Nat) :
    ∀ a ∈ rules.map fun _ => Ahead.unknown, a.EndsBy limit := by
  intro a ha
  obtain ⟨rule, -, rfl⟩ := List.mem_map.mp ha
  exact nofun

/-- One round of the scanner: the hit that it picks lies within the text at the cursor, and what it
remembers still lies within the command. -/
theorem nextHit_fits {rules : List (RuleOf μ)}
    (within : ∀ rule ∈ rules, Matcher.StaysWithin rule.pattern) {ahead : List Ahead} {cursor : Nat}
    {text : Text} (h : ∀ a ∈ ahead, a.EndsBy (cursor + text.length)) :
    (∀ c ∈ (nextHit rules ahead cursor text).1, c.found.skipped + c.found.length ≤ text.length) ∧
      ∀ a ∈ (nextHit rules ahead cursor text).2, a.EndsBy (cursor + text.length) := by
  rw [nextHit]
  split
  · next c hc =>
    obtain ⟨rule, hrule, hhere⟩ := List.exists_of_findSome?_eq_some hc
    exact ⟨fun c' hc' => Option.some.inj hc' ▸ Hit.fits_of_here? (within rule hrule) hhere, h⟩
  · have hrefreshed : ∀ a ∈ rules.zipWith (fun rule a => a.refresh rule cursor text) ahead,
        a.EndsBy (cursor + text.length) ∧ a.IsFresh cursor := by
      intro a ha
      rw [← List.map_uncurry_zip_eq_zipWith] at ha
      obtain ⟨⟨rule, old⟩, hmem, rfl⟩ := List.mem_map.mp ha
      obtain ⟨hrule, hold⟩ := List.of_mem_zip hmem
      exact Ahead.refresh_spec (h old hold) (within rule hrule)
    refine ⟨fun c hc => ?_, fun a ha => (hrefreshed a ha).1⟩
    obtain ⟨⟨rule, a⟩, hmem, hhit⟩ := List.mem_filterMap.mp (Hit.mem_of_leftmost? hc)
    obtain ⟨ends, fresh⟩ := hrefreshed a (List.of_mem_zip hmem).2
    exact Ahead.fits_of_hit? ends fresh hhit

/-- Wherever the scanner stands, its tokens fill the text at the cursor. -/
theorem tiles_scan {rules : List (RuleOf μ)}
    (within : ∀ rule ∈ rules, Matcher.StaysWithin rule.pattern) (fallback : Kind)
    {ahead : List Ahead} {cursor start : Nat} {text : Text}
    (h : ∀ a ∈ ahead, a.EndsBy (cursor + text.length)) :
    Tiles start text (scan rules fallback ahead cursor start text) := by
  induction hn : text.length using Nat.strongRecOn generalizing ahead cursor start text with
  | ind n ih =>
    rw [scan]
    by_cases hnil : text = []
    · rw [dif_pos hnil, hnil]
      exact .nil start
    · rw [dif_neg hnil]
      obtain ⟨hfits, hkeep⟩ := nextHit_fits within h
      split
      · exact .singleton (t := .unmatched fallback text start) hnil
      · next c ahead' hnext =>
        rw [hnext] at hfits hkeep
        have hend := hfits c rfl
        refine Hit.tiles_tokens hnil hend fallback (ih _ (hn ▸ c.after_lt hnil) ?_ rfl)
        rwa [c.cursor_add_length_after hend]

/-- Characters of one sort: one or more of them, as many as stand together. -/
structure Stretch where
  has : Char → Bool

namespace Stretch

def span (p : Stretch) (s : Text) : Nat := (s.takeWhile p.has).length

/-- The stretch that begins behind some characters of a text, if there is one. -/
def from? (p : Stretch) (skipped : Nat) (s : Text) : Option Found :=
  if 0 < p.span (s.drop skipped) then some ⟨skipped, p.span (s.drop skipped), []⟩ else none

instance : Matcher Stretch where
  here? p := p.from? 0
  search? p s := p.from? (s.takeWhile fun c => !p.has c).length s
  groups _ := 0

theorem fits_of_from? {p : Stretch} {skipped : Nat} {s : Text} {found : Found}
    (h : p.from? skipped s = some found) : found.skipped + found.length ≤ s.length := by
  rw [from?] at h
  split at h
  · next hpos =>
    cases h
    have hspan : p.span (s.drop skipped) ≤ (s.drop skipped).length :=
      (List.takeWhile_sublist _).length_le
    rw [List.length_drop] at hspan
    simp only
    omega
  · cases h

theorem staysWithin (p : Stretch) : Matcher.StaysWithin p := ⟨fits_of_from?, fits_of_from?⟩

end Stretch

/-- A rule of the notation's own language that matches nothing but word edges makes no token, and
bytes are counted. -/
example :
    let rules : List Rule := [⟨.crit, .edge, by decide⟩, .dice]
    (tokenize rules .description "né 2d6".toList).map
        (fun t => (t.kind, t.raw, t.start, t.stop)) =
      [(.description, "né ".toList, 0, 4), (.dice, "2d6".toList, 4, 7)] := by decide +kernel

end Token

end Tabletop
