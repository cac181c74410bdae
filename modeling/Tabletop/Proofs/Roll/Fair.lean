import Mathlib.Algebra.Order.Floor.Div
import Mathlib.Data.Finset.Card
import Mathlib.Order.Interval.Finset.Nat
import Tabletop.Proofs.Roll.Lawful

/-!
# Fair dice

A zone that is a multiple of the number of choices, less one, uses as many words for each choice:
the words that stand for one choice are neighbours, and how many of them have a low half within the
zone is the same wherever they begin. Both zones are of that kind, the one for a single die and the
one for a series. A draw takes the first word that is used, and a series takes such words one after
the other. When the words have run out, zeros follow, and those are used, so every draw comes to an
end.
-/

namespace Tabletop

/-- A series rolls the first die and then the rest. -/
theorem Roller.repeated_succ {ρ : Type} (draw : ρ → Nat × ρ) (count : Nat) (r : ρ) :
    repeated draw (count + 1) r =
      ((draw r).1 :: (repeated draw count (draw r).2).1, (repeated draw count (draw r).2).2) := by
  have hrest : each (fun _ r => draw r) ((List.range count).map Nat.succ) (draw r).2 =
      ((repeated draw count (draw r).2).1.map id, (repeated draw count (draw r).2).2) :=
    each_map (fun _ _ => rfl) (List.range count) (draw r).2
  rw [List.map_id] at hrest
  simp only [repeated, List.range_succ_eq_map, each] at hrest ⊢
  rw [hrest]

namespace Words

section Zones

variable {size : Nat}

/-- Shifted to the left by the zeros before it, a number still fits into a word. -/
theorem mul_two_pow_leadingZeros_le (pos : 0 < size) (le : size ≤ maxCount) :
    size * 2 ^ leadingZeros size ≤ wordCount := by
  have hlog : size.log2 < 32 := (Nat.log2_lt pos.ne').mpr (Nat.lt_of_le_of_lt le (by decide))
  have hfull : size.log2 + 1 + leadingZeros size = 32 := by
    rw [leadingZeros]
    omega
  calc size * 2 ^ leadingZeros size ≤ 2 ^ (size.log2 + 1) * 2 ^ leadingZeros size :=
        Nat.mul_le_mul_right _ Nat.lt_log2_self.le
    _ = 2 ^ 32 := by rw [← Nat.pow_add, hfull]
    _ = wordCount := rfl

theorem singleZone_add_one (pos : 0 < size) :
    singleZone size + 1 = size * 2 ^ leadingZeros size := by
  rw [singleZone, Nat.shiftLeft_eq]
  exact Nat.sub_add_cancel (Nat.mul_pos pos (Nat.two_pow_pos _))

theorem seriesZone_add_one (pos : 0 < size) (le : size ≤ maxCount) :
    seriesZone size + 1 = size * (wordCount / size) := by
  have hle : size ≤ wordCount := le.trans (by decide)
  have hrest : (wordCount - size) % size = wordCount % size := (Nat.mod_eq_sub_mod hle).symm
  have hlt := Nat.mod_lt wordCount pos
  have hsplit := Nat.div_add_mod wordCount size
  rw [seriesZone, hrest]
  omega

end Zones

/-- Each of the `size` choices from `low` on comes out of `share` of the words that a zone lets
pass, and no other choice does. -/
structure IsFair (zone low size share : Nat) : Prop where
  pos : 0 < share
  range : ∀ word < wordCount, accepts zone size word = true →
    low ≤ choice low size word ∧ choice low size word < low + size
  shares : ∀ n, low ≤ n → n < low + size →
    ((Finset.range wordCount).filter fun word =>
      accepts zone size word = true ∧ choice low size word = n).card = share

section Shares

variable {zone low size share : Nat}

/-- A choice comes out of the words whose products lie within the zone behind the lowest product
that stands for the choice. -/
theorem accepts_and_choice_iff (zone_eq : zone + 1 = size * share)
    (room : size * share ≤ wordCount) {n word : Nat} :
    accepts zone size word = true ∧ choice low size word = low + n ↔
      n * wordCount ≤ size * word ∧ size * word < n * wordCount + size * share := by
  have hsplit := Nat.div_add_mod' (word * size) wordCount
  have hlt := Nat.mod_lt (word * size) (show 0 < wordCount by decide)
  rw [accepts, decide_eq_true_eq, choice, Nat.add_left_cancel_iff, Nat.mul_comm size word]
  constructor
  · rintro ⟨hzone, rfl⟩
    omega
  · rintro ⟨hlow, hhigh⟩
    have hn : word * size / wordCount = n :=
      Nat.div_eq_of_lt_le hlow (by rw [Nat.succ_mul]; omega)
    rw [hn] at hsplit
    exact ⟨by omega, hn⟩

/-- The multiples of a number that lie in a stretch `share` times as long as the number are `share`
neighbouring ones, wherever the stretch begins. -/
theorem mul_between_iff (pos : 0 < size) {start word : Nat} :
    start ≤ size * word ∧ size * word < start + size * share ↔
      start ⌈/⌉ size ≤ word ∧ word < start ⌈/⌉ size + share := by
  rw [ceilDiv_le_iff_le_mul pos]
  refine and_congr_right fun _ => ?_
  by_cases hword : word < share
  · have hmul := Nat.mul_lt_mul_of_pos_left hword pos
    exact iff_of_true (by omega) (by omega)
  · obtain ⟨rest, rfl⟩ := Nat.exists_eq_add_of_le (Nat.not_lt.mp hword)
    have hceil : start ⌈/⌉ size ≤ rest ↔ start ≤ size * rest := ceilDiv_le_iff_le_mul pos
    rw [Nat.mul_add]
    omega

/-- A zone that is a multiple of the number of choices, less one, is fair. -/
theorem IsFair.of_multiple (pos : 0 < size) (share_pos : 0 < share)
    (zone_eq : zone + 1 = size * share) (room : size * share ≤ wordCount) (low : Nat) :
    IsFair zone low size share where
  pos := share_pos
  range _ hword _ := choice_bounds pos hword low
  shares m hlow hhigh := by
    obtain ⟨n, rfl⟩ := Nat.exists_eq_add_of_le hlow
    have hn : n + 1 ≤ size := by omega
    have hends : n * wordCount + size * share ≤ size * wordCount :=
      calc n * wordCount + size * share ≤ (n + 1) * wordCount := by rw [Nat.succ_mul]; omega
        _ ≤ size * wordCount := Nat.mul_le_mul_right _ hn
    have hwords : (Finset.range wordCount).filter (fun word =>
          accepts zone size word = true ∧ choice low size word = low + n) =
        Finset.Ico (n * wordCount ⌈/⌉ size) (n * wordCount ⌈/⌉ size + share) := by
      ext word
      rw [Finset.mem_filter, Finset.mem_range, accepts_and_choice_iff zone_eq room,
        mul_between_iff pos, Finset.mem_Ico]
      refine and_iff_right_of_imp fun hword => ?_
      have hlt := ((mul_between_iff pos).mpr hword).2.trans_le hends
      exact Nat.lt_of_mul_lt_mul_left hlt
    rw [hwords, Nat.card_Ico, Nat.add_sub_cancel_left]

theorem isFair_singleZone (pos : 0 < size) (le : size ≤ maxCount) (low : Nat) :
    IsFair (singleZone size) low size (2 ^ leadingZeros size) :=
  .of_multiple pos (Nat.two_pow_pos _) (singleZone_add_one pos)
    (mul_two_pow_leadingZeros_le pos le) low

theorem isFair_seriesZone (pos : 0 < size) (le : size ≤ maxCount) (low : Nat) :
    IsFair (seriesZone size) low size (wordCount / size) :=
  .of_multiple pos (Nat.div_pos (le.trans (by decide)) pos) (seriesZone_add_one pos le)
    (Nat.mul_div_le _ _) low

end Shares

/-- A word of the endless source, counted from the next one. -/
def wordAt (w : Words) (i : Nat) : Nat := w.words[i]?.getD 0

def upcoming (w : Words) (count : Nat) : List Nat := (List.range count).map w.wordAt

def after (w : Words) (count : Nat) : Words := ⟨w.words.drop count, w.taken + count⟩

@[simp] theorem upcoming_zero (w : Words) : w.upcoming 0 = [] := rfl

@[simp] theorem after_after (w : Words) (m n : Nat) : (w.after m).after n = w.after (m + n) := by
  simp [after, Nat.add_assoc]

theorem wordAt_after (w : Words) (m i : Nat) : (w.after m).wordAt i = w.wordAt (m + i) := by
  simp [wordAt, after]

theorem upcoming_add (w : Words) (m n : Nat) :
    w.upcoming (m + n) = w.upcoming m ++ (w.after m).upcoming n := by
  simp [upcoming, List.range_add, wordAt_after, Function.comp_def]

/-- The choices that words stand for, without the words that are passed over. -/
def choices (zone low size : Nat) (words : List Nat) : List Nat :=
  (words.filter (accepts zone size)).map (choice low size)

theorem choices_append (zone low size : Nat) (words more : List Nat) :
    choices zone low size (words ++ more) =
      choices zone low size words ++ choices zone low size more := by
  simp [choices]

/-- Drawing `count` choices from a source uses the words up to the first one by which that many can
be used, and gives what these stand for. -/
def Draws (zone low size : Nat) (w : Words) (count : Nat) (drawn : List Nat × Words) : Prop :=
  ∃ n, drawn = (choices zone low size (w.upcoming n), w.after n) ∧ drawn.1.length = count ∧
    ∀ m < n, (choices zone low size (w.upcoming m)).length < count

variable {zone low size : Nat} {w : Words}

theorem draws_zero (zone low size : Nat) (w : Words) : Draws zone low size w 0 ([], w) :=
  ⟨0, rfl, rfl, nofun⟩

/-- Choices drawn one after the other from a source are drawn from it together. -/
theorem Draws.append {count more : Nat} {drawn rest : List Nat × Words}
    (h : Draws zone low size w count drawn) (next : Draws zone low size drawn.2 more rest) :
    Draws zone low size w (count + more) (drawn.1 ++ rest.1, rest.2) := by
  obtain ⟨m, rfl, hlength, hleast⟩ := h
  obtain ⟨n, rfl, hmore, hnext⟩ := next
  refine ⟨m + n, ?_, ?_, fun k hk => ?_⟩
  · rw [upcoming_add, choices_append, after_after]
  · rw [List.length_append, hlength, hmore]
  · by_cases hkm : k < m
    · exact (hleast k hkm).trans_le (Nat.le_add_right count more)
    · obtain ⟨j, rfl⟩ := Nat.exists_eq_add_of_le (Nat.not_lt.mp hkm)
      have hj := hnext j (by omega)
      rw [upcoming_add, choices_append, List.length_append, hlength]
      exact Nat.add_lt_add_left hj count

/-- If the first word of a source can be used, a single draw takes what it stands for. -/
theorem draws_of_accepts (h : accepts zone size (w.wordAt 0) = true) :
    Draws zone low size w 1 ([choice low size (w.wordAt 0)], w.after 1) := by
  refine ⟨1, ?_, rfl, fun m hm => ?_⟩
  · simp [upcoming, choices, h]
  · simp [Nat.lt_one_iff.mp hm, choices]

/-- If the first word of a source has to be passed over, a single draw takes what the words behind
it give. -/
theorem Draws.of_passed {drawn : List Nat × Words} (h : accepts zone size (w.wordAt 0) = false)
    (next : Draws zone low size (w.after 1) 1 drawn) : Draws zone low size w 1 drawn := by
  obtain ⟨n, rfl, hlength, hleast⟩ := next
  have hnone : choices zone low size (w.upcoming 1) = [] := by simp [upcoming, choices, h]
  have hskip (m : Nat) : choices zone low size (w.upcoming (1 + m)) =
      choices zone low size ((w.after 1).upcoming m) := by
    rw [upcoming_add, choices_append, hnone, List.nil_append]
  refine ⟨1 + n, ?_, hlength, fun m hm => ?_⟩
  · rw [hskip, after_after]
  · cases m with
    | zero => exact Nat.zero_lt_one
    | succ m =>
      rw [Nat.add_comm m 1, hskip]
      exact hleast m (by omega)

/-- The search for a word that can be used ends with the first such word, since the zeros behind the
given words can be used. -/
theorem draws_drawFrom (zone low size : Nat) (words : List Nat) (taken : Nat) :
    let drawn := drawFrom zone low size words taken
    Draws zone low size ⟨words, taken⟩ 1 ([drawn.1], drawn.2) := by
  induction words generalizing taken with
  | nil => exact draws_of_accepts (accepts_zero zone size)
  | cons word rest ih =>
    rw [drawFrom]
    split
    · next hused => exact draws_of_accepts hused
    · next hpassed => exact .of_passed (Bool.eq_false_of_not_eq_true hpassed) (ih (taken + 1))

/-- Drawing one number from a range takes the first word that can be used. -/
theorem draws_between (zone : Nat → Nat) (low high : Nat) (w : Words) :
    let drawn := between zone low high w
    Draws (zone (spread low high)) low (spread low high) w 1 ([drawn.1], drawn.2) :=
  draws_drawFrom _ low _ w.words w.taken

/-- Drawing a series of numbers from a range takes the first `count` words that can be used. -/
theorem draws_repeated (zone : Nat → Nat) (low high count : Nat) (w : Words) :
    Draws (zone (spread low high)) low (spread low high) w count
      (Roller.repeated (between zone low high) count w) := by
  induction count generalizing w with
  | zero => exact draws_zero _ _ _ w
  | succ count ih =>
    rw [Roller.repeated_succ, Nat.add_comm]
    exact (draws_between zone low high w).append (ih _)

/-- A die that is rolled by random words is fair, whether it is rolled alone or in a series, and
however many sides it has, if the sampler goes by the two zone rules. Each word that is used stands
for one of its faces, and each face comes from the same number of used words. Every roll and every
series of rolls comes to an end with as many faces as were asked for: those that the used words
stand for, up to the first word by which there are so many. -/
theorem rolls_fair {sampler : Sampler} (zones : sampler.GoesByZones) {sides : Nat} (pos : 1 ≤ sides)
    (le : sides ≤ maxCount) :
    IsFair (singleZone sides) 1 sides (2 ^ leadingZeros sides) ∧
    IsFair (seriesZone sides) 1 sides (wordCount / sides) ∧
    ∀ w : Words,
      Draws (singleZone sides) 1 sides w 1
        ([(sampler.roller.one sides w).1], (sampler.roller.one sides w).2) ∧
      ∀ count, (sampler.roller.many count sides w).1.length = count ∧
        Draws (seriesZone sides) 1 sides w count (sampler.roller.many count sides w) := by
  have hspread := spread_one sides
  refine ⟨isFair_singleZone pos le 1, isFair_seriesZone pos le 1, fun w => ⟨?_, fun count => ?_⟩⟩
  · have hone := draws_between singleZone 1 sides w
    rwa [hspread, ← zones.single pos (hspread.trans_le le)] at hone
  · have hmany := draws_repeated seriesZone 1 sides count w
    have hseries : between seriesZone 1 sides = sampler.series 1 sides :=
      funext fun w => (zones.series pos (hspread.trans_le le) w).symm
    rw [hspread, hseries] at hmany
    exact ⟨Roller.length_repeated _ count w, hmany⟩

/-- With the sampler that runs, the first word is used in a series but passed over by a single
roll. -/
theorem rolls_fair_six :
    let w : Words := ⟨[4294967295, 1000000000], 0⟩
    (Sampler.byZones.GoesByZones ∧ 1 ≤ 6 ∧ 6 ≤ maxCount) ∧
      IsFair (singleZone 6) 1 6 536870912 ∧ IsFair (seriesZone 6) 1 6 715827882 ∧
      Roller.one 6 w = (2, ⟨[], 2⟩) ∧ Draws (singleZone 6) 1 6 w 1 ([2], ⟨[], 2⟩) ∧
      Roller.many 3 6 w = ([6, 2, 1], ⟨[], 3⟩) ∧
      Draws (seriesZone 6) 1 6 w 3 ([6, 2, 1], ⟨[], 3⟩) := by
  intro w
  have hone : Roller.one 6 w = (2, ⟨[], 2⟩) := by decide
  have hmany : Roller.many 3 6 w = ([6, 2, 1], ⟨[], 3⟩) := by decide
  obtain ⟨single, series, draws⟩ :=
    rolls_fair Sampler.goesByZones_byZones (show 1 ≤ 6 by decide) (by decide)
  obtain ⟨roll, rolls⟩ := draws w
  refine ⟨⟨Sampler.goesByZones_byZones, by decide⟩, single, series, hone, ?_, hmany, ?_⟩
  · rwa [hone] at roll
  · exact hmany ▸ (rolls 3).2

end Words

end Tabletop
