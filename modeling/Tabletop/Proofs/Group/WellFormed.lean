import Tabletop.Proofs.Group.Runs
import Tabletop.Proofs.Pattern.Occurs
import Tabletop.Proofs.Text.Words

/-!
# Well-formed groups

Nothing checks the parts that are read from a command, and nothing needs to. Whatever the text is,
each of its expressions has at most one test and something to roll for it, and each part keeps to
what the game system has: hunger dice, thresholds and saving throws are not found anywhere else.
-/

namespace Tabletop

theorem System.kind_ofSettings (settings : Settings) :
    (System.ofSettings settings).kind = settings.system := by
  unfold System.ofSettings
  split <;> next h => exact h.symm

namespace Part

/-- What holds of a part as long as its tokens are read, before the last word of the system. -/
structure IsPending (system : System) (p : Part) : Prop where
  sorted : p.unsorted = false
  save : p.save = false
  hunger : p.hunger.isSome → system.kind = .vampire
  critThreshold : p.critThreshold.isSome → system.kind = .pathfinder

variable {system : System}

theorem isPending_empty : empty.IsPending system := ⟨rfl, rfl, nofun, nofun⟩

/-- A token of the system's own leaves a mark of that system. -/
theorem IsPending.absorb {p q : Part} (h : p.IsPending system) {t : Token}
    (absorbs : system.absorb? p t = some q) : q.IsPending system := by
  unfold System.absorb? at absorbs
  split at absorbs <;> cases absorbs
  · exact ⟨h.sorted, h.save, h.hunger, fun _ => rfl⟩
  · exact ⟨h.sorted, h.save, fun _ => rfl, h.critThreshold⟩

theorem IsPending.add {d : Draft} (h : d.part.IsPending system) (t : Token) :
    (d.add system t).part.IsPending system := by
  rcases d.part_add system t with hpart | ⟨-, hpart⟩ | ⟨-, hpart⟩ | ⟨test, -, -, hpart⟩ | habsorb
  · rwa [hpart]
  · rw [hpart]
    exact ⟨h.sorted, h.save, h.hunger, h.critThreshold⟩
  · obtain ⟨sign, modifier, hp⟩ := d.part.exists_withModifier_eq t
    rw [hpart, hp]
    exact ⟨h.sorted, h.save, h.hunger, h.critThreshold⟩
  · rw [hpart]
    exact ⟨h.sorted, h.save, h.hunger, h.critThreshold⟩
  · exact h.absorb habsorb

/-- A number that cannot be read changes nothing. -/
theorem Draft.modifier_foldl_of_unread {tokens : List Token}
    (unread : ∀ t ∈ tokens, t.kind = .modifier → t.number? = none) (d : Draft) :
    (tokens.foldl (add system) d).part.modifier = d.part.modifier := by
  refine foldl_add_induction (fun p => p.modifier = d.part.modifier) (fun t ht e h => ?_) rfl
  by_cases hkind : t.kind = .modifier
  · have hnone : (t.capture 2).bind Decimal.readTotal? = none := unread t ht hkind
    rw [part_add_of_modifier hkind, withModifier, hnone, h]
  · rw [(e.leavesAlone_add system t).modifier hkind, h]

/-- A part without sides is not negative: its number, if it has one, came without a sign. -/
theorem modifier_nonneg_of_apart (system : System) {run : List Token}
    (apart : run.Pairwise fun u t => ¬Token.PartClash u t) :
    let p := (run.foldl (Draft.add system) ⟨empty, []⟩).part
    p.sides = 0 → 0 ≤ p.modifier := by
  intro p hsides
  by_cases hread : ∃ t ∈ run, t.kind = .modifier ∧ t.number? ≠ none
  · obtain ⟨t, ht, hkind, hsome⟩ := hread
    obtain ⟨n, hn⟩ := Option.ne_none_iff_exists'.mp hsome
    obtain ⟨_, -, hvalue⟩ := Option.bind_eq_some_iff.mp hn
    rw [(modifier_of_apart apart ht hkind hn).1, if_neg fun h => h.1 hsides]
    exact (readTotal?_bounds hvalue).1
  · have hunread : ∀ t ∈ run, t.kind = .modifier → t.number? = none := by simpa using hread
    have hzero : p.modifier = 0 := Draft.modifier_foldl_of_unread hunread _
    exact Int.le_of_eq hzero.symm

/-- What is known of a part that a command is read as under some settings. -/
structure IsWellFormed (settings : Settings) (p : Part) : Prop where
  count : p.count ≤ maxDice
  fixed : p.fixed = none
  sorted : p.unsorted = false
  flat : p.sides = 0 → 0 ≤ p.modifier
  description : p.description.IsSpaced
  hunger : p.hunger.isSome → settings.system = .vampire
  critThreshold : p.critThreshold.isSome → settings.system = .pathfinder
  save : p.save = true ↔ settings.system = .pathfinder ∧ settings.infersSaves = true ∧
    ∃ word ∈ System.saveWords, p.description.HasWord word

/-- The last word of the system is which descriptions make a saving throw. -/
theorem save_finish (settings : Settings) {p : Part} (h : p.save = false) :
    (System.finish (.ofSettings settings) p).save = true ↔
      settings.system = .pathfinder ∧ settings.infersSaves = true ∧
        ∃ word ∈ System.saveWords, p.description.HasWord word := by
  rw [← System.occursIn_saveWord_iff, System.ofSettings]
  cases settings.system with
  | generic | vampire => simp [System.finish, h]
  | pathfinder =>
    cases settings.infersSaves with
    | false => simp [System.finish, h]
    | true =>
      rw [System.finish]
      split
      · next hoccurs => simp [hoccurs]
      · next hoccurs => simp [hoccurs, h]

theorem isWellFormed_ofTokens (settings : Settings) {run : List Token}
    (apart : run.Pairwise fun u t => ¬Token.PartClash u t) :
    (ofTokens (.ofSettings settings) run).IsWellFormed settings := by
  have hpending : (run.foldl (Draft.add (.ofSettings settings)) ⟨empty, []⟩).part.IsPending
      (.ofSettings settings) :=
    Draft.foldl_add_induction _ (fun t _ d h => h.add t) isPending_empty
  have hsave : (ofTokens (.ofSettings settings) run).save = true ↔ settings.system = .pathfinder ∧
      settings.infersSaves = true ∧ ∃ word ∈ System.saveWords,
        (Draft.loose (run.foldl (Draft.add (.ofSettings settings)) ⟨empty, []⟩)).squeeze.HasWord
          word := save_finish settings hpending.save
  have hcount := (isLimited_ofTokens (.ofSettings settings) run).count
  have hfixed := fixed_ofTokens (.ofSettings settings) run
  obtain ⟨hsorted, -, hhunger, hcrit⟩ := hpending
  rw [System.kind_ofSettings] at hhunger hcrit
  obtain ⟨save, hread⟩ := exists_ofTokens_eq (.ofSettings settings) run
  rw [hread] at hcount hfixed hsave ⊢
  exact ⟨hcount, hfixed, hsorted, modifier_nonneg_of_apart (.ofSettings settings) apart,
    Text.isSpaced_squeeze _, hhunger, hcrit, hsave⟩

theorem IsWellFormed.onD20 {settings : Settings} {p : Part} (h : p.IsWellFormed settings) :
    (Dice.onD20 p).IsWellFormed settings where
  count := Nat.le_add_left 1 999
  fixed := h.fixed
  sorted := h.sorted
  flat := by simp [Dice.onD20]
  description := h.description
  hunger := h.hunger
  critThreshold := h.critThreshold
  save := h.save

end Part

namespace Token

/-- A run for an expression has at most one test. -/
theorem countP_test_le_one {run : List Token} (apart : run.Pairwise fun u t => ¬RollClash u t) :
    run.countP (fun t => t.kind == .test) ≤ 1 := by
  induction run with
  | nil => simp
  | cons u rest ih =>
    obtain ⟨hfirst, hrest⟩ := List.pairwise_cons.mp apart
    rw [List.countP_cons]
    split
    · next hkind =>
      have hnone : rest.countP (fun t => t.kind == .test) = 0 := by
        refine List.countP_eq_zero.mpr fun t ht htest => hfirst t ht (.inl ⟨?_, ?_⟩)
        · exact beq_iff_eq.mp hkind
        · exact beq_iff_eq.mp htest
      omega
    · exact ih hrest

end Token

namespace Dice

/-- What is known of an expression that a command is read as under some settings. -/
structure IsWellFormed (settings : Settings) (d : Dice) : Prop where
  parts : ∀ p ∈ d.parts, p.IsWellFormed settings
  /-- At most one part has a test. -/
  tests : d.parts.countP (fun p => p.test.isSome) ≤ 1
  /-- Where there is a test, there is something to roll. -/
  dice : (∃ p ∈ d.parts, p.test.isSome) → ∃ p ∈ d.parts, 0 < p.sides

/-- There are no more tested parts than tests in the runs that they are read from. -/
theorem countP_map_ofTokens_le (system : System) (runs : List (List Token)) :
    (runs.map (Part.ofTokens system)).countP (fun p => p.test.isSome) ≤
      runs.flatten.countP fun t => t.kind == .test := by
  induction runs with
  | nil => simp
  | cons run rest ih =>
    rw [List.map_cons, List.countP_cons, List.flatten_cons, List.countP_append]
    split
    · next htested =>
      obtain ⟨t, ht, hkind⟩ := Part.exists_test_of_tested htested
      have hpos : 0 < run.countP fun t => t.kind == .test :=
        List.countP_pos_iff.mpr ⟨t, ht, by simp [hkind]⟩
      omega
    · omega

theorem isWellFormed_ofTokens (settings : Settings) {tokens : List Token}
    (apart : tokens.Pairwise fun u t => ¬Token.RollClash u t) :
    (ofTokens (.ofSettings settings) tokens).IsWellFormed settings := by
  rw [ofTokens_eq_normalized]
  have hread : ∀ p ∈ (Token.termRuns tokens).map (Part.ofTokens (.ofSettings settings)),
      p.IsWellFormed settings :=
    List.forall_mem_map.mpr fun run hrun =>
      Part.isWellFormed_ofTokens settings (Token.apart_of_mem_termRuns hrun)
  refine ⟨forall_mem_normalized hread fun p hp => (hread p hp).onD20, ?_, fun htested => ?_⟩
  · have hcount (parts : List Part) : parts.countP (fun p => p.test.isSome) =
        (parts.map Part.test).countP Option.isSome := by
      rw [List.countP_map]
      rfl
    rw [hcount, map_normalized (fun _ => rfl), ← hcount]
    calc _ ≤ (Token.termRuns tokens).flatten.countP fun t => t.kind == .test :=
          countP_map_ofTokens_le _ _
      _ = tokens.countP fun t => t.kind == .test := by rw [Token.flatten_termRuns]
      _ ≤ 1 := Token.countP_test_le_one apart
  · refine exists_sides_of_tested ?_
    rw [test?, Part.testOf, List.findSome?_isSome_iff]
    exact htested

end Dice

def Group.IsWellFormed (settings : Settings) (g : Group) : Prop :=
  ∀ d ∈ g.dice, d.IsWellFormed settings

/-- Whatever command is read under whatever settings, the group that it is read as is well
formed. -/
theorem Engine.isWellFormed_parse (settings : Settings) (text : Text) :
    ((ofSettings settings).parse text).IsWellFormed settings := by
  intro d hd
  change d ∈ Group.diceOfTokens (.ofSettings settings) _ at hd
  rw [Group.diceOfTokens_eq_map] at hd
  obtain ⟨run, hrun, rfl⟩ := List.mem_map.mp hd
  exact Dice.isWellFormed_ofTokens settings (Token.apart_of_mem_expressionRuns hrun)

end Tabletop
