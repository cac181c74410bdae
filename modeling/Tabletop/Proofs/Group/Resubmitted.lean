import Tabletop.Proofs.Roll.Reread

/-!
# Submitting printed notation again

The written form of a command of plain dice is a command itself. Rolled with the same faces, it has
the totals that its printed terms come to as they are read. These are the totals of the first
command, and the grades are the same with them, exactly where no member has disappeared from print
and each member comes to its total again; and a member does that with all its beginnings exactly
where each of its parts is harmless.
-/

namespace Tabletop

open PartRoll

def GroupRoll.grades (g : GroupRoll) : List Grade := g.rolls.map Roll.grade

section

variable {first again : List Roll} (h : List.Forall₂ Roll.Rereads first again)

include h

theorem map_total_of_rereads : again.map Roll.total = first.map fun r => rereadTotal r.parts := by
  induction h with
  | nil => rfl
  | cons hroll _ ih => rw [List.map_cons, List.map_cons, hroll.total, ih]

theorem map_grade_of_rereads (same : again.map Roll.total = first.map Roll.total) :
    again.map Roll.grade = first.map Roll.grade := by
  induction h with
  | nil => rfl
  | cons hroll _ ih =>
    obtain ⟨hsame, hrest⟩ := List.cons.inj same
    rw [List.map_cons, List.map_cons, hroll.grade hsame, ih hrest]

end

instance (g : Group) : Decidable g.IsPrinted := inferInstanceAs (Decidable (_ ∨ _))

/-- Whatever plain dice read, the members keep within bounds. -/
theorem Engine.isRead_parse {settings : Settings} (generic : settings.system = .generic)
    (text : Text) : ∀ d ∈ ((ofSettings settings).parse text).dice, d.IsRead := by
  have hsystem : System.ofSettings settings = .generic := by rw [System.ofSettings, generic]
  rw [dice_parse, hsystem, Group.diceOfTokens_eq]
  split
  · exact List.forall_mem_singleton.mpr (Dice.isRead_ofTokens _)
  · intro d hd
    obtain ⟨run, -, rfl⟩ := List.mem_map.mp hd
    exact Dice.isRead_ofTokens run

/-- What is known of each member of a rolled command of plain dice. -/
theorem Engine.isRead_evaluate {settings : Settings} (generic : settings.system = .generic)
    (text : Text) (s : Script) :
    ∀ r ∈ ((ofSettings settings).evaluate text s).1.roll.rolls,
      r.total = joinedTotal r.parts ∧ ∀ q ∈ r.parts, q.IsRead := by
  rw [rolls_evaluate generic]
  intro r hr
  obtain ⟨d, hd, s', rfl⟩ := Roller.exists_of_mem_each hr
  refine ⟨rfl, fun q hq => ?_⟩
  obtain ⟨p, hp, s'', rfl⟩ := Roller.exists_of_mem_each hq
  exact isRead_roll ((isRead_parse generic text d hd).parts p hp) s''

section

variable {settings : Settings} (generic : settings.system = .generic) {text : Text}
  (shown : ∀ d ∈ ((Engine.ofSettings settings).parse text).dice, ∀ t ∈ d.test?, t.hidden = false)

include generic shown

/-- The members that are left in print are read again one by one. -/
theorem Engine.rereads_parse :
    List.Forall₂ Dice.Rereads ((ofSettings settings).parse text).printed
      ((ofSettings settings).parse ((ofSettings settings).parse text).text).dice :=
  Group.rereads_parse generic (Group.diceOfTokens_ne_nil _ _) (isRead_parse generic text) shown

/-- If all members are left in print, they are rolled again one by one. -/
theorem Engine.rereads_evaluate (whole : ((ofSettings settings).parse text).IsPrinted)
    (s : Script) :
    List.Forall₂ Roll.Rereads ((ofSettings settings).evaluate text s).1.roll.rolls
      ((ofSettings settings).evaluate ((ofSettings settings).parse text).text s).1.roll.rolls := by
  have hdice := rereads_parse generic shown
  rw [Group.printed_of_isPrinted whole] at hdice
  rw [rolls_evaluate generic, rolls_evaluate generic]
  exact Dice.forall₂_each_ofDice hdice (isRead_parse generic text) s

/-- If the printed group has the totals of the group that was asked for, no member disappeared from
print. -/
theorem Engine.isPrinted_of_totals {s : Script}
    (same : let printed := (ofSettings settings).parse text
      ((ofSettings settings).evaluate printed.text s).1.roll.totals =
        ((ofSettings settings).evaluate text s).1.roll.totals) :
    ((ofSettings settings).parse text).IsPrinted := by
  by_contra hlost
  have hlength := congrArg List.length same
  rw [GroupRoll.totals, GroupRoll.totals, List.length_map, List.length_map, rolls_evaluate generic,
    rolls_evaluate generic, Roller.length_each, Roller.length_each,
    ← (rereads_parse generic shown).length_eq] at hlength
  exact (Group.length_printed_lt (Group.diceOfTokens_ne_nil _ _) hlost).ne hlength

end

/-- The printed form of a command of plain dice without a hidden test, submitted again with the
same faces. It gives the same totals and the same grades if every member of the command is printed
and each of its parts is harmless. -/
theorem totals_evaluate_printed {settings : Settings} (generic : settings.system = .generic)
    (text : Text) (s : Script)
    (shown : ∀ d ∈ ((Engine.ofSettings settings).parse text).dice, ∀ t ∈ d.test?,
      t.hidden = false) :
    let engine := Engine.ofSettings settings
    let printed := engine.parse text
    let first := (engine.evaluate text s).1.roll
    let again := (engine.evaluate printed.text s).1.roll
    (printed.IsPrinted → (∀ r ∈ first.rolls, Kept r.parts) →
        again.totals = first.totals ∧ again.grades = first.grades) ∧
      (again.totals = first.totals ∧ again.grades = first.grades ↔
        printed.IsPrinted ∧ ∀ r ∈ first.rolls, rereadTotal r.parts = r.total) ∧
      (printed.IsPrinted → again.totals = first.rolls.map fun r => rereadTotal r.parts) ∧
      ∀ r ∈ first.rolls,
        (∀ k, rereadTotal (r.parts.take k) = joinedTotal (r.parts.take k)) ↔ Kept r.parts := by
  intro engine printed first again
  have hrolls (whole : printed.IsPrinted) : List.Forall₂ Roll.Rereads first.rolls again.rolls :=
    Engine.rereads_evaluate generic shown whole s
  have htotals (whole : printed.IsPrinted) :
      again.totals = first.rolls.map fun r => rereadTotal r.parts :=
    map_total_of_rereads (hrolls whole)
  have hread : ∀ r ∈ first.rolls, r.total = joinedTotal r.parts ∧ ∀ q ∈ r.parts, q.IsRead :=
    Engine.isRead_evaluate generic text s
  have hkept : ∀ r ∈ first.rolls,
      (∀ k, rereadTotal (r.parts.take k) = joinedTotal (r.parts.take k)) ↔ Kept r.parts :=
    fun r hr => forall_take_iff (hread r hr).2
  have hsame : again.totals = first.totals ∧ again.grades = first.grades ↔
      printed.IsPrinted ∧ ∀ r ∈ first.rolls, rereadTotal r.parts = r.total := by
    constructor
    · rintro ⟨same, -⟩
      have whole : printed.IsPrinted :=
        Engine.isPrinted_of_totals generic shown same
      exact ⟨whole, List.map_inj_left.mp ((htotals whole).symm.trans same)⟩
    -- A member keeps its test, so that its grade follows from its total.
    · rintro ⟨whole, hreread⟩
      have same : again.totals = first.totals :=
        (htotals whole).trans (List.map_inj_left.mpr hreread)
      exact ⟨same, map_grade_of_rereads (hrolls whole) same⟩
  refine ⟨fun whole kept => hsame.mpr ⟨whole, fun r hr => ?_⟩, hsame, htotals, hkept⟩
  have hall := (hkept r hr).mpr (kept r hr) r.parts.length
  rw [List.take_length] at hall
  rw [hall, (hread r hr).1]

theorem totals_evaluate_printed_members :
    let engine := Engine.ofSettings (.forSystem .generic)
    let text := "- 7 - D6K1 * 2; d20 vs 12 + 3; + 2 dc 10".toList
    let s : Script := ⟨[4, 15, 7], 0⟩
    let printed := engine.parse text
    let first := (engine.evaluate text s).1.roll
    let again := (engine.evaluate printed.text s).1.roll
    ((∀ d ∈ printed.dice, ∀ t ∈ d.test?, t.hidden = false) ∧ printed.IsPrinted ∧
        ∀ r ∈ first.rolls, Kept r.parts) ∧
      printed.text = "-7-1d6kh1*2; 1d20+3 vs 12; 1d20+2 DC 10".toList ∧
      first.totals = [-22, 18, 9] ∧ first.grades = [.unknown, .success, .failure] ∧
      again.totals = first.totals ∧ again.grades = first.grades := by
  intro engine text s printed first again
  have shown : ∀ d ∈ printed.dice, ∀ t ∈ d.test?, t.hidden = false := by decide +kernel
  have whole : printed.IsPrinted := by decide +kernel
  have kept : ∀ r ∈ first.rolls, Kept r.parts := by decide +kernel
  exact ⟨⟨shown, whole, kept⟩, by decide +kernel, by decide +kernel, by decide +kernel,
    (totals_evaluate_printed rfl text s shown).1 whole kept⟩

/-- An added number that opens an expression, a factor of zero, a member without a written form and
a zero that keeps a number apart from dice: each is lost in print. -/
theorem totals_evaluate_printed_lost :
    let engine := Engine.ofSettings (.forSystem .generic)
    let totals (text : String) (faces : List Nat) :=
      (engine.evaluate text.toList (Script.mk faces 0)).1.roll.totals
    let Prints (text printed : String) :=
      (∀ k ∈ engine.tokenize text.toList,
          k.kind = .dice ∨ k.kind = .modifier ∨ k.kind = .separator ∨ k.isBlankText) ∧
        (engine.parse text.toList).text = printed.toList
    (Prints "+5+1d6" "5+1d6" ∧ totals "+5+1d6" [4] = [9] ∧ totals "5+1d6" [4] = [4]) ∧
      (Prints "1d6*0" "1d6" ∧ totals "1d6*0" [4] = [0] ∧ totals "1d6" [4] = [4]) ∧
      (Prints "+0; 1d6" "; 1d6" ∧ totals "+0; 1d6" [4] = [0, 4] ∧ totals "; 1d6" [4] = [4]) ∧
      Prints "1d8-1d6+0+2" "1d8-1d6+2" ∧
        totals "1d8-1d6+0+2" [4, 3] = [3] ∧ totals "1d8-1d6+2" [4, 3] = [-1] := by
  decide +kernel

end Tabletop
