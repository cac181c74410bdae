import Tabletop.Proofs.Group.Runs
import Tabletop.Proofs.Roll.Doubled
import Tabletop.Proofs.Roll.Scripted

/-!
# Checks

A test with nothing to roll is a check with a d20. The numbers around the test are its bonus: the
one in the run of the test becomes the modifier of the die, the others stay parts of their own, and
all of them add to the face that the die shows what they would add up to by themselves.
-/

namespace Tabletop

namespace Token

def signed (t : Token) : Int :=
  let n := t.number?.getD 0
  if Sign.ofCapture (t.capture 1) = .minus then -n else n

def bonus (tokens : List Token) : Int :=
  ((tokens.filter fun t => t.kind == .modifier).map signed).sum

/-- The token is text, or a number that can be read and is added or subtracted. -/
def IsBonus (t : Token) : Prop :=
  t.kind = .description ∨
    t.kind = .modifier ∧ Sign.ofCapture (t.capture 1) ≠ .times ∧ t.number? ≠ none

def IsReadTest (t : Token) : Prop := t.kind = .test ∧ Test.ofToken? t ≠ none

instance (t : Token) : Decidable t.IsBonus := inferInstanceAs (Decidable (_ ∨ _))

instance (t : Token) : Decidable t.IsReadTest := inferInstanceAs (Decidable (_ ∧ _))

@[simp] theorem bonus_append (tokens more : List Token) :
    bonus (tokens ++ more) = bonus tokens + bonus more := by
  simp [bonus]

theorem bonus_cons_of_ne {t : Token} (h : t.kind ≠ .modifier) (rest : List Token) :
    bonus (t :: rest) = bonus rest := by
  simp [bonus, h]

theorem bonus_cons {t : Token} (h : t.kind = .modifier) (rest : List Token) :
    bonus (t :: rest) = t.signed + bonus rest := by
  simp [bonus, h]

theorem bonus_eq_zero {tokens : List Token} (h : ∀ t ∈ tokens, t.kind ≠ .modifier) :
    bonus tokens = 0 := by
  have hnone : (tokens.filter fun t => t.kind == .modifier) = [] := by simpa using h
  rw [bonus, hnone]
  rfl

theorem bonus_flatten (runs : List (List Token)) : bonus runs.flatten = (runs.map bonus).sum := by
  induction runs with
  | nil => rfl
  | cons run rest ih => simp [ih]

/-- Where numbers clash there is only one. -/
theorem bonus_of_apart {run : List Token} (apart : run.Pairwise fun u t => ¬PartClash u t)
    {t : Token} (ht : t ∈ run) (hkind : t.kind = .modifier) : bonus run = t.signed := by
  obtain ⟨before, after, rfl, hbefore, hafter⟩ := exists_append_of_pairwise apart ht
  have hleft : ∀ u ∈ before, u.kind ≠ .modifier := fun u hu h =>
    hbefore u hu (.inr (.inl ⟨h, hkind⟩))
  have hright : ∀ u ∈ after, u.kind ≠ .modifier := fun u hu h =>
    hafter u hu (.inr (.inl ⟨hkind, h⟩))
  rw [bonus_append, bonus_cons hkind, bonus_eq_zero hleft, bonus_eq_zero hright]
  omega

end Token

namespace Part

def bonus (p : Part) : Int := if p.sign = .minus then -p.modifier else p.modifier

structure IsAddend (p : Part) : Prop where
  sides : p.sides = 0
  sign : p.sign ≠ .times
  dropKeep : p.dropKeep = none
  fixed : p.fixed = none

/-- A part that is read from text, tests and numbers is an addend and adds what its numbers add. -/
theorem isAddend_ofTokens {run : List Token} (flat : ∀ t ∈ run, t.IsBonus ∨ t.kind = .test)
    (apart : run.Pairwise fun u t => ¬Token.PartClash u t) :
    (ofTokens .generic run).IsAddend ∧ (ofTokens .generic run).bonus = Token.bonus run := by
  have hdice : ∀ t ∈ run, t.kind ≠ .dice := fun t ht hkind => by
    rcases flat t ht with (h | h) | h <;> simp [hkind] at h
  have hdice' : (run.foldl (Draft.add .generic) ⟨empty, []⟩).part.SameDice empty :=
    Draft.sameDice_foldl hdice _
  obtain ⟨-, hsides, hrule⟩ := hdice'
  have hfixed := fixed_ofTokens .generic run
  have hvalue : (run.foldl (Draft.add .generic) ⟨empty, []⟩).part.sign ≠ .times ∧
      (run.foldl (Draft.add .generic) ⟨empty, []⟩).part.bonus = Token.bonus run := by
    by_cases hnumber : ∃ t ∈ run, t.kind = .modifier
    · obtain ⟨t, ht, hkind⟩ := hnumber
      have hbonus : t.IsBonus := (flat t ht).resolve_right (by simp [hkind])
      obtain ⟨-, hsign, hsome⟩ := hbonus.resolve_left (by simp [hkind])
      obtain ⟨n, hn⟩ := Option.ne_none_iff_exists'.mp hsome
      obtain ⟨hmodifier, hjoin⟩ := modifier_of_apart apart ht hkind hn
      rw [if_neg fun h => h.1 hsides] at hmodifier
      rw [bonus, hjoin hsides, hmodifier, Token.bonus_of_apart apart ht hkind, Token.signed, hn]
      exact ⟨hsign, rfl⟩
    · have hnone : ∀ t ∈ run, t.kind ≠ .modifier := by simpa using hnumber
      rw [bonus, Draft.modifier_foldl _ hnone,
        Draft.sign_foldl hdice fun _ t ht h => absurd h (hnone t ht), Token.bonus_eq_zero hnone]
      exact ⟨nofun, rfl⟩
  exact ⟨⟨hsides, hvalue.1, hrule, hfixed⟩, hvalue.2⟩

end Part

namespace Dice

/-- The first tested part becomes a d20. -/
theorem testOnD20_append {before : List Part} (untested : ∀ q ∈ before, q.test = none) {p : Part}
    (tested : p.test.isSome) (after : List Part) :
    testOnD20 (before ++ p :: after) = before ++ onD20 p :: after := by
  induction before with
  | nil => rw [List.nil_append, testOnD20, if_pos tested, List.nil_append]
  | cons q rest ih =>
    obtain ⟨hq, hrest⟩ := List.forall_mem_cons.mp untested
    rw [List.cons_append, testOnD20, hq, ih hrest]
    rfl

/-- An expression of flat parts and one part that is tested, which has become a d20. -/
structure IsCheck (d : Dice) (test : Test) (bonus : Int) : Prop where
  parts : ∃ before p after, d.parts = before ++ onD20 p :: after ∧
    (∀ q ∈ before ++ p :: after, q.IsAddend) ∧ ((before ++ p :: after).map Part.bonus).sum = bonus
  test : d.test? = some test

/-- The run of the test is the only one that makes a tested part. -/
theorem exists_tested_run (system : System) {run : List Token}
    (apart : run.Pairwise fun u t => ¬Token.RollClash u t) {t : Token} (ht : t ∈ run)
    (hkind : t.kind = .test) {test : Test} (read : Test.ofToken? t = some test) :
    ∃ before r after, Token.termRuns run = before ++ r :: after ∧
      (∀ q ∈ before.map (Part.ofTokens system), q.test = none) ∧
      (Part.ofTokens system r).test = some test := by
  have hflatten := Token.flatten_termRuns run
  obtain ⟨r, hr, htr⟩ := List.mem_flatten.mp (hflatten.symm ▸ ht)
  have hwithin : r.Sublist run := hflatten ▸ List.sublist_flatten_of_mem hr
  obtain ⟨before, after, hruns⟩ := List.append_of_mem hr
  refine ⟨before, r, after, hruns, List.forall_mem_map.mpr fun r' hr' => ?_, ?_⟩
  · refine Option.not_isSome_iff_eq_none.mp fun h => ?_
    obtain ⟨u, hu, hukind⟩ := Part.exists_test_of_tested h
    rw [← hflatten, hruns, List.flatten_append, List.flatten_cons] at apart
    obtain ⟨-, -, hclash⟩ := List.pairwise_append.mp apart
    exact hclash u (List.mem_flatten.mpr ⟨r', hr', hu⟩) t (List.mem_append_left _ htr)
      (.inl ⟨hukind, hkind⟩)
  · exact (Part.keeps_ofTokens (Token.apart_of_mem_termRuns hr) (apart.sublist hwithin)).test t htr
      hkind test read

theorem isCheck_ofTokens {run : List Token} (flat : ∀ t ∈ run, t.IsBonus ∨ t.kind = .test)
    (apart : run.Pairwise fun u t => ¬Token.RollClash u t) {t : Token} (ht : t ∈ run)
    (hkind : t.kind = .test) {test : Test} (read : Test.ofToken? t = some test) :
    (ofTokens .generic run).IsCheck test (Token.bonus run) := by
  have hflatten := Token.flatten_termRuns run
  have hwithin : ∀ r ∈ Token.termRuns run, r.Sublist run := fun r hr =>
    hflatten ▸ List.sublist_flatten_of_mem hr
  have hread (r : List Token) (hr : r ∈ Token.termRuns run) :
      (Part.ofTokens .generic r).IsAddend ∧ (Part.ofTokens .generic r).bonus = Token.bonus r :=
    Part.isAddend_ofTokens (fun u hu => flat u ((hwithin r hr).subset hu))
      (Token.apart_of_mem_termRuns hr)
  have hparts : ∀ q ∈ (Token.termRuns run).map (Part.ofTokens .generic), q.IsAddend :=
    List.forall_mem_map.mpr fun r hr => (hread r hr).1
  have hsum : (((Token.termRuns run).map (Part.ofTokens .generic)).map Part.bonus).sum =
      Token.bonus run := by
    rw [List.map_map, ← hflatten, Token.bonus_flatten, hflatten]
    exact congrArg List.sum (List.map_congr_left fun r hr => (hread r hr).2)
  obtain ⟨before, r, after, hruns, huntested, htested⟩ :=
    exists_tested_run .generic apart ht hkind read
  have hsame : ofTokens .generic run = ⟨testOnD20 ((Token.termRuns run).map
      (Part.ofTokens .generic))⟩ := by
    rw [ofTokens_eq_normalized, normalized, if_neg]
    simpa using fun r hr => (hread r hr).1.sides
  rw [hruns, List.map_append, List.map_cons] at hsame hparts hsum
  rw [testOnD20_append huntested (by simp [htested])] at hsame
  rw [hsame]
  refine ⟨⟨_, _, _, rfl, hparts, hsum⟩, ?_⟩
  rw [test?, Part.testOf, List.findSome?_append, List.findSome?_eq_none_iff.mpr huntested]
  simp [onD20, htested]

end Dice

namespace PartRoll

/-- Rolling flat parts draws nothing, and none of them shows a face. -/
theorem each_roll_of_isAddend {ρ : Type} [Roller ρ] {parts : List Part}
    (flat : ∀ q ∈ parts, q.IsAddend) (r : ρ) :
    Roller.each roll parts r = (parts.map fun q => ofFaces q [], r) := by
  induction parts with
  | nil => rfl
  | cons q rest ih =>
    obtain ⟨hq, hrest⟩ := List.forall_mem_cons.mp flat
    have hroll : roll q r = (ofFaces q [], r) := by
      rw [roll, hq.fixed, hq.sides]
      rfl
    simp only [Roller.each, hroll, ih hrest, List.map_cons]

/-- The d20 of a check shows the next face of the script. -/
theorem roll_onD20 {p : Part} (fixed : p.fixed = none) (s : Script) :
    roll (Dice.onD20 p) s =
      (ofFaces (Dice.onD20 p) [max 1 (min 20 (s.faceAt s.played))], s.after 1) := by
  have hfixed : (Dice.onD20 p).fixed = none := fixed
  rw [roll, hfixed]
  simp [Dice.onD20, Script.many_eq, Script.shown]

theorem exactly_ofFaces_of_isAddend {p : Part} (flat : p.IsAddend) (total : Int) :
    p.sign.exactly total (ofFaces p []).exactTotal = total + p.bonus := by
  have hvalue : (ofFaces p []).exactTotal = p.modifier := by
    simp [exactTotal, keptSum, keptFaces, ofFaces]
  rw [hvalue, Part.bonus]
  cases hsign : p.sign with
  | plus => simp
  | minus => simp [Int.sub_eq_add_neg]
  | times => exact absurd hsign flat.sign

/-- Flat parts add to a total what they would add up to by themselves. -/
theorem foldl_exactly_of_isAddend {parts : List Part} (flat : ∀ q ∈ parts, q.IsAddend)
    (total : Int) :
    (parts.map fun q => ofFaces q []).foldl
        (fun total p => p.part.sign.exactly total p.exactTotal) total =
      total + (parts.map Part.bonus).sum := by
  induction parts generalizing total with
  | nil => simp
  | cons q rest ih =>
    obtain ⟨hq, hrest⟩ := List.forall_mem_cons.mp flat
    rw [List.map_cons, List.foldl_cons, ih hrest, part_ofFaces, exactly_ofFaces_of_isAddend hq,
      List.map_cons, List.sum_cons, Int.add_assoc]

/-- The modifier of the d20 is what its part would add by itself. -/
theorem exactly_ofFaces_onD20 {p : Part} (flat : p.IsAddend) (face : Nat) (total : Int) :
    (Dice.onD20 p).sign.exactly total (ofFaces (Dice.onD20 p) [face]).exactTotal =
      total + (face + p.bonus) := by
  have hrule : (Dice.onD20 p).dropKeep = none := flat.dropKeep
  have hsum : (ofFaces (Dice.onD20 p) [face]).keptSum = face := by
    rw [keptSum, keptFaces_ofFaces, hrule]
    rfl
  rw [exactTotal, hsum]
  rfl

end PartRoll

namespace Dice

open PartRoll

/-- A check is rolled with one die: its total is the face of the die and the bonus. -/
theorem IsCheck.ofDice {d : Dice} {test : Test} {bonus : Int} (check : d.IsCheck test bonus)
    (s : Script) :
    let face := max 1 (min 20 (s.faceAt s.played))
    let rolled := Roll.ofDice .generic d s
    rolled.2 = s.after 1 ∧ rolled.1.parts.flatMap PartRoll.faces = [face] ∧
      rolled.1.test? = some test ∧ (Within rolled.1.parts → rolled.1.total = face + bonus) := by
  obtain ⟨⟨before, p, after, hparts, hflat, rfl⟩, htest⟩ := check
  intro face rolled
  obtain ⟨hbefore, hrest⟩ := List.forall_mem_append.mp hflat
  obtain ⟨hp, hafter⟩ := List.forall_mem_cons.mp hrest
  have hrolled : Roller.each roll d.parts s =
      ((before.map fun q => ofFaces q []) ++
        ofFaces (onD20 p) [face] :: after.map fun q => ofFaces q [], s.after 1) := by
    simp only [hparts, Roller.each_append, Roller.each, each_roll_of_isAddend hbefore,
      roll_onD20 hp.fixed, each_roll_of_isAddend hafter, face]
  have hsame : rolled = (Roll.ofParts .generic (Roller.each roll d.parts s).1,
      (Roller.each roll d.parts s).2) := rfl
  have hnothing (parts : List Part) :
      (parts.map fun q => ofFaces q []).flatMap PartRoll.faces = [] := by
    simp
  rw [hsame]
  refine ⟨by rw [hrolled], ?_, ?_, fun within => ?_⟩
  · change (Roller.each roll d.parts s).1.flatMap PartRoll.faces = [face]
    rw [hrolled, List.flatMap_append, List.flatMap_cons, hnothing, hnothing]
    simp
  · change testOf (Roller.each roll d.parts s).1 = some test
    rw [testOf_eq, map_part_each_roll]
    exact htest
  · have hjoined := within.joinedTotal
    change joinedTotal (Roller.each roll d.parts s).1 = _ at hjoined
    change joinedTotal (Roller.each roll d.parts s).1 = _
    rw [hjoined]
    change exactJoined (Roller.each roll d.parts s).1 = _
    rw [hrolled, exactJoined, List.foldl_append, List.foldl_cons, foldl_exactly_of_isAddend hbefore,
      part_ofFaces, exactly_ofFaces_onD20 hp, foldl_exactly_of_isAddend hafter]
    simp only [List.map_append, List.map_cons, List.sum_append, List.sum_cons]
    omega

end Dice

end Tabletop
