import Tabletop.Proofs.Roll.Simple
import Tabletop.Roll.Basic

/-!
# Rolling by a script

A group is rolled in reading order: the parts of the first member, then those of the next one, and
so on. Each part that rolls its dice plays the faces of the script that come next, one for each die,
and no other part plays any. So the place of the script at which a part begins is worked out from
the parts before it alone. The game system has no say in this, and raising damage plays nothing.
-/

namespace Tabletop

namespace Script

def after (s : Script) (count : Nat) : Script := { s with played := s.played + count }

@[simp] theorem played_after (s : Script) (count : Nat) :
    (s.after count).played = s.played + count := rfl

@[simp] theorem after_zero (s : Script) : s.after 0 = s := rfl

@[simp] theorem after_after (s : Script) (m n : Nat) : (s.after m).after n = s.after (m + n) := by
  simp [after, Nat.add_assoc]

@[simp] theorem faceAt_after (s : Script) (count i : Nat) : (s.after count).faceAt i = s.faceAt i :=
  rfl

/-- What dice with so many sides show from a place of the endless script on, one face for each. -/
def shown (s : Script) (sides start count : Nat) : List Nat :=
  (List.range count).map fun i => max 1 (min sides (s.faceAt (start + i)))

variable {α β : Type} {f : α → Script → β × Script} {cost : α → Nat}

/-- If each item plays a number of faces that it alone decides, then all together play the sum of
these, and each begins behind what the items before it play. -/
theorem each_of_cost (h : ∀ a s, (f a s).2 = s.after (cost a)) (items : List α) (s : Script) :
    (Roller.each f items s).2 = s.after (items.map cost).sum ∧
      ∀ k, (Roller.each f items s).1[k]? =
        items[k]?.map fun a => (f a (s.after ((items.take k).map cost).sum)).1 := by
  induction items generalizing s with
  | nil => exact ⟨rfl, fun k => rfl⟩
  | cons a rest ih =>
    obtain ⟨hstate, hitems⟩ := ih (f a s).2
    constructor
    · have hrest : (Roller.each f (a :: rest) s).2 = (Roller.each f rest (f a s).2).2 := rfl
      rw [hrest, hstate, h, after_after, List.map_cons, List.sum_cons]
    · intro k
      rw [Roller.each_cons]
      cases k with
      | zero => rfl
      | succ k =>
        rw [List.getElem?_cons_succ, List.getElem?_cons_succ, hitems, h, List.take_succ_cons,
          List.map_cons, List.sum_cons]
        simp only [after_after]

/-- A series plays the faces that come next. -/
theorem many_eq (count sides : Nat) (s : Script) :
    Roller.many count sides s = (s.shown sides s.played count, s.after count) := by
  have hmany : Roller.many count sides s =
      Roller.each (fun _ s => next sides s) (List.range count) s := rfl
  have hone : ∀ (i : Nat) (s : Script), (next sides s).2 = s.after 1 := fun _ _ => rfl
  obtain ⟨hstate, hfaces⟩ :=
    each_of_cost (f := fun _ s => next sides s) hone (List.range count) s
  rw [hmany]
  refine Prod.ext (List.ext_getElem? fun k => ?_) (by simpa using hstate)
  rw [hfaces, shown, List.getElem?_map]
  by_cases hk : k < count
  · simp [next, List.take_range, Nat.min_eq_left (Nat.le_of_lt hk), List.getElem?_range hk]
  · simp [hk]

end Script

def Part.draws (p : Part) : Nat := if p.fixed = none ∧ 0 < p.sides then p.count else 0

namespace PartRoll

/-- A part plays as many faces of the script as are drawn for it. -/
theorem snd_roll_script (p : Part) (s : Script) : (roll p s).2 = s.after p.draws := by
  rw [roll, Part.draws]
  cases p.fixed with
  | some faces => rfl
  | none =>
    by_cases hsides : p.sides = 0
    · simp [hsides]
    · simp [hsides, Nat.pos_of_ne_zero hsides, Script.many_eq]

/-- A part shows its fixed faces, or else the faces that come next, as many as are drawn for it. -/
theorem faces_roll_script (p : Part) (s : Script) :
    (roll p s).1.faces = p.fixed.getD (s.shown p.sides s.played p.draws) := by
  rw [roll, Part.draws]
  cases p.fixed with
  | some faces => simp
  | none =>
    by_cases hsides : p.sides = 0
    · simp [hsides, Script.shown]
    · simp [hsides, Nat.pos_of_ne_zero hsides, Script.many_eq]

end PartRoll

namespace GroupRoll

variable {ρ : Type} [Roller ρ]

/-- The game system has no say in what is rolled. -/
theorem parts_each_ofDice (system : System) (dice : List Dice) (r : ρ) :
    (Roller.each (Roll.ofDice system) dice r).1.map Roll.parts =
        (Roller.each (fun d => Roller.each PartRoll.roll d.parts) dice r).1 ∧
      (Roller.each (Roll.ofDice system) dice r).2 =
        (Roller.each (fun d => Roller.each PartRoll.roll d.parts) dice r).2 := by
  induction dice generalizing r with
  | nil => exact ⟨rfl, rfl⟩
  | cons d rest ih =>
    obtain ⟨hparts, hstate⟩ := ih (Roller.each PartRoll.roll d.parts r).2
    exact ⟨congrArg _ hparts, hstate⟩

/-- The members of a group are rolled like all their parts in one row. -/
theorem each_roll_flatMap_parts (dice : List Dice) (r : ρ) :
    Roller.each PartRoll.roll (dice.flatMap Dice.parts) r =
      ((Roller.each (fun d => Roller.each PartRoll.roll d.parts) dice r).1.flatten,
        (Roller.each (fun d => Roller.each PartRoll.roll d.parts) dice r).2) := by
  have hmember : ∀ d ∈ dice, ∀ r : ρ, Roller.each PartRoll.roll d.parts r =
      (id (Roller.each PartRoll.roll d.parts r).1, (Roller.each PartRoll.roll d.parts r).2) :=
    fun _ _ _ => rfl
  rw [Roller.each_flatMap hmember, List.flatMap_id]

theorem definitions_each_ofDice (system : System) (dice : List Dice) (r : ρ) :
    (Roller.each (Roll.ofDice system) dice r).1.map Roll.definitions = dice.map Dice.parts := by
  induction dice generalizing r with
  | nil => rfl
  | cons d rest ih =>
    rw [Roller.each_cons, List.map_cons, ih, List.map_cons]
    exact congrArg (· :: _) (PartRoll.map_part_each_roll d.parts r)

/-- By a script, a group plays one face for each die of a part with sides and without fixed faces,
and raising damage plays none. Before damage is raised, each of these parts shows the faces of the
script that come right behind those of all parts before it; other parts show their fixed faces or
nothing. Another game system, verbosity or method for critical damage makes no difference to what is
rolled, kept and played. -/
theorem faces_pending (system : System) (g : Group) (s : Script) :
    let parts := g.dice.flatMap Dice.parts
    let rolled := pending system g s
    rolled.2 = s.after (parts.map Part.draws).sum ∧ (ofGroup system g s).2 = rolled.2 ∧
      rolled.1.rolls.map Roll.definitions = g.dice.map Dice.parts ∧
      (∀ k, (rolled.1.rolls.flatMap Roll.parts)[k]?.map PartRoll.faces =
        parts[k]?.map fun (p : Part) => p.fixed.getD
          (s.shown p.sides (s.played + ((parts.take k).map Part.draws).sum) p.draws)) ∧
      ∀ system' verbosity critMethod,
        let other := pending system' { g with verbosity, critMethod } s
        other.1.rolls.map Roll.parts = rolled.1.rolls.map Roll.parts ∧ other.2 = rolled.2 := by
  intro parts rolled
  obtain ⟨hparts, hstate⟩ := parts_each_ofDice system g.dice s
  obtain ⟨hrow, hrowState⟩ := Prod.mk.inj (each_roll_flatMap_parts g.dice s).symm
  obtain ⟨hplayed, hplace⟩ := Script.each_of_cost PartRoll.snd_roll_script parts s
  refine ⟨?_, rfl, definitions_each_ofDice system g.dice s, fun k => ?_,
    fun system' verbosity critMethod => ?_⟩
  · exact hstate.trans (hrowState.trans hplayed)
  · have hall : rolled.1.rolls.flatMap Roll.parts = (Roller.each PartRoll.roll parts s).1 := by
      rw [List.flatMap_def]
      exact (congrArg List.flatten hparts).trans hrow
    rw [hall, hplace, Option.map_map]
    exact Option.map_congr fun p _ => PartRoll.faces_roll_script p _
  · obtain ⟨hparts', hstate'⟩ := parts_each_ofDice system' g.dice s
    exact ⟨hparts'.trans hparts.symm, hstate'.trans hstate.symm⟩

/-- Fixed faces and a number draw nothing between dice, and the script starts over. -/
example :
    let first : Dice :=
      ⟨[{ count := 2, sides := 6 }, { count := 1, sides := 8, fixed := some [7] }]⟩
    let second : Dice := ⟨[.flat .minus 2, { count := 3, sides := 4, sign := .minus }]⟩
    let g : Group := { dice := [first, second] }
    let rolled := pending .vampire g (Script.mk [5, 9, 0] 2)
    (rolled.1.rolls.map fun r => r.parts.map PartRoll.faces) = [[[1, 5], [7]], [[], [4, 1, 4]]] ∧
      rolled.2.played = 7 := by decide

end GroupRoll

end Tabletop
