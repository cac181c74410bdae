import Tabletop.Proofs.Checked.Parts

/-!
# Checked rolls

A pool counts hunger dice, splits them off its end and counts its successes, and a critical hit adds
a part to a roll or doubles its dice. With as many parts as a command can have and two thousand dice
in each of them no check fails.
-/

namespace Tabletop

open Checked

namespace Pool

open PartRoll

/-- The pool of some rolled parts, with its hunger dice split off. -/
def ofParts? (parts : List PartRoll) : Option Pool := do
  let dice := keptDice parts
  let asked ← sumUpTo? greatestPlace (parts.filterMap fun p => p.part.hunger)
  let regular ← sub? dice.length (min asked dice.length)
  let (base, hunger) ← splitAt? regular dice
  some ⟨base, hunger, flatTotal parts⟩

/-- The number of successes, first as a count and then as a total. -/
def successes? (p : Pool) : Option Nat := do
  let extra ← place? (2 * (p.criticals / 2))
  let successes ← place? (p.dice.countP (fun face => successFace ≤ face) + extra)
  upTo? Total.greatest.toNat successes

def total? (p : Pool) : Option Int := do
  let successes ← p.successes?
  some (Total.add successes p.modifier)

variable {parts : List PartRoll}

theorem hungerCount_le {limit most : Nat} (h : Counted limit most parts) :
    hungerCount parts ≤ limit * maxCount := by
  have hasked : ∀ n ∈ parts.filterMap fun p => p.part.hunger, n ≤ maxCount := by
    intro n hn
    obtain ⟨p, hp, hhunger⟩ := List.mem_filterMap.mp hn
    exact (h.parts p hp).part.hunger n hhunger
  have hlength : (parts.filterMap fun p => p.part.hunger).length ≤ limit :=
    (List.length_filterMap_le _ _).trans h.length
  exact (List.sum_le_card_nsmul _ maxCount hasked).trans (Nat.mul_le_mul_right maxCount hlength)

theorem length_keptDice_le {limit most : Nat} (h : Counted limit most parts) :
    (keptDice parts).length ≤ limit * most := by
  have hkept : ∀ n ∈ (parts.filter fun p => p.part.hasDice).map fun p => p.keptFaces.length,
      n ≤ most := List.forall_mem_map.mpr fun p hp =>
    p.keptFaces_sublist.length_le.trans (h.parts p (List.mem_of_mem_filter hp)).length
  have hsum := List.sum_le_card_nsmul _ most hkept
  rw [List.length_map] at hsum
  rw [keptDice, List.length_flatMap]
  exact hsum.trans (Nat.mul_le_mul_right most ((List.length_filter_le _ _).trans h.length))

/-- The hunger dice are counted, and no more are split off than there are dice. -/
theorem ofParts?_eq (h : Counted (maxCount + 1) (maxDice * 2) parts) :
    ofParts? parts = some (ofParts parts) := by
  -- 2 ^ 32 parts ask for less than 2 ^ 32 hunger dice each
  have hasked : (parts.filterMap fun p => p.part.hunger).sum ≤ greatestPlace :=
    (hungerCount_le h).trans (by decide)
  -- a plain difference stops at zero, so there the minimum may be left out
  have hregular : (keptDice parts).length -
      min (parts.filterMap fun p => p.part.hunger).sum (keptDice parts).length =
        (keptDice parts).length - hungerCount parts := by
    have hsum : (parts.filterMap fun p => p.part.hunger).sum = hungerCount parts := rfl
    omega
  rw [ofParts?, sumUpTo?_of_le hasked, Option.bind_eq_bind, Option.bind_some,
    sub?_of_le (Nat.min_le_right _ _), Option.bind_some, hregular,
    splitAt?_of_le (Nat.sub_le _ _)]
  rfl

/-- More hunger dice than there are places cannot be counted. -/
example : ofParts? [⟨{ hunger := some greatestPlace }, []⟩, ⟨{ hunger := some 1 }, []⟩] = none := by
  decide

/-- There are at most two successes for each die. -/
theorem successes_le (p : Pool) : p.successes ≤ 2 * p.dice.length := by
  have hhits : p.dice.countP (fun face => successFace ≤ face) ≤ p.dice.length :=
    List.countP_le_length
  have hcriticals : p.criticals ≤ p.dice.length := List.countP_le_length
  rw [successes]
  omega

theorem successes?_eq (h : Counted (maxCount + 1) (maxDice * 2) parts) :
    (ofParts parts).successes? = some (ofParts parts).successes := by
  have hdice : (ofParts parts).dice.length ≤ (maxCount + 1) * (maxDice * 2) := by
    rw [dice_ofParts]
    exact length_keptDice_le h
  have hle : (ofParts parts).successes ≤ Total.greatest.toNat :=
    (successes_le _).trans ((Nat.mul_le_mul_left 2 hdice).trans (by decide))
  have hplace : (ofParts parts).successes ≤ greatestPlace := hle.trans (by decide)
  rw [successes] at hle hplace ⊢
  rw [successes?, place?_of_le (by omega), Option.bind_eq_bind, Option.bind_some,
    place?_of_le hplace, Option.bind_some, upTo?_of_le hle]

theorem total?_eq (h : Counted (maxCount + 1) (maxDice * 2) parts) :
    (ofParts parts).total? = some (ofParts parts).total := by
  rw [total?, successes?_eq h]
  rfl

end Pool

namespace System

open PartRoll

/-- The total of rolled parts of which the own totals are known already. -/
def total? (s : System) (parts : List PartRoll) : Option Int :=
  match s with
  | .vampire => do
    let pool ← Pool.ofParts? parts
    pool.total?
  | _ => some (joinedTotal parts)

def grade? (s : System) (parts : List PartRoll) (total : Int) : Option Grade :=
  match s with
  | .vampire => do
    let pool ← Pool.ofParts? parts
    some (pool.grade (testOf parts) total)
  | _ => some (s.grade parts total)

variable {parts : List PartRoll}

theorem total?_eq (s : System) (h : Counted (maxCount + 1) (maxDice * 2) parts) :
    s.total? parts = some (s.total parts) := by
  cases s with
  | generic | pathfinder => rfl
  | vampire =>
    rw [total?, Pool.ofParts?_eq h]
    exact Pool.total?_eq h

theorem grade?_eq (s : System) (h : Counted (maxCount + 1) (maxDice * 2) parts) (total : Int) :
    s.grade? parts total = some (s.grade parts total) := by
  cases s with
  | generic | pathfinder => rfl
  | vampire =>
    rw [grade?, Pool.ofParts?_eq h]
    rfl

end System

def Roller.each? {α β ρ : Type} (f : α → ρ → Option (β × ρ)) : List α → ρ → Option (List β × ρ)
  | [], r => some ([], r)
  | a :: rest, r => do
    let first ← f a r
    let others ← each? f rest first.2
    some (first.1 :: others.1, others.2)

theorem Roller.each?_eq {α β ρ : Type} {f : α → ρ → Option (β × ρ)} {g : α → ρ → β × ρ}
    {sound : ρ → Prop} {items : List α} (keeps : ∀ a ∈ items, ∀ r, sound r → sound (g a r).2)
    (exact : ∀ a ∈ items, ∀ r, sound r → f a r = some (g a r)) {r : ρ} (h : sound r) :
    each? f items r = some (each g items r) := by
  induction items generalizing r with
  | nil => rfl
  | cons a rest ih =>
    have hrest := ih (fun b hb => keeps b (List.mem_cons_of_mem a hb))
      (fun b hb => exact b (List.mem_cons_of_mem a hb)) (keeps a List.mem_cons_self r h)
    rw [each?, exact a List.mem_cons_self r h, Option.bind_eq_bind, Option.bind_some, hrest]
    rfl

namespace Roll

open PartRoll

def ofParts? (system : System) (parts : List PartRoll) : Option Roll := do
  let total ← system.total? parts
  let grade ← system.grade? parts total
  some { parts, total, grade }

def ofDice? {ρ : Type} [Roller ρ] (system : System) (d : Dice) (r : ρ) : Option (Roll × ρ) := do
  let parts ← Roller.each? PartRoll.roll? d.parts r
  let rolled ← ofParts? system parts.1
  some (rolled, parts.2)

def maxDiceValue? (r : Roll) : Option Int :=
  (r.definitions.filter Part.hasDice).foldlM (fun total p => do
    let value ← p.maxDiceValue?
    some (p.sign.apply total value)) 0

def raisedParts? (method : CritMethod) (r : Roll) : Option (List PartRoll) :=
  match method with
  | .timesTwo => do
    let factor ← ofFaces? (.flat .times 2) []
    some (r.parts ++ [factor])
  | .rollTwice => r.parts.mapM PartRoll.doubled?
  | .addMax => do
    let value ← r.maxDiceValue?
    let more ← ofFaces? (.flat .plus value) []
    some (r.parts ++ [more])

def raised? (system : System) (method : CritMethod) (r : Roll) : Option Roll := do
  let parts ← raisedParts? method r
  let raised ← ofParts? system parts
  some { raised with critical := some method }

theorem ofParts?_eq (system : System) {parts : List PartRoll}
    (h : Counted (maxCount + 1) (maxDice * 2) parts) :
    ofParts? system parts = some (ofParts system parts) := by
  rw [ofParts?, system.total?_eq h, Option.bind_eq_bind, Option.bind_some, system.grade?_eq h]
  rfl

theorem maxDiceValue?_eq {limit : Nat} {r : Roll} (h : Counted limit (maxDice * 2) r.parts) :
    r.maxDiceValue? = some r.maxDiceValue := by
  refine foldlM_eq_some (fun p hp total => ?_) 0
  obtain ⟨rolled, hrolled, rfl⟩ := List.mem_map.mp (List.mem_of_mem_filter hp)
  rw [Part.maxDiceValue?_eq (h.parts rolled hrolled).part]
  rfl

/-- Raising a roll adds a part or doubles the dice. -/
theorem counted_raised (system : System) (method : CritMethod) {r : Roll}
    (h : Counted maxCount maxDice r.parts) :
    Counted (maxCount + 1) (maxDice * 2) (r.raised system method).parts := by
  have hparts := h.mono (Nat.le_succ _) (Nat.le_mul_of_pos_right maxDice (by decide : 0 < 2))
  have concat (sign : Sign) (n : Int) :
      Counted (maxCount + 1) (maxDice * 2) (r.parts ++ [ofFaces (.flat sign n) []]) := by
    refine ⟨?_, List.forall_mem_append.mpr
      ⟨hparts.parts, List.forall_mem_singleton.mpr (isWithin_flat _ sign n)⟩⟩
    rw [List.length_append]
    exact Nat.add_le_add_right h.length 1
  cases method with
  | timesTwo | addMax => exact concat _ _
  | rollTwice =>
    exact ⟨(List.length_map _).le.trans hparts.length,
      List.forall_mem_map.mpr fun p hp => (h.parts p hp).doubled⟩

theorem raisedParts?_eq (system : System) (method : CritMethod) {r : Roll}
    (h : Counted maxCount maxDice r.parts) :
    raisedParts? method r = some (r.raised system method).parts := by
  have hflat (sign : Sign) (n : Int) :
      ofFaces? (.flat sign n) [] = some (ofFaces (.flat sign n) []) :=
    ofFaces?_eq (Part.isWithin_flat _ sign n) (Nat.zero_le _) nofun
  cases method with
  | timesTwo =>
    rw [raisedParts?, hflat]
    rfl
  | rollTwice => exact mapM_eq_some fun p hp => doubled?_eq (h.parts p hp)
  | addMax =>
    rw [raisedParts?, maxDiceValue?_eq (h.mono le_rfl (by decide)), Option.bind_eq_bind,
      Option.bind_some, hflat]
    rfl

theorem raised?_eq (system : System) (method : CritMethod) {r : Roll}
    (h : Counted maxCount maxDice r.parts) :
    r.raised? system method = some (r.raised system method) := by
  rw [raised?, raisedParts?_eq system method h, Option.bind_eq_bind, Option.bind_some,
    ofParts?_eq system (counted_raised system method h)]
  rfl

variable {ρ : Type} [Roller ρ] {sound : ρ → Prop}

theorem ofDice?_eq (lawful : Roller.Lawful sound) (system : System) {d : Dice}
    (within : d.IsWithin) {r : ρ} (h : sound r) :
    ofDice? system d r = some (ofDice system d r) ∧
      Counted maxCount maxDice (ofDice system d r).1.parts := by
  have hrolled (p : Part) (hp : p ∈ d.parts) (r : ρ) (hr : sound r) :=
    roll?_eq lawful (within.parts p hp) (within.fixed p hp) hr
  have keeps : ∀ p ∈ d.parts, ∀ r, sound r → sound (PartRoll.roll p r).2 := fun p _ r hr =>
    sound_roll lawful p hr
  have hparts : Counted maxCount maxDice (Roller.each PartRoll.roll d.parts r).1 := by
    refine ⟨?_, Roller.forall_mem_each_of keeps (fun p hp r hr => (hrolled p hp r hr).2) h⟩
    rw [Roller.length_each]
    exact within.length
  refine ⟨?_, hparts⟩
  rw [ofDice?, Roller.each?_eq keeps (fun p hp r hr => (hrolled p hp r hr).1) h,
    Option.bind_eq_bind, Option.bind_some,
    ofParts?_eq system (hparts.mono (Nat.le_succ _) (by decide))]
  rfl

end Roll

end Tabletop
