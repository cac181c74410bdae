import Tabletop.Group

/-!
# What is read from tokens

A part is read token by token. What holds of the empty part and is kept by everything that a
token can say of a part holds of the part that was read.
-/

namespace Tabletop

namespace Part

/-- What a token can do to the part on the way. -/
theorem Draft.part_add (system : System) (d : Draft) (t : Token) :
    (d.add system t).part = d.part ∨
      (t.kind = .dice ∧ (d.add system t).part = d.part.withDice t) ∨
      (t.kind = .modifier ∧ (d.add system t).part = d.part.withModifier t) ∨
      (∃ test, t.kind = .test ∧ Test.ofToken? t = some test ∧
        (d.add system t).part = { d.part with test := some test }) ∨
      system.absorb? d.part t = some (d.add system t).part := by
  rw [add]
  split
  · exact .inl rfl
  · next hkind => exact .inr (.inl ⟨hkind, rfl⟩)
  · next hkind => exact .inr (.inr (.inl ⟨hkind, rfl⟩))
  · next hkind =>
    cases htest : Test.ofToken? t with
    | some test => exact .inr (.inr (.inr (.inl ⟨test, hkind, rfl, rfl⟩)))
    | none => exact .inl rfl
  · cases habsorb : system.absorb? d.part t with
    | some part => exact .inr (.inr (.inr (.inr rfl)))
    | none => exact .inl rfl

/-- What every token keeps of a part holds after all of them. -/
theorem Draft.foldl_add_induction {system : System} (holds : Part → Prop) {tokens : List Token}
    (keeps : ∀ t ∈ tokens, ∀ d : Draft, holds d.part → holds (d.add system t).part) {d : Draft}
    (h : holds d.part) : holds (tokens.foldl (add system) d).part := by
  induction tokens generalizing d with
  | nil => exact h
  | cons t rest ih =>
    obtain ⟨ht, hrest⟩ := List.forall_mem_cons.mp keeps
    exact ih hrest (ht d h)

/-- What tokens say of a part, one after the other, and the last word of the system. -/
theorem ofTokens_induction {system : System} (holds : Part → Prop) {tokens : List Token}
    (empty : holds empty)
    (dice : ∀ t ∈ tokens, t.kind = .dice → ∀ p, holds p → holds (p.withDice t))
    (modifier : ∀ t ∈ tokens, t.kind = .modifier → ∀ p, holds p → holds (p.withModifier t))
    (test : ∀ t ∈ tokens, t.kind = .test → ∀ test, Test.ofToken? t = some test → ∀ p, holds p →
      holds { p with test := some test })
    (absorb : ∀ t ∈ tokens, ∀ p q, system.absorb? p t = some q → holds p → holds q)
    (finish : ∀ p description, holds p → holds (system.finish { p with description })) :
    holds (ofTokens system tokens) := by
  refine finish _ _ (Draft.foldl_add_induction holds (fun t ht d h => ?_) empty)
  rcases d.part_add system t with hpart | ⟨hkind, hpart⟩ | ⟨hkind, hpart⟩ |
    ⟨read, hkind, hread, hpart⟩ | habsorb
  · rwa [hpart]
  · rw [hpart]
    exact dice t ht hkind _ h
  · rw [hpart]
    exact modifier t ht hkind _ h
  · rw [hpart]
    exact test t ht hkind read hread _ h
  · exact absorb t ht _ _ habsorb h

/-- A number changes nothing but the sign and the modifier. -/
theorem exists_withModifier_eq (p : Part) (k : Token) :
    ∃ sign modifier, p.withModifier k = { p with sign, modifier } := by
  rw [Part.withModifier]
  cases (k.capture 2).bind Decimal.readTotal? with
  | none => exact ⟨p.sign, p.modifier, rfl⟩
  | some n =>
    by_cases hsides : p.sides = 0
    · exact ⟨_, n, if_pos hsides⟩
    · simp only [if_neg hsides]
      split <;> exact ⟨p.sign, _, rfl⟩

/-- A token of the system's own changes nothing but the marks of the system. -/
theorem exists_absorb?_eq {system : System} {p q : Part} {t : Token}
    (h : system.absorb? p t = some q) :
    ∃ hunger critThreshold, q = { p with hunger, critThreshold } := by
  unfold System.absorb? at h
  split at h <;> cases h <;> exact ⟨_, _, rfl⟩

/-- The last word of the system is whether the part is a saving throw. -/
theorem exists_finish_eq (system : System) (p : Part) :
    ∃ save, system.finish p = { p with save } := by
  unfold System.finish
  split
  · split <;> exact ⟨_, rfl⟩
  · exact ⟨p.save, rfl⟩

/-- What is read is what the tokens leave of the empty part, described by their loose text. Only
whether it is a saving throw is up to the system. -/
theorem exists_ofTokens_eq (system : System) (tokens : List Token) :
    let d := tokens.foldl (Draft.add system) ⟨empty, []⟩
    ∃ save, ofTokens system tokens = { d.part with description := d.loose.squeeze, save } :=
  exists_finish_eq system _

/-- Nothing that is read from tokens is fixed. -/
theorem fixed_ofTokens (system : System) (tokens : List Token) :
    (ofTokens system tokens).fixed = none := by
  refine ofTokens_induction (fun p => p.fixed = none) rfl (fun t _ _ p h => h)
    (fun t _ _ p h => ?_) (fun t _ _ test _ p h => h) (fun t _ p q hq h => ?_)
    (fun p description h => ?_)
  · obtain ⟨sign, modifier, hp⟩ := p.exists_withModifier_eq t
    rw [hp]
    exact h
  · obtain ⟨hunger, critThreshold, rfl⟩ := exists_absorb?_eq hq
    exact h
  · obtain ⟨save, hp⟩ := exists_finish_eq system { p with description }
    rw [hp]
    exact h

end Part

end Tabletop
