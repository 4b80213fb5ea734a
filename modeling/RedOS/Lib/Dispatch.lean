/-
# `RedOS.Lib.Dispatch` — tables given by a chain of comparisons

A dispatcher compares its input with one case after the other and takes the
first that fits:

    if c₁ then some a₁ else if c₂ then some a₂ else … else none

What holds of its answers, or relates the answers of two dispatchers with the
same comparisons, is shown case by case.  The rules are the step of such a chain
and its end; for two of them the relation is `Option.Rel`.

    Entries       every answer has a property
    rel_ite       two chains take one case together
    rel_answers   neither answers, or both do and the answers are related
    rel_map       what is done to related answers
-/
import Mathlib.Logic.Basic

namespace Dispatch

variable {α β : Type}

/-- Whatever the table answers has the property. -/
def Entries (P : α → Prop) (x : Option α) : Prop := ∀ a, x = some a → P a

theorem Entries.none (P : α → Prop) : Entries P none := by
  intro a h
  cases h

theorem Entries.ite {P : α → Prop} {c : Prop} [Decidable c] {a : α} {x : Option α} (h : P a)
    (hrest : Entries P x) : Entries P (if c then some a else x) := by
  by_cases hc : c
  · rw [if_pos hc]
    intro b hb
    exact Option.some.inj hb ▸ h
  · rw [if_neg hc]
    exact hrest

section Rel

variable {R : α → β → Prop} {x : Option α} {y : Option β}

theorem rel_ite {c : Prop} [Decidable c] {a : α} {b : β} (h : R a b) (hrest : Option.Rel R x y) :
    Option.Rel R (if c then some a else x) (if c then some b else y) := by
  by_cases hc : c
  · rw [if_pos hc, if_pos hc]
    exact .some h
  · rw [if_neg hc, if_neg hc]
    exact hrest

theorem rel_answers (h : Option.Rel R x y) :
    (x = none ∧ y = none) ∨ ∃ a b, x = some a ∧ y = some b ∧ R a b := by
  cases h with
  | none => exact Or.inl ⟨rfl, rfl⟩
  | some hab => exact Or.inr ⟨_, _, rfl, rfl, hab⟩

theorem rel_map {α' β' : Type} {R' : α' → β' → Prop} {f : α → α'} {g : β → β'}
    (hfg : ∀ a b, R a b → R' (f a) (g b)) (h : Option.Rel R x y) :
    Option.Rel R' (x.map f) (y.map g) := by
  cases h with
  | none => exact .none
  | some hab => exact .some (hfg _ _ hab)

end Rel

end Dispatch
