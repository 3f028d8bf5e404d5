import Mathlib

/-! # Acyclic parent relations

`parent a b` says that `b` is a parent of `a`; the ancestors of `a` are what `TransGen parent`
leads to. When one element gets another parent, the relation stays acyclic exactly if the new
parent is not the element itself and has it for no ancestor (`acyclic_redirect_iff`).
-/

namespace Ai00.Ancestors

open Relation

variable {α : Type} {parent parent' : α → α → Prop} {a b g p : α}

/-- No element is its own ancestor. -/
def Acyclic (parent : α → α → Prop) : Prop := ∀ a, ¬ TransGen parent a a

theorem Acyclic.mono (h : Acyclic parent) (hsub : ∀ a b, parent' a b → parent a b) :
    Acyclic parent' := fun a ha => h a (TransGen.mono hsub a a ha)

theorem acyclic_of_measure (f : α → Nat) (h : ∀ a b, parent a b → f b < f a) : Acyclic parent := by
  have hfalls : ∀ {a b}, TransGen parent a b → f b < f a := by
    intro a b hab
    induction hab with
    | single hab => exact h _ _ hab
    | tail _ hbc ih => exact lt_trans (h _ _ hbc) ih
  exact fun a ha => lt_irrefl _ (hfalls ha)

/-- A chain of ancestors reaches `g` through elements other than `g`. -/
theorem transGen_of_agree (hagree : ∀ a b, a ≠ g → parent a b → parent' a b) (ha : a ≠ g)
    (h : TransGen parent a g) : TransGen parent' a g := by
  induction h using TransGen.head_induction_on with
  | single hag => exact .single (hagree _ _ ha hag)
  | @head a b hab _ ih =>
    by_cases hb : b = g
    · exact .single (hb ▸ hagree _ _ ha hab)
    · exact .head (hagree _ _ ha hab) (ih hb)

/-- With one more edge, from `g` to `p`, every chain is an old one or goes through the edge. -/
theorem transGen_cases (hedge : ∀ a b, parent' a b → parent a b ∨ (a = g ∧ b = p))
    (h : TransGen parent' a b) : TransGen parent a b ∨
      (ReflTransGen parent a g ∧ ReflTransGen parent p b) := by
  induction h with
  | single hab =>
    rcases hedge _ _ hab with hold | ⟨rfl, rfl⟩
    · exact Or.inl (.single hold)
    · exact Or.inr ⟨.refl, .refl⟩
  | tail _ hbc ih =>
    rcases hedge _ _ hbc with hold | ⟨rfl, rfl⟩
    · rcases ih with hab | ⟨hag, hpb⟩
      · exact Or.inl (.tail hab hold)
      · exact Or.inr ⟨hag, .tail hpb hold⟩
    · rcases ih with hab | ⟨hag, -⟩
      · exact Or.inr ⟨hab.to_reflTransGen, .refl⟩
      · exact Or.inr ⟨hag, .refl⟩

/-- **Another parent for one element** keeps a relation acyclic exactly if the new parent is not
the element and does not descend from it. -/
theorem acyclic_redirect_iff (hold : Acyclic parent)
    (hagree : ∀ a b, a ≠ g → (parent' a b ↔ parent a b)) (hnew : ∀ b, parent' g b ↔ b = p) :
    Acyclic parent' ↔ p ≠ g ∧ ¬ TransGen parent p g := by
  constructor
  · intro hacyclic
    have hedge : parent' g p := (hnew p).mpr rfl
    have hne : p ≠ g := by
      rintro rfl
      exact hacyclic p (.single hedge)
    refine ⟨hne, fun hdescends => hacyclic g ?_⟩
    exact .head hedge (transGen_of_agree (fun a b ha => (hagree a b ha).mpr) hne hdescends)
  · rintro ⟨hne, hdescends⟩ a ha
    have hedge : ∀ a b, parent' a b → parent a b ∨ (a = g ∧ b = p) := by
      intro a b hab
      by_cases hag : a = g
      · subst hag
        exact Or.inr ⟨rfl, (hnew b).mp hab⟩
      · exact Or.inl ((hagree a b hag).mp hab)
    rcases transGen_cases hedge ha with hcycle | ⟨hag, hpa⟩
    · exact hold a hcycle
    · rcases reflTransGen_iff_eq_or_transGen.mp (hpa.trans hag) with heq | hpg
      · exact hne heq.symm
      · exact hdescends hpg

end Ai00.Ancestors
