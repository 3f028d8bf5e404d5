import Mathlib

/-! # Reading by key

Rows in the order of a key are read a page at a time: a page holds the first rows after a key, and the
next one the rows after the key of its last row. `after_last` says that nothing is lost or read twice
where two pages meet.
-/

namespace Ai00.Keyset

variable {α κ : Type} [LinearOrder κ] (key : α → κ)

/-- Rows in the order of their keys, no two of one key. -/
def Ordered (rows : List α) : Prop := rows.Pairwise fun a b => key a < key b

def after (bound : κ) (rows : List α) : List α := rows.filter fun a => bound < key a

/-- Rows put in the order of their keys. -/
def arrange (rows : List α) : List α := rows.insertionSort fun a b => key a ≤ key b

variable {key} {rows : List α} {bound : κ}

theorem mem_arrange {a : α} : a ∈ arrange key rows ↔ a ∈ rows := List.mem_insertionSort _

theorem arrange_ordered (h : (rows.map key).Nodup) : Ordered key (arrange key rows) := by
  have hperm : (arrange key rows).Perm rows := List.perm_insertionSort _ _
  have hnodup : (arrange key rows).Pairwise fun a b => key a ≠ key b :=
    List.pairwise_map.mp ((hperm.map key).nodup_iff.mpr h)
  have hsorted : (arrange key rows).Pairwise fun a b => key a ≤ key b := by
    have : Std.Total fun a b : α => key a ≤ key b := ⟨fun a b => le_total (key a) (key b)⟩
    have : IsTrans α fun a b : α => key a ≤ key b := ⟨fun a b c => le_trans⟩
    exact List.pairwise_insertionSort _ rows
  exact (hsorted.and hnodup).imp fun hpair => lt_of_le_of_ne hpair.1 hpair.2

theorem Ordered.after (h : Ordered key rows) : Ordered key (after key bound rows) := List.Pairwise.filter _ h

theorem mem_after {a : α} : a ∈ after key bound rows ↔ a ∈ rows ∧ bound < key a := by
  simp [after]

theorem after_eq_self (h : ∀ a ∈ rows, bound < key a) : after key bound rows = rows :=
  List.filter_eq_self.mpr fun a ha => decide_eq_true (h a ha)

theorem Ordered.after_getElem (h : Ordered key rows) {i : ℕ} (hi : i < rows.length) :
    Keyset.after key (key rows[i]) rows = rows.drop (i + 1) := by
  induction rows generalizing i with
  | nil => exact absurd hi (Nat.not_lt_zero i)
  | cons a rows ih =>
    obtain ⟨hfirst, hrest⟩ := List.pairwise_cons.mp h
    cases i with
    | zero =>
      show (a :: rows).filter _ = rows
      rw [List.filter_cons_of_neg (by simp)]
      exact after_eq_self hfirst
    | succ i =>
      have hi : i < rows.length := Nat.lt_of_succ_lt_succ hi
      have hskip : ¬ key rows[i] < key a := not_lt.mpr (hfirst _ (List.getElem_mem hi)).le
      show (a :: rows).filter (fun b => decide (key rows[i] < key b)) = rows.drop (i + 1)
      rw [List.filter_cons_of_neg (by simpa using hskip)]
      exact ih hrest hi

/-- **Where two pages meet**, the rows after the last of a page are those the page left. -/
theorem Ordered.after_last (h : Ordered key rows) {last : α} {size : ℕ}
    (hlast : (Keyset.after key bound rows)[size]? = some last) :
    Keyset.after key (key last) rows = (Keyset.after key bound rows).drop (size + 1) := by
  obtain ⟨hsize, rfl⟩ := List.getElem?_eq_some_iff.mp hlast
  have hbound : bound < key (Keyset.after key bound rows)[size] := (mem_after.mp (List.getElem_mem hsize)).2
  rw [← Ordered.after_getElem (@Ordered.after _ _ _ _ _ bound h) hsize]
  refine (List.filter_filter.trans (List.filter_congr fun a _ => ?_)).symm
  rw [Bool.and_eq_left_iff_imp]
  exact fun hlt => decide_eq_true (hbound.trans (of_decide_eq_true hlt))

theorem Ordered.ext {others : List α} (h : Ordered key rows) (h' : Ordered key others)
    (hmem : ∀ a, a ∈ rows ↔ a ∈ others) : rows = others := by
  have hnodup : ∀ {l : List α}, Ordered key l → l.Nodup := fun hl => hl.imp fun hlt heq => hlt.ne (congrArg key heq)
  have hperm : rows.Perm others := (List.perm_ext_iff_of_nodup (hnodup h) (hnodup h')).mpr hmem
  exact hperm.eq_of_pairwise (fun a b _ _ hab hba => absurd hab hba.not_gt) h h'

end Ai00.Keyset
