import Ai00.Basic.Ancestors

/-! # Lineages

`up a none` says that `a` is a root and `up a (some p)` that its parent is `p`. `LeadsTo up path a`
says that `path` is the chain of ancestors of `a`, a root first and its parent last. Where `up` is a
function the chain is unique (`LeadsTo.unique`), names no element twice (`LeadsTo.nodup`) and keeps
its element off every cycle (`LeadsTo.not_transGen`).
-/

namespace Ai00.Lineage

open Relation

variable {α : Type} {up up' : α → Option α → Prop} {a b p : α} {path path' : List α}

inductive LeadsTo (up : α → Option α → Prop) : List α → α → Prop where
  | root {a : α} : up a none → LeadsTo up [] a
  | child {a p : α} {path : List α} : up a (some p) → LeadsTo up path p → LeadsTo up (path ++ [p]) a

/-- An element has one parent at most. -/
def Functional (up : α → Option α → Prop) : Prop := ∀ a p q, up a p → up a q → p = q

theorem leadsTo_nil_iff : LeadsTo up [] a ↔ up a none := by
  constructor
  · intro h
    generalize hpath : ([] : List α) = path at h
    cases h with
    | root hroot => exact hroot
    | child => exact absurd hpath.symm (List.append_ne_nil_of_right_ne_nil _ (List.cons_ne_nil _ _))
  · exact .root

theorem leadsTo_concat_iff : LeadsTo up (path ++ [p]) a ↔ up a (some p) ∧ LeadsTo up path p := by
  constructor
  · intro h
    generalize hpath : path ++ [p] = whole at h
    cases h with
    | root => exact absurd hpath (List.append_ne_nil_of_right_ne_nil _ (List.cons_ne_nil _ _))
    | child hup hrest =>
      obtain ⟨rfl, hp⟩ := List.append_inj' hpath rfl
      obtain rfl : p = _ := List.singleton_inj.mp hp
      exact ⟨hup, hrest⟩
  · exact fun h => .child h.1 h.2

/-- A lineage holds along a relation that agrees with the first one on what is met. -/
theorem LeadsTo.mono_on (met : α → Prop) (h : LeadsTo up path a) (ha : met a)
    (hclosed : ∀ a p, met a → up a (some p) → met p)
    (hsub : ∀ a p, met a → up a p → up' a p) : LeadsTo up' path a := by
  induction h with
  | root hroot => exact .root (hsub _ _ ha hroot)
  | child hup _ ih => exact .child (hsub _ _ ha hup) (ih (hclosed _ _ ha hup))

theorem LeadsTo.mono (h : LeadsTo up path a) (hsub : ∀ a p, up a p → up' a p) :
    LeadsTo up' path a :=
  h.mono_on (fun _ => True) trivial (fun _ _ _ _ => trivial) fun a p _ => hsub a p

theorem LeadsTo.head_root {r : α} {rest : List α} (h : LeadsTo up (r :: rest) a) : up r none := by
  generalize hpath : r :: rest = whole at h
  induction h generalizing rest with
  | root => cases hpath
  | @child a p path hup hrest ih =>
    cases path with
    | nil =>
      obtain ⟨rfl, -⟩ := List.cons.inj hpath
      exact leadsTo_nil_iff.mp hrest
    | cons s path =>
      obtain ⟨rfl, -⟩ := List.cons.inj hpath
      exact ih rfl

theorem LeadsTo.above {above below : List α} (h : LeadsTo up (above ++ b :: below) a) :
    LeadsTo up above b := by
  induction below using List.reverseRecOn generalizing a with
  | nil => exact (leadsTo_concat_iff.mp h).2
  | append_singleton below p ih =>
    have hsplit : above ++ b :: (below ++ [p]) = (above ++ b :: below) ++ [p] := by simp
    rw [hsplit] at h
    exact ih (leadsTo_concat_iff.mp h).2

section

variable (hup : Functional up)
include hup

theorem LeadsTo.unique (h : LeadsTo up path a) (h' : LeadsTo up path' a) : path = path' := by
  induction h generalizing path' with
  | root hroot =>
    cases h' with
    | root => rfl
    | child hp => cases hup _ _ _ hroot hp
  | child hp _ ih =>
    cases h' with
    | root hroot => cases hup _ _ _ hp hroot
    | child hq hrest =>
      obtain rfl := Option.some.inj (hup _ _ _ hp hq)
      rw [ih hrest]

/-- **A lineage names no element twice**, the element it leads to among them. -/
theorem LeadsTo.nodup (h : LeadsTo up path a) : (path ++ [a]).Nodup := by
  -- an element on its own lineage would have two lineages of different lengths
  have hfresh : ∀ {path a}, LeadsTo up path a → a ∉ path := by
    intro path a hpath hmem
    obtain ⟨above, below, rfl⟩ := List.append_of_mem hmem
    have hlength := congrArg List.length (hpath.above.unique hup hpath)
    rw [List.length_append, List.length_cons] at hlength
    omega
  induction h with
  | root => exact List.nodup_singleton _
  | child hp hrest ih =>
    have hnot := hfresh (.child hp hrest)
    refine List.nodup_append.mpr ⟨ih, List.nodup_singleton _, fun x hx y hy => ?_⟩
    rw [List.mem_singleton] at hy
    rintro rfl
    exact hnot (hy ▸ hx)

theorem LeadsTo.length_lt (h : LeadsTo up path a)
    (hreach : TransGen (fun a p => up a (some p)) a b) :
    ∃ above, LeadsTo up above b ∧ above.length < path.length := by
  induction hreach with
  | single hp =>
    cases h with
    | root hroot => cases hup _ _ _ hroot hp
    | @child _ q above hq hrest =>
      obtain rfl := Option.some.inj (hup _ _ _ hq hp)
      exact ⟨above, hrest, by simp⟩
  | tail _ hp ih =>
    obtain ⟨above, habove, hlt⟩ := ih
    cases habove with
    | root hroot => cases hup _ _ _ hroot hp
    | @child _ q higher hq hrest =>
      obtain rfl := Option.some.inj (hup _ _ _ hq hp)
      refine ⟨higher, hrest, lt_trans ?_ hlt⟩
      simp

/-- **What has a lineage is on no cycle.** -/
theorem LeadsTo.not_transGen (h : LeadsTo up path a) : ¬ TransGen (fun a p => up a (some p)) a a := by
  intro hcycle
  obtain ⟨above, habove, hlt⟩ := h.length_lt hup hcycle
  exact absurd (congrArg List.length (habove.unique hup h)) hlt.ne

end

end Ai00.Lineage
