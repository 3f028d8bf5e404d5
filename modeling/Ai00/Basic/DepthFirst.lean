import Mathlib

/-! # Searching a graph for cycles

A depth-first search with the elements that it is visiting and those that it has visited. It fails when it
comes to an element that it is visiting. It always ends, and fails exactly if the graph has a cycle
(`search_cases`).
-/

namespace Ai00.DepthFirst

open Relation

inductive Failure where
  | cycle
  /-- The search does not end. -/
  | hangs

variable {α : Type}

def Edge (successors : α → List α) (a b : α) : Prop := b ∈ successors a

/-- Some element leads back to itself. -/
def HasCycle (successors : α → List α) : Prop := ∃ a, TransGen (Edge successors) a a

section

variable [DecidableEq α] (successors : α → List α)

/-- Visits an element while those in `visiting` are visited; the fuel is for the depth. -/
def visit : ℕ → List α → List α → α → Except Failure (List α)
  | 0, _, _, _ => .error .hangs
  | fuel + 1, visiting, visited, a =>
    if a ∈ visiting then .error .cycle
    else if a ∈ visited then .ok visited
    else do
      let visited ← (successors a).foldlM (visit fuel (a :: visiting)) visited
      return a :: visited

def search (elements : List α) : Except Failure (List α) :=
  elements.foldlM (visit successors (elements.length + 1) []) []

end

/-! ## What has been visited -/

variable {successors : α → List α} {elements visiting visited : List α} {a : α}

/-- Visited elements lead to visited ones only, and not back to themselves. -/
structure Finished (successors : α → List α) (visited : List α) : Prop where
  closed : ∀ a ∈ visited, ∀ b ∈ successors a, b ∈ visited
  acyclic : ∀ a ∈ visited, ¬ TransGen (Edge successors) a a

theorem finished_nil : Finished successors [] := ⟨by simp, by simp⟩

theorem Finished.mem_of_reaches (h : Finished successors visited) {b : α} (ha : a ∈ visited)
    (hab : ReflTransGen (Edge successors) a b) : b ∈ visited := by
  induction hab with
  | refl => exact ha
  | tail _ hbc ih => exact h.closed _ ih _ hbc

theorem Finished.cons (h : Finished successors visited) (ha : ∀ b ∈ successors a, b ∈ visited) :
    Finished successors (a :: visited) where
  closed b hb c hc := by
    rcases List.mem_cons.mp hb with rfl | hb
    · exact List.mem_cons_of_mem _ (ha c hc)
    · exact List.mem_cons_of_mem _ (h.closed b hb c hc)
  acyclic b hb hcycle := by
    rcases List.mem_cons.mp hb with rfl | hb
    · obtain ⟨c, hc, hback⟩ := TransGen.head'_iff.mp hcycle
      exact h.acyclic b (h.mem_of_reaches (ha c hc) hback) hcycle
    · exact h.acyclic b hb hcycle

def Ends (successors : α → List α) (visited : List α) (seen : α → Prop) : Except Failure (List α) → Prop
  | .ok visited' => Finished successors visited' ∧ visited ⊆ visited' ∧ ∀ a, seen a → a ∈ visited'
  | .error .cycle => HasCycle successors
  | .error .hangs => False

theorem ends_foldlM {f : List α → α → Except Failure (List α)} {as : List α}
    (hf : ∀ a ∈ as, ∀ visited, Finished successors visited → Ends successors visited (· = a) (f visited a))
    (h : Finished successors visited) : Ends successors visited (· ∈ as) (as.foldlM f visited) := by
  induction as generalizing visited with
  | nil => exact ⟨h, List.Subset.refl _, by simp⟩
  | cons a as ih =>
    have hfirst := hf a List.mem_cons_self visited h
    rw [List.foldlM_cons]
    cases hresult : f visited a with
    | error e =>
      rw [hresult] at hfirst
      cases e with
      | cycle => exact hfirst
      | hangs => exact hfirst
    | ok next =>
      rw [hresult] at hfirst
      obtain ⟨hnext, hsub, hseen⟩ := hfirst
      have hrest := ih (fun b hb => hf b (List.mem_cons_of_mem _ hb)) hnext
      show Ends successors visited (· ∈ a :: as) (as.foldlM f next)
      cases hlast : as.foldlM f next with
      | error e =>
        rw [hlast] at hrest
        cases e with
        | cycle => exact hrest
        | hangs => exact hrest
      | ok last =>
        rw [hlast] at hrest
        obtain ⟨hlast, hsub', hseen'⟩ := hrest
        refine ⟨hlast, fun b hb => hsub' (hsub hb), fun b hb => ?_⟩
        rcases List.mem_cons.mp hb with rfl | hb
        · exact hsub' (hseen b rfl)
        · exact hseen' b hb

variable [DecidableEq α]

/-- **A visit ends** with the element finished or with a cycle: what is being visited leads to the element. -/
theorem visit_ends (hinside : ∀ a ∈ elements, ∀ b ∈ successors a, b ∈ elements) {fuel : ℕ}
    (ha : a ∈ elements) (hnodup : visiting.Nodup) (hvisiting : visiting ⊆ elements)
    (hleads : ∀ p ∈ visiting, TransGen (Edge successors) p a) (hfuel : elements.length < fuel + visiting.length)
    (h : Finished successors visited) :
    Ends successors visited (· = a) (visit successors fuel visiting visited a) := by
  induction fuel generalizing visiting visited a with
  | zero =>
    have hlength := (List.subperm_of_subset hnodup hvisiting).length_le
    omega
  | succ fuel ih =>
    rw [visit]
    split_ifs with hback hseen
    · exact ⟨a, hleads a hback⟩
    · exact ⟨h, List.Subset.refl _, fun b hb => hb ▸ hseen⟩
    · have hrounds : ∀ b ∈ successors a, ∀ visited, Finished successors visited →
          Ends successors visited (· = b) (visit successors fuel (a :: visiting) visited b) := by
        intro b hb visited hvisited
        refine ih (hinside a ha b hb) (List.nodup_cons.mpr ⟨hback, hnodup⟩)
          (List.cons_subset.mpr ⟨ha, hvisiting⟩) (fun p hp => ?_) ?_ hvisited
        · rcases List.mem_cons.mp hp with rfl | hp
          · exact .single hb
          · exact (hleads p hp).tail hb
        · rw [List.length_cons]
          omega
      have hchildren := ends_foldlM hrounds h
      cases hresult : (successors a).foldlM (visit successors fuel (a :: visiting)) visited with
      | error e =>
        rw [hresult] at hchildren
        cases e with
        | cycle => exact hchildren
        | hangs => exact hchildren
      | ok next =>
        rw [hresult] at hchildren
        obtain ⟨hnext, hsub, hall⟩ := hchildren
        refine ⟨hnext.cons hall, fun b hb => List.mem_cons_of_mem _ (hsub hb), fun b hb => ?_⟩
        rw [hb]
        exact List.mem_cons_self

/-- **The search ends**, and fails exactly if there is a cycle. -/
theorem search_cases (hinside : ∀ a ∈ elements, ∀ b ∈ successors a, b ∈ elements)
    (houtside : ∀ a, a ∉ elements → successors a = []) :
    (∃ visited, search successors elements = .ok visited) ∧ ¬ HasCycle successors
      ∨ search successors elements = .error .cycle ∧ HasCycle successors := by
  have hends : Ends successors [] (· ∈ elements) (search successors elements) := by
    refine ends_foldlM (fun a ha visited hvisited => ?_) finished_nil
    exact visit_ends hinside ha List.nodup_nil (List.nil_subset _) (by simp) (by simp) hvisited
  cases hresult : search successors elements with
  | error e =>
    rw [hresult] at hends
    cases e with
    | cycle => exact Or.inr ⟨rfl, hends⟩
    | hangs => exact hends.elim
  | ok visited =>
    rw [hresult] at hends
    obtain ⟨hfinished, -, hall⟩ := hends
    refine Or.inl ⟨⟨visited, rfl⟩, fun ⟨a, hcycle⟩ => ?_⟩
    by_cases ha : a ∈ elements
    · exact hfinished.acyclic a (hall a ha) hcycle
    · obtain ⟨b, hb, -⟩ := TransGen.head'_iff.mp hcycle
      rw [Edge, houtside a ha] at hb
      cases hb

end Ai00.DepthFirst
