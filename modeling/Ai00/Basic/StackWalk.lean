import Mathlib

/-! # Walking a graph with a stack

`walk` takes a place from the top of a stack, puts its children on the stack and goes on; it gives up
at a place that it has been to. In a forest, where each place has one parent or none and parents get
nearer to a root, it gives up nowhere: from the roots it goes to every place once (`walk_forest`).
-/

namespace Ai00.StackWalk

variable {κ ε : Type} [DecidableEq κ]

/-- Where the walk has been, the last place first. The children of a place get on the stack one after
another, so that the last one is on top. -/
def walk (children : κ → List κ) (again hangs : ε) : ℕ → List κ → List κ → Except ε (List κ)
  | _, [], visited => .ok visited
  | 0, _ :: _, _ => .error hangs
  | fuel + 1, current :: stack, visited =>
    if current ∈ visited then .error again
    else walk children again hangs fuel ((children current).reverse ++ stack) (current :: visited)

/-- Places with their parents, as a list of children for each. -/
structure Forest (places : List κ) (parent : κ → Option κ) (children : κ → List κ) (rank : κ → ℕ) : Prop where
  mem_children : ∀ a b, b ∈ children a ↔ b ∈ places ∧ parent b = some a
  nodup : ∀ a, (children a).Nodup
  parents : ∀ a ∈ places, ∀ b ∈ parent a, b ∈ places ∧ rank b < rank a

variable {places : List κ} {parent : κ → Option κ} {children : κ → List κ} {rank : κ → ℕ}

/-- What holds whenever a place is taken from the stack. -/
structure Reached (places : List κ) (parent : κ → Option κ) (stack visited : List κ) : Prop where
  nodup : (stack ++ visited).Nodup
  inside : ∀ a ∈ stack ++ visited, a ∈ places
  roots : ∀ a ∈ places, parent a = none → a ∈ stack ++ visited
  below : ∀ a ∈ places, ∀ b ∈ parent a, (a ∈ stack ++ visited ↔ b ∈ visited)

omit [DecidableEq κ] in
/-- **One step**: the children of a place that the walk comes to are new. -/
theorem Reached.step (hforest : Forest places parent children rank) {current : κ} {stack visited : List κ}
    (h : Reached places parent (current :: stack) visited) :
    current ∉ visited ∧ Reached places parent ((children current).reverse ++ stack) (current :: visited) := by
  have hnodup := h.nodup
  rw [List.cons_append, List.nodup_cons] at hnodup
  obtain ⟨hfresh, hrest⟩ := hnodup
  have hcurrent : current ∉ visited := fun hin => hfresh (List.mem_append_right _ hin)
  have hmem : ∀ a, a ∈ (children current).reverse ++ stack ++ current :: visited
      ↔ a ∈ children current ∨ a ∈ current :: stack ++ visited := by
    intro a
    simp only [List.mem_append, List.mem_cons, List.mem_reverse]
    tauto
  have hnew : ∀ a ∈ children current, a ∉ current :: stack ++ visited := by
    intro a ha hin
    obtain ⟨hplace, hparent⟩ := (hforest.mem_children current a).mp ha
    exact hcurrent ((h.below a hplace current hparent).mp hin)
  refine ⟨hcurrent, ?_, fun a ha => ?_, fun a ha hroot => ?_, fun a ha b hb => ?_⟩
  · have hperm : ((children current).reverse ++ stack ++ current :: visited).Perm
        (children current ++ (current :: stack ++ visited)) := by
      rw [List.append_assoc]
      exact (List.reverse_perm _).append List.perm_middle
    rw [hperm.nodup_iff, List.nodup_append']
    exact ⟨hforest.nodup current, h.nodup, fun a ha hin => hnew a ha hin⟩
  · rcases (hmem a).mp ha with ha | ha
    · exact ((hforest.mem_children current a).mp ha).1
    · exact h.inside a ha
  · exact (hmem a).mpr (Or.inr (h.roots a ha hroot))
  · rw [hmem, h.below a ha b hb, List.mem_cons, hforest.mem_children, and_iff_right ha,
      Option.mem_def.mp hb, Option.some.injEq]

theorem walk_reached (hforest : Forest places parent children rank) {again hangs : ε} {fuel : ℕ}
    {stack visited : List κ} (h : Reached places parent stack visited)
    (hfuel : places.length < fuel + visited.length) :
    ∃ all, walk children again hangs fuel stack visited = .ok all ∧ ∀ a ∈ places, a ∈ all := by
  induction fuel generalizing stack visited with
  | zero =>
    -- there are not so many places
    have hvisited : visited.length ≤ places.length :=
      (List.subperm_of_subset (List.nodup_append.mp h.nodup).2.1
        fun a ha => h.inside a (List.mem_append_right _ ha)).length_le
    omega
  | succ fuel ih =>
    cases stack with
    | nil =>
      refine ⟨visited, rfl, fun a ha => ?_⟩
      induction hrank : rank a using Nat.strong_induction_on generalizing a with
      | _ n hlower =>
        cases hparent : parent a with
        | none => simpa using h.roots a ha hparent
        | some b =>
          obtain ⟨hplace, hless⟩ := hforest.parents a ha b hparent
          have hbelow := h.below a ha b hparent
          exact hbelow.mpr (hlower (rank b) (hrank ▸ hless) b hplace rfl)
    | cons current stack =>
      obtain ⟨hfresh, hnext⟩ := h.step hforest
      rw [walk, if_neg hfresh]
      exact ih hnext (by rw [List.length_cons]; omega)

/-- **In a forest the walk from the roots goes everywhere** and comes to no place twice. -/
theorem walk_forest (hforest : Forest places parent children rank) {again hangs : ε} {roots : List κ}
    (hroots : ∀ a, a ∈ roots ↔ a ∈ places ∧ parent a = none) (hnodup : roots.Nodup) {fuel : ℕ}
    (hfuel : places.length < fuel) :
    ∃ all, walk children again hangs fuel roots [] = .ok all ∧ ∀ a ∈ places, a ∈ all := by
  refine walk_reached hforest ⟨by simpa using hnodup, fun a ha => ?_, fun a ha hroot => ?_, fun a ha b hb => ?_⟩
    (by simpa using hfuel)
  · exact ((hroots a).mp (by simpa using ha)).1
  · simpa using (hroots a).mpr ⟨ha, hroot⟩
  · refine iff_of_false (fun hin => ?_) List.not_mem_nil
    have hnone := ((hroots a).mp (by simpa using hin)).2
    rw [Option.mem_def.mp hb] at hnone
    cases hnone

end Ai00.StackWalk
