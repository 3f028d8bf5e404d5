import Ai00.Basic.Kahn

/-! # Peeling a graph

Elements that refer to others are put in an order by rounds: each round takes the elements away that
refer to none of those that remain, and puts them in their places. `peel` gives the order, or the
elements that remain when none can be taken.

An element of the order refers to none that is not before it (`peel_ok`), and the rounds get stuck
exactly where the references among the elements have a cycle (`peel_ok_iff`); a reference of an element
to itself is one.
-/

namespace Ai00.Peeling

variable {α : Type} [LinearOrder α]

/-! ## The rounds -/

section

variable (refs : α → List α)

/-- The elements that refer to none of those that remain, in their order. -/
def ready (remaining : List α) : List α :=
  (remaining.filter fun a => ∀ b ∈ refs a, b ∉ remaining).mergeSort (· ≤ ·)

/-- `fuel` covers the elements, of which each round takes one at least. -/
def peel : ℕ → List α → Except (List α) (List α)
  | _, [] => .ok []
  | 0, remaining => .error remaining
  | fuel + 1, remaining =>
    if ready refs remaining = [] then .error remaining
    else (peel fuel (remaining.filter (· ∉ ready refs remaining))).map (ready refs remaining ++ ·)

def links (elements : List α) : List (α × α) :=
  elements.flatMap fun a => ((refs a).filter (· ∈ elements)).map (a, ·)

end

variable {refs : α → List α} {remaining order elements : List α} {a b : α}

theorem mem_links : (a, b) ∈ links refs elements ↔ a ∈ elements ∧ b ∈ elements ∧ b ∈ refs a := by
  simp only [links, List.mem_flatMap, List.mem_map, List.mem_filter, decide_eq_true_eq, Prod.mk.injEq]
  constructor
  · rintro ⟨a', ha, b', ⟨hb, hin⟩, rfl, rfl⟩
    exact ⟨ha, hin, hb⟩
  · rintro ⟨ha, hin, hb⟩
    exact ⟨a, ha, b, ⟨hb, hin⟩, rfl, rfl⟩

theorem mem_ready : a ∈ ready refs remaining ↔ a ∈ remaining ∧ ∀ b ∈ refs a, b ∉ remaining := by
  simp [ready]

/-- The elements taken in a round and those that stay are the elements there were. -/
theorem ready_perm (hnodup : remaining.Nodup) :
    (ready refs remaining ++ remaining.filter (· ∉ ready refs remaining)).Perm remaining := by
  have hready : (ready refs remaining).Nodup := by
    rw [ready, (List.mergeSort_perm _ _).nodup_iff]
    exact hnodup.filter _
  have hapart : (ready refs remaining).Disjoint (remaining.filter (· ∉ ready refs remaining)) := by
    intro a ha hstay
    simpa [ha] using (List.mem_filter.mp hstay).2
  refine (List.perm_ext_iff_of_nodup (hready.append (hnodup.filter _) hapart) hnodup).mpr fun a => ?_
  rw [List.mem_append, List.mem_filter, decide_eq_true_eq]
  constructor
  · rintro (ha | ha)
    · exact (mem_ready.mp ha).1
    · exact ha.1
  · intro ha
    by_cases hin : a ∈ ready refs remaining
    · exact .inl hin
    · exact .inr ⟨ha, hin⟩

/-! ## Outcomes -/

/-- **An order that is found** has all elements, each after those that it refers to. -/
theorem peel_ok {fuel : ℕ} (hnodup : remaining.Nodup) (h : peel refs fuel remaining = .ok order) :
    order.Perm remaining ∧ order.Pairwise (fun a b => b ∉ refs a) ∧ ∀ a ∈ order, a ∉ refs a := by
  induction fuel generalizing remaining order with
  | zero =>
    cases remaining with
    | nil =>
      obtain rfl : [] = order := Except.ok.inj h
      simp
    | cons a remaining => exact nomatch h
  | succ fuel ih =>
    cases hrem : remaining with
    | nil =>
      rw [hrem] at h
      obtain rfl : [] = order := Except.ok.inj h
      simp
    | cons a rest =>
      rw [← hrem]
      have hstep : peel refs (fuel + 1) remaining = if ready refs remaining = [] then .error remaining
          else (peel refs fuel (remaining.filter (· ∉ ready refs remaining))).map
            (ready refs remaining ++ ·) := by
        rw [hrem]
        rfl
      rw [hstep] at h
      split_ifs at h with hready
      cases hlater : peel refs fuel (remaining.filter (· ∉ ready refs remaining)) with
      | error e => rw [hlater] at h; exact nomatch h
      | ok later =>
        rw [hlater] at h
        obtain rfl : ready refs remaining ++ later = order := Except.ok.inj h
        obtain ⟨hperm, hpairs, hself⟩ := ih (hnodup.filter _) hlater
        have hall : (ready refs remaining ++ later).Perm remaining :=
          (List.Perm.append_left _ hperm).trans (ready_perm hnodup)
        -- what is taken in this round refers to nothing that was there
        have hnone : ∀ a ∈ ready refs remaining, ∀ b ∈ ready refs remaining ++ later, b ∉ refs a :=
          fun a ha b hb hrefs => (mem_ready.mp ha).2 b hrefs (hall.mem_iff.mp hb)
        refine ⟨hall, List.pairwise_append.mpr ⟨?_, hpairs, ?_⟩, fun a ha => ?_⟩
        · exact List.pairwise_of_forall_mem_list fun a ha b hb =>
            hnone a ha b (List.mem_append_left _ hb)
        · exact fun a ha b hb => hnone a ha b (List.mem_append_right _ hb)
        · rcases List.mem_append.mp ha with hin | hin
          · exact hnone a hin a ha
          · exact hself a hin

theorem peel_error {fuel : ℕ} {rest : List α} (hfuel : remaining.length ≤ fuel)
    (h : peel refs fuel remaining = .error rest) :
    rest ≠ [] ∧ rest ⊆ remaining ∧ ∀ a ∈ rest, ∃ b ∈ rest, b ∈ refs a := by
  induction fuel generalizing remaining with
  | zero =>
    obtain rfl : remaining = [] := List.length_eq_zero_iff.mp (Nat.le_zero.mp hfuel)
    exact nomatch h
  | succ fuel ih =>
    cases hrem : remaining with
    | nil =>
      rw [hrem] at h
      exact nomatch h
    | cons c others =>
      rw [← hrem]
      have hstep : peel refs (fuel + 1) remaining = if ready refs remaining = [] then .error remaining
          else (peel refs fuel (remaining.filter (· ∉ ready refs remaining))).map
            (ready refs remaining ++ ·) := by
        rw [hrem]
        rfl
      rw [hstep] at h
      split_ifs at h with hready
      · obtain rfl : remaining = rest := Except.error.inj h
        refine ⟨by simp [hrem], fun a ha => ha, fun a ha => ?_⟩
        by_contra hnone
        push Not at hnone
        have hin : a ∈ ready refs remaining := mem_ready.mpr ⟨ha, fun b hb hmem => hnone b hmem hb⟩
        rw [hready] at hin
        cases hin
      · obtain ⟨taken, htaken⟩ := List.exists_mem_of_ne_nil _ hready
        have hshorter : (remaining.filter (· ∉ ready refs remaining)).length < remaining.length := by
          refine List.length_filter_lt_length_iff_exists.mpr ⟨taken, (mem_ready.mp htaken).1, ?_⟩
          simp [htaken]
        cases hlater : peel refs fuel (remaining.filter (· ∉ ready refs remaining)) with
        | ok later => rw [hlater] at h; exact nomatch h
        | error stuck =>
          rw [hlater] at h
          obtain rfl : stuck = rest := Except.error.inj h
          obtain ⟨hne, hsub, hstuck⟩ := ih (by omega) hlater
          exact ⟨hne, fun a ha => (List.mem_filter.mp (hsub ha)).1, hstuck⟩

/-- **An order is found** exactly where the references have no cycle. -/
theorem peel_ok_iff (hnodup : elements.Nodup) :
    (∃ order, peel refs elements.length elements = .ok order) ↔ Kahn.Acyclic (links refs elements) := by
  constructor
  · rintro ⟨order, horder⟩ a hcycle
    obtain ⟨hperm, hpairs, hself⟩ := peel_ok hnodup horder
    -- along a reference the place in the order goes down
    have hlower : ∀ a b, (a, b) ∈ links refs elements → order.idxOf b < order.idxOf a := by
      intro a b hlink
      obtain ⟨ha, hb, hrefs⟩ := mem_links.mp hlink
      have ha' := List.idxOf_lt_length_iff.mpr (hperm.mem_iff.mpr ha)
      have hb' := List.idxOf_lt_length_iff.mpr (hperm.mem_iff.mpr hb)
      by_contra hle
      rcases Nat.lt_or_ge (order.idxOf a) (order.idxOf b) with hlt | hge
      · have hnot := List.pairwise_iff_getElem.mp hpairs _ _ ha' hb' hlt
        rw [List.getElem_idxOf, List.getElem_idxOf] at hnot
        exact hnot hrefs
      · have heq : order.idxOf a = order.idxOf b := by omega
        have hsame : a = b := (List.idxOf_inj (hperm.mem_iff.mpr ha)).mp heq
        exact hself a (hperm.mem_iff.mpr ha) (hsame ▸ hrefs)
    have hdown : ∀ b, Relation.TransGen (fun a b => (a, b) ∈ links refs elements) a b →
        order.idxOf b < order.idxOf a := by
      intro b hleads
      induction hleads with
      | single hlink => exact hlower _ _ hlink
      | tail _ hlink ih => exact (hlower _ _ hlink).trans ih
    exact lt_irrefl _ (hdown a hcycle)
  · intro hacyclic
    cases hpeel : peel refs elements.length elements with
    | ok order => exact ⟨order, rfl⟩
    | error rest =>
      obtain ⟨hne, hsub, hstuck⟩ := peel_error le_rfl hpeel
      refine absurd hacyclic (Kahn.not_acyclic_of_forall hne fun a ha => ?_)
      obtain ⟨b, hb, hrefs⟩ := hstuck a ha
      exact ⟨b, hb, mem_links.mpr ⟨hsub ha, hsub hb, hrefs⟩⟩

end Ai00.Peeling
