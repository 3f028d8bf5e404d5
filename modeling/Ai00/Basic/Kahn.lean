import Mathlib

/-! # Layers of a graph

Kahn's algorithm with depths. A stack holds the elements that no unvisited element leads to; visiting
one takes it off the stack, counts its edges off its successors and makes them deeper than it.
`layers` gives the number of elements visited, and nothing where one is deeper than a limit.

The algorithm visits every element exactly where no chain of edges is longer than the limit
(`layers_eq_length_iff`), so that its outcome does not depend on the order of elements and edges.
-/

namespace Ai00.Kahn

variable {α : Type} [DecidableEq α]

/-! ## The algorithm -/

structure State (α : Type) where
  queue : List α
  indegree : α → ℕ
  depth : α → ℕ

/-- An edge from `a` to `b` is counted off. -/
def State.relax (a : α) (s : State α) (b : α) : State α where
  queue := if s.indegree b = 1 then b :: s.queue else s.queue
  indegree := Function.update s.indegree b (s.indegree b - 1)
  depth := Function.update s.depth b (max (s.depth b) (s.depth a + 1))

def successors (edges : List (α × α)) (a : α) : List α :=
  (edges.filter fun e => e.1 = a).map Prod.snd

/-- `fuel` covers the elements, each of which is on the stack once. -/
def visit (edges : List (α × α)) (limit : ℕ) : ℕ → List α → (α → ℕ) → (α → ℕ) → ℕ → Option ℕ
  | _, [], _, _, visited => some visited
  | 0, _ :: _, _, _, visited => some visited
  | fuel + 1, a :: queue, indegree, depth, visited =>
    if limit < depth a then none
    else
      let s := (successors edges a).foldl (State.relax a) ⟨queue, indegree, depth⟩
      visit edges limit fuel s.queue s.indegree s.depth (visited + 1)

/-- How many elements are visited; the stack starts with those that nothing leads to. -/
def layers (limit : ℕ) (elements : List α) (edges : List (α × α)) : Option ℕ :=
  let indegree := fun b => edges.countP fun e => e.2 = b
  visit edges limit elements.length (elements.filter fun a => indegree a = 0).reverse indegree
    (fun _ => 1) 0

/-! ## Chains -/

variable {edges : List (α × α)} {limit : ℕ} {elements done : List α} {a b : α} {s : State α}

def Chain (edges : List (α × α)) (path : List α) : Prop := path.IsChain fun a b => (a, b) ∈ edges

/-- No chain of edges has more elements than the limit. -/
def Bounded (limit : ℕ) (edges : List (α × α)) : Prop :=
  ∀ path, Chain edges path → path.length ≤ limit

omit [DecidableEq α] in
theorem Chain.concat {path : List α} (h : Chain edges (path ++ [a])) (hedge : (a, b) ∈ edges) :
    Chain edges (path ++ [a] ++ [b]) := by
  refine List.isChain_append.mpr ⟨h, List.isChain_singleton _, ?_⟩
  intro x hx y hy
  simp only [List.getLast?_append, List.getLast?_singleton, Option.some_or, Option.mem_some_iff,
    List.head?_cons] at hx hy
  rw [← hx, ← hy]
  exact hedge

/-- No element leads to itself. -/
def Acyclic (edges : List (α × α)) : Prop :=
  ∀ a, ¬ Relation.TransGen (fun a b => (a, b) ∈ edges) a a

omit [DecidableEq α] in
/-- A chain goes on along the edges that lead away from its end. -/
theorem Chain.extend {path : List α} (h : Chain edges (path ++ [a]))
    (hleads : Relation.TransGen (fun a b => (a, b) ∈ edges) a b) :
    ∃ longer, Chain edges (longer ++ [b]) ∧ path.length < longer.length := by
  induction hleads with
  | single hedge => exact ⟨path ++ [a], h.concat hedge, by simp⟩
  | tail _ hedge ih =>
    obtain ⟨longer, hlonger, hlength⟩ := ih
    refine ⟨longer ++ [_], hlonger.concat hedge, ?_⟩
    rw [List.length_append]
    omega

omit [DecidableEq α] in
/-- A cycle would be passed through any number of times. -/
theorem Bounded.acyclic (h : Bounded limit edges) : Acyclic edges := by
  intro a hcycle
  have hlong : ∀ n, ∃ path, Chain edges (path ++ [a]) ∧ n ≤ path.length := by
    intro n
    induction n with
    | zero => exact ⟨[], List.isChain_singleton _, Nat.zero_le _⟩
    | succ n ih =>
      obtain ⟨path, hpath, hlength⟩ := ih
      obtain ⟨longer, hlonger, hlt⟩ := hpath.extend hcycle
      exact ⟨longer, hlonger, by omega⟩
  obtain ⟨path, hpath, hlength⟩ := hlong limit
  have hle := h _ hpath
  rw [List.length_append, List.length_singleton] at hle
  omega

omit [DecidableEq α] in
/-- Where every one of some elements leads to another of them, they are on a cycle somewhere. -/
theorem not_acyclic_of_forall {rest : List α} (hne : rest ≠ [])
    (h : ∀ a ∈ rest, ∃ b ∈ rest, (a, b) ∈ edges) : ¬ Acyclic edges := by
  intro hacyclic
  let Leads : {a // a ∈ rest} → {a // a ∈ rest} → Prop := fun b a =>
    Relation.TransGen (fun a b => (a, b) ∈ edges) a.1 b.1
  have : Finite {a // a ∈ rest} := (List.finite_toSet rest).to_subtype
  have : IsTrans _ Leads := ⟨fun _ _ _ hab hbc => hbc.trans hab⟩
  have : Std.Irrefl Leads := ⟨fun a ha => hacyclic a.1 ha⟩
  have hwf : WellFounded Leads := Finite.wellFounded_of_trans_of_irrefl Leads
  obtain ⟨a, ha⟩ := List.exists_mem_of_ne_nil rest hne
  obtain ⟨last, -, hlast⟩ := hwf.has_min Set.univ ⟨⟨a, ha⟩, trivial⟩
  obtain ⟨b, hb, hedge⟩ := h last.1 last.2
  exact hlast ⟨b, hb⟩ trivial (.single hedge)

omit [DecidableEq α] in
/-- A chain of renamed edges comes from a chain, where the names tell the ends of edges apart. -/
theorem Chain.of_map {β : Type} {f : α → β} (hinj : ∀ e ∈ edges, ∀ e' ∈ edges, f e.2 = f e'.1 → e.2 = e'.1)
    {path : List β} (h : Chain (edges.map (Prod.map f f)) path) :
    path.length ≤ 1 ∨ ∃ original, Chain edges original ∧ original.map f = path := by
  induction path with
  | nil => exact .inl (Nat.zero_le _)
  | cons x path ih =>
    cases path with
    | nil => exact .inl le_rfl
    | cons y path =>
      obtain ⟨hlink, hrest⟩ := List.isChain_cons_cons.mp h
      obtain ⟨e, he, heq⟩ := List.mem_map.mp hlink
      obtain ⟨rfl, rfl⟩ : f e.1 = x ∧ f e.2 = y := Prod.mk.inj heq
      rcases ih hrest with hshort | ⟨original, horiginal, hmap⟩
      · obtain rfl : path = [] := List.length_eq_zero_iff.mp (by simpa using hshort)
        exact .inr ⟨[e.1, e.2], List.isChain_pair.mpr he, rfl⟩
      · match original, horiginal, hmap with
        | [b], _, hmap =>
          obtain ⟨-, rfl⟩ := List.cons.inj hmap
          exact .inr ⟨[e.1, e.2], List.isChain_pair.mpr he, rfl⟩
        | b :: c :: original, horiginal, hmap =>
          obtain ⟨hb, hmap⟩ := List.cons.inj hmap
          have hedge := (List.isChain_cons_cons.mp horiginal).1
          have hsame : e.2 = b := hinj e he (b, c) hedge hb.symm
          refine .inr ⟨e.1 :: b :: c :: original, List.isChain_cons_cons.mpr ⟨?_, horiginal⟩, ?_⟩
          · rw [← hsame]
            exact he
          · rw [List.map_cons, List.map_cons, ← hsame, hmap]

omit [DecidableEq α] in
theorem Bounded.map {β : Type} {f : α → β} (h : Bounded limit edges) (hlimit : 1 ≤ limit)
    (hinj : ∀ e ∈ edges, ∀ e' ∈ edges, f e.2 = f e'.1 → e.2 = e'.1) :
    Bounded limit (edges.map (Prod.map f f)) := by
  intro path hpath
  rcases hpath.of_map hinj with hshort | ⟨original, horiginal, rfl⟩
  · exact hshort.trans hlimit
  · rw [List.length_map]
    exact h original horiginal

/-! ## One visit -/

/-- What counting off some edges of `a` does. -/
theorem foldl_relax (targets : List α) (ha : a ∉ targets)
    (hcount : ∀ b, targets.count b ≤ s.indegree b) (hqueue : ∀ b ∈ s.queue, s.indegree b = 0)
    (hnodup : s.queue.Nodup) :
    let s' := targets.foldl (State.relax a) s
    (∀ b, s'.indegree b = s.indegree b - targets.count b)
      ∧ (∀ b, s'.depth b = if b ∈ targets then max (s.depth b) (s.depth a + 1) else s.depth b)
      ∧ (∀ b, b ∈ s'.queue ↔ b ∈ s.queue ∨ (b ∈ targets ∧ s.indegree b = targets.count b))
      ∧ s'.queue.Nodup := by
  induction targets generalizing s with
  | nil => simp [hnodup]
  | cons t targets ih =>
    rw [List.mem_cons, not_or] at ha
    have hpos : 0 < s.indegree t := by
      have ht := hcount t
      rw [List.count_cons_self] at ht
      omega
    have hnext : ∀ b, (s.relax a t).indegree b = s.indegree b - if b = t then 1 else 0 := by
      intro b
      by_cases hb : b = t <;> simp [State.relax, hb]
    have hcons : ∀ b, (t :: targets).count b = targets.count b + if b = t then 1 else 0 := by
      intro b
      simp only [List.count_cons, beq_iff_eq, @eq_comm _ t]
    have hpushed : ∀ b, b ∈ (s.relax a t).queue ↔ b ∈ s.queue ∨ (b = t ∧ s.indegree t = 1) := by
      intro b
      by_cases hone : s.indegree t = 1
      · simp [State.relax, hone, or_comm]
      · simp [State.relax, hone]
    obtain ⟨hindegree, hdepth, hmem, hnodup'⟩ := ih (s := s.relax a t) ha.2
      (by
        intro b
        have hb := hcount b
        rw [hcons] at hb
        rw [hnext]
        omega)
      (by
        intro b hb
        rw [hnext]
        rcases (hpushed b).mp hb with hold | ⟨rfl, hone⟩
        · rw [hqueue b hold, Nat.zero_sub]
        · simp [hone])
      (by
        by_cases hone : s.indegree t = 1
        · have hnot : t ∉ s.queue := fun ht => by rw [hqueue t ht] at hone; cases hone
          simpa [State.relax, hone] using ⟨hnot, hnodup⟩
        · simpa [State.relax, hone] using hnodup)
    have hdeptha : (s.relax a t).depth a = s.depth a := by
      simp [State.relax, ha.1]
    rw [List.foldl_cons]
    refine ⟨fun b => ?_, fun b => ?_, fun b => ?_, hnodup'⟩
    · rw [hindegree, hnext, hcons]
      omega
    · rw [hdepth, hdeptha]
      simp only [List.mem_cons]
      by_cases hb : b = t
      · subst hb
        by_cases hin : b ∈ targets <;> simp [State.relax, hin]
      · simp [State.relax, hb]
    · rw [hmem, hpushed, hnext, hcons, List.mem_cons]
      by_cases hb : b = t
      · subst hb
        have hcount := hcount b
        rw [hcons, if_pos rfl] at hcount
        by_cases hin : b ∈ targets
        · have hcountpos := List.count_pos_iff.mpr hin
          simp only [hin, true_and, true_or, if_true]
          constructor
          · rintro ((hold | hone) | hone)
            · exact .inl hold
            · omega
            · exact .inr (by omega)
          · rintro (hold | hone)
            · exact .inl (.inl hold)
            · exact .inr (by omega)
        · have hzero := List.count_eq_zero_of_not_mem hin
          simp only [hin, hzero, false_and, or_false, true_and, if_true, zero_add]
      · simp [hb]

/-- What holds while elements are visited. -/
structure Sound (edges : List (α × α)) (limit : ℕ) (elements done : List α) (s : State α) : Prop where
  nodup : (done ++ s.queue).Nodup
  inside : ∀ a ∈ done ++ s.queue, a ∈ elements
  indegree : ∀ b, s.indegree b = edges.countP fun e => e.2 = b ∧ e.1 ∉ done
  queue : ∀ b ∈ elements, b ∉ done → (b ∈ s.queue ↔ s.indegree b = 0)
  closed : ∀ b ∈ done, ∀ a, (a, b) ∈ edges → a ∈ done
  deeper : ∀ a ∈ done, ∀ b, (a, b) ∈ edges → s.depth a + 1 ≤ s.depth b
  reached : ∀ b, ∃ path, Chain edges (path ++ [b]) ∧ path.length + 1 = s.depth b
  shallow : ∀ a ∈ done, s.depth a ≤ limit

/-- Where the count of the edges from unvisited elements is zero, all of them were visited. -/
theorem Sound.visited_of_indegree (h : Sound edges limit elements done s) (hb : s.indegree b = 0)
    (hedge : (a, b) ∈ edges) : a ∈ done := by
  rw [h.indegree, List.countP_eq_zero] at hb
  have hnot := hb (a, b) hedge
  simpa using hnot

theorem count_successors : (successors edges a).count b = edges.countP fun e => e.1 = a ∧ e.2 = b := by
  rw [successors, List.count, List.countP_map, List.countP_filter]
  refine List.countP_congr fun e _ => ?_
  simp [and_comm]

theorem mem_successors : b ∈ successors edges a ↔ (a, b) ∈ edges := by
  simp [successors]

theorem Sound.visit {queue : List α} (hedges : ∀ e ∈ edges, e.1 ∈ elements ∧ e.2 ∈ elements)
    (h : Sound edges limit elements done s) (hs : s.queue = a :: queue) (hlimit : s.depth a ≤ limit) :
    Sound edges limit elements (done ++ [a])
      ((successors edges a).foldl (State.relax a) { s with queue := queue }) := by
  have hnodup := h.nodup
  rw [hs] at hnodup
  obtain ⟨-, hrest, hapart⟩ := List.nodup_append.mp hnodup
  obtain ⟨hnotqueue, hqueuenodup⟩ := List.nodup_cons.mp hrest
  have hdone : a ∉ done := fun ha => hapart a ha a List.mem_cons_self rfl
  have hain : a ∈ elements := h.inside a (by simp [hs])
  have hzero : s.indegree a = 0 := (h.queue a hain hdone).mp (by simp [hs])
  have hself : a ∉ successors edges a := fun ha =>
    hdone (h.visited_of_indegree hzero (mem_successors.mp ha))
  -- an edge to `b` from an unvisited element comes from `a` or stays counted
  have hsplit : ∀ b, s.indegree b = (successors edges a).count b
      + edges.countP fun e => e.2 = b ∧ e.1 ∉ done ++ [a] := by
    intro b
    rw [h.indegree, count_successors, List.countP_eq_countP_filter_add edges _ fun e => e.1 = a,
      List.countP_filter, List.countP_filter]
    congr 1
    · refine List.countP_congr fun e _ => ?_
      simp only [decide_eq_true_eq, Bool.and_eq_true]
      constructor
      · rintro ⟨⟨hb, -⟩, ha⟩
        exact ⟨ha, hb⟩
      · rintro ⟨rfl, hb⟩
        exact ⟨⟨hb, hdone⟩, rfl⟩
    · refine List.countP_congr fun e _ => ?_
      simp [and_assoc]
  have hinqueue : ∀ b ∈ queue, b ∈ elements ∧ b ∉ done := fun b hb =>
    ⟨h.inside b (by simp [hs, hb]), fun hd => hapart b hd b (List.mem_cons_of_mem _ hb) rfl⟩
  obtain ⟨hindegree, hdepth, hmem, hnodup'⟩ :=
    foldl_relax (s := { s with queue := queue }) (successors edges a) hself
      (fun b => by rw [hsplit b]; exact Nat.le_add_right _ _)
      (fun b hb => (h.queue b (hinqueue b hb).1 (hinqueue b hb).2).mp (by simp [hs, hb])) hqueuenodup
  -- a visited element is no successor of `a`
  have hold : ∀ x ∈ done, x ∉ successors edges a := fun x hx hin =>
    hdone (h.closed x hx a (mem_successors.mp hin))
  generalize (successors edges a).foldl (State.relax a) { s with queue := queue } = s' at *
  have hvisited : ∀ x, x ∈ done ++ [a] ↔ x ∈ done ∨ x = a := fun x => by simp
  have hnew : ∀ b ∈ s'.queue, b ∈ elements ∧ b ∉ done ++ [a] := by
    intro b hb
    rw [hvisited, not_or]
    rcases (hmem b).mp hb with hb | ⟨hb, -⟩
    · exact ⟨(hinqueue b hb).1, (hinqueue b hb).2, fun heq => hnotqueue (heq ▸ hb)⟩
    · exact ⟨(hedges _ (mem_successors.mp hb)).2, fun hd => hold b hd hb, fun heq => hself (heq ▸ hb)⟩
  have hkept : ∀ x ∈ done ++ [a], s'.depth x = s.depth x := by
    intro x hx
    rw [hdepth]
    rcases (hvisited x).mp hx with hx | rfl
    · exact if_neg (hold x hx)
    · exact if_neg hself
  have hgrown : ∀ b, s.depth b ≤ s'.depth b := by
    intro b
    rw [hdepth]
    split_ifs
    · exact le_max_left _ _
    · exact le_refl _
  refine ⟨?_, ?_, ?_, ?_, ?_, ?_, ?_, ?_⟩
  · have hdonenodup : (done ++ [a]).Nodup :=
      hnodup.sublist (List.Sublist.append_left (by simp) _)
    exact List.nodup_append.mpr ⟨hdonenodup, hnodup', fun x hx y hy heq =>
      (hnew y hy).2 (heq ▸ hx)⟩
  · intro x hx
    rcases List.mem_append.mp hx with hx | hx
    · rcases (hvisited x).mp hx with hx | rfl
      · exact h.inside x (List.mem_append_left _ hx)
      · exact hain
    · exact (hnew x hx).1
  · intro b
    rw [hindegree, hsplit b, Nat.add_sub_cancel_left]
  · intro b hb hnot
    rw [hvisited, not_or] at hnot
    rw [hmem, hindegree]
    have hqueue := h.queue b hb hnot.1
    rw [hs, List.mem_cons, or_iff_right hnot.2] at hqueue
    have hle := hsplit b
    dsimp only
    rw [hqueue]
    constructor
    · rintro (hb | ⟨-, hb⟩) <;> omega
    · intro hb
      by_cases hin : b ∈ successors edges a
      · exact .inr ⟨hin, by omega⟩
      · rw [List.count_eq_zero_of_not_mem hin] at hb
        exact .inl (by omega)
  · intro b hb x hedge
    rcases (hvisited b).mp hb with hb | rfl
    · exact List.mem_append_left _ (h.closed b hb x hedge)
    · exact List.mem_append_left _ (h.visited_of_indegree hzero hedge)
  · intro x hx b hedge
    rw [hkept x hx]
    rcases (hvisited x).mp hx with hx | rfl
    · exact (h.deeper x hx b hedge).trans (hgrown b)
    · rw [hdepth, if_pos (mem_successors.mpr hedge)]
      exact le_max_right _ _
  · intro b
    rw [hdepth]
    split_ifs with hin
    · dsimp only
      rcases max_choice (s.depth b) (s.depth a + 1) with hmax | hmax <;> rw [hmax]
      · exact h.reached b
      · obtain ⟨path, hpath, hlength⟩ := h.reached a
        exact ⟨path ++ [a], hpath.concat (mem_successors.mp hin), by simp [hlength]⟩
    · exact h.reached b
  · intro x hx
    rw [hkept x hx]
    rcases (hvisited x).mp hx with hx | rfl
    · exact h.shallow x hx
    · exact hlimit

/-! ## The whole run -/

theorem Sound.start (hnodup : elements.Nodup) :
    Sound edges limit elements [] ⟨(elements.filter fun a => (edges.countP fun e => e.2 = a) = 0).reverse,
      fun b => edges.countP fun e => e.2 = b, fun _ => 1⟩ where
  nodup := by
    rw [List.nil_append, List.nodup_reverse]
    exact hnodup.filter _
  inside a ha := by
    rw [List.nil_append, List.mem_reverse] at ha
    exact (List.mem_filter.mp ha).1
  indegree b := by simp
  queue b hb _ := by simp [hb]
  closed b hb := by cases hb
  deeper a ha := by cases ha
  reached b := ⟨[], List.isChain_singleton _, rfl⟩
  shallow a ha := by cases ha

/-- A run ends with everything visited that it can visit, or with an element that is too deep. -/
theorem visit_cases (hedges : ∀ e ∈ edges, e.1 ∈ elements ∧ e.2 ∈ elements) {fuel : ℕ}
    (h : Sound edges limit elements done s) (hfuel : elements.length ≤ done.length + fuel) :
    (visit edges limit fuel s.queue s.indegree s.depth done.length = none ∧ ¬ Bounded limit edges)
      ∨ ∃ done' s', Sound edges limit elements done' s' ∧ s'.queue = []
        ∧ visit edges limit fuel s.queue s.indegree s.depth done.length = some done'.length := by
  induction fuel generalizing done s with
  | zero =>
    have hsub : done ++ s.queue ⊆ elements := fun a ha => h.inside a ha
    have hlength := (h.nodup.subperm hsub).length_le
    rw [List.length_append] at hlength
    have hnil : s.queue = [] := List.length_eq_zero_iff.mp (by omega)
    exact .inr ⟨done, s, h, hnil, by rw [hnil]; rfl⟩
  | succ fuel ih =>
    cases hs : s.queue with
    | nil => exact .inr ⟨done, s, h, hs, rfl⟩
    | cons a queue =>
      rw [Kahn.visit]
      split_ifs with hdeep
      · refine .inl ⟨rfl, fun hbounded => ?_⟩
        obtain ⟨path, hpath, hlength⟩ := h.reached a
        have hle := hbounded _ hpath
        rw [List.length_append, List.length_singleton] at hle
        omega
      · have hnext := h.visit hedges hs (by omega)
        have hrun := ih hnext (by rw [List.length_append, List.length_singleton]; omega)
        rw [List.length_append, List.length_singleton] at hrun
        exact hrun

theorem Sound.length_le (h : Sound edges limit elements done s) {path : List α}
    (hpath : Chain edges (path ++ [a])) (ha : a ∈ done) : path.length + 1 ≤ s.depth a := by
  induction path using List.reverseRecOn generalizing a with
  | nil =>
    obtain ⟨chain, -, hdepth⟩ := h.reached a
    rw [List.length_nil]
    omega
  | append_singleton path b ih =>
    obtain ⟨hfront, -, hlink⟩ := List.isChain_append.mp hpath
    have hedge : (b, a) ∈ edges := hlink b (by simp) a (by simp)
    have hb := ih hfront (h.closed a ha b hedge)
    have hdeeper := h.deeper b (h.closed a ha b hedge) a hedge
    rw [List.length_append, List.length_singleton]
    omega

/-- Where nothing is left to visit, an unvisited element ends chains of any length. -/
theorem Sound.endless (h : Sound edges limit elements done s) (hs : s.queue = [])
    (hedges : ∀ e ∈ edges, e.1 ∈ elements ∧ e.2 ∈ elements) (n : ℕ) :
    ∀ b ∈ elements, b ∉ done → ∃ path, Chain edges (path ++ [b]) ∧ path.length = n := by
  induction n with
  | zero => exact fun b _ _ => ⟨[], List.isChain_singleton _, rfl⟩
  | succ n ih =>
    intro b hb hnot
    have hpos : s.indegree b ≠ 0 := by
      intro hzero
      have hin := (h.queue b hb hnot).mpr hzero
      rw [hs] at hin
      cases hin
    rw [h.indegree, Ne, List.countP_eq_zero] at hpos
    push Not at hpos
    obtain ⟨⟨a, c⟩, hedge, hcond⟩ := hpos
    obtain ⟨rfl, hdone⟩ : c = b ∧ a ∉ done := by simpa using hcond
    obtain ⟨path, hpath, hlength⟩ := ih a (hedges _ hedge).1 hdone
    exact ⟨path ++ [a], hpath.concat hedge, by simp [hlength]⟩

/-- **The algorithm visits every element** exactly where no chain of edges is longer than the limit. -/
theorem layers_eq_length_iff (hnodup : elements.Nodup) (hlimit : 1 ≤ limit)
    (hedges : ∀ e ∈ edges, e.1 ∈ elements ∧ e.2 ∈ elements) :
    layers limit elements edges = some elements.length ↔ Bounded limit edges := by
  have hrun := visit_cases hedges (@Sound.start _ _ edges limit _ hnodup)
    (Nat.le_add_left elements.length _)
  rcases hrun with ⟨hnone, hdeep⟩ | ⟨done, s, hsound, hqueue, hvisit⟩
  · have hlayers : layers limit elements edges = none := hnone
    rw [hlayers]
    exact iff_of_false (by simp) hdeep
  · have hlayers : layers limit elements edges = some done.length := hvisit
    have hdone : done.Nodup := (List.nodup_append.mp hsound.nodup).1
    have hsub : done ⊆ elements := fun a ha => hsound.inside a (List.mem_append_left _ ha)
    rw [hlayers, Option.some_inj]
    constructor
    · intro hlength path hpath
      have hall : ∀ a ∈ elements, a ∈ done := by
        intro a ha
        exact ((hdone.subperm hsub).perm_of_length_le hlength.ge).mem_iff.mpr ha
      cases path using List.reverseRecOn with
      | nil => exact Nat.zero_le _
      | append_singleton front a =>
        cases front using List.reverseRecOn with
        | nil => simpa using hlimit
        | append_singleton front b =>
          have hedge : (b, a) ∈ edges := by
            obtain ⟨-, -, hlink⟩ := List.isChain_append.mp hpath
            exact hlink b (by simp) a (by simp)
          have ha := hall a (hedges _ hedge).2
          rw [List.length_append, List.length_singleton]
          exact (hsound.length_le hpath ha).trans (hsound.shallow a ha)
    · intro hbounded
      by_contra hne
      obtain ⟨b, hb, hnot⟩ : ∃ b ∈ elements, b ∉ done := by
        by_contra hall
        push Not at hall
        exact hne ((hdone.subperm hsub).antisymm (hnodup.subperm fun a ha => hall a ha)).length_eq
      obtain ⟨path, hpath, hlength⟩ := hsound.endless hqueue hedges limit b hb hnot
      have hle := hbounded _ hpath
      rw [List.length_append, List.length_singleton] at hle
      omega

end Ai00.Kahn
