import Mathlib

/-! # Bounded breadth-first search

A search goes along the edges of a graph from a root, level by level. It expands no element at
`maxDepth` or deeper, collects at most `maxEdges` edges, and remembers elements and edges by keys;
`truncated` says that it left something out.

In a graph where the keys tell elements and edges apart (`Proper`) the search collects the edges of the
elements that fewer than `maxDepth` edges lead to, unless there are too many, and `truncated` is true
exactly where an edge that the root leads to was left out (`walk_searched`).
-/

namespace Ai00.BreadthFirst

variable {ν ε κ μ : Type}

/-! ## The search -/

/-- The edges at an element, the element at the other end of an edge, and what both are known by. -/
structure Graph (ν ε κ μ : Type) where
  direct : ν → List ε
  next : ε → ν
  nodeKey : ν → κ
  edgeKey : ε → μ

structure Walk (ν ε κ μ : Type) where
  queue : List (ν × ℕ)
  nodeKeys : List κ
  edgeKeys : List μ
  edges : List ε
  truncated : Bool

section

variable [DecidableEq κ] [DecidableEq μ] (g : Graph ν ε κ μ)

/-- An edge is collected; the element that it leads to is put in the queue if it is new. -/
def Walk.add (depth : ℕ) (e : ε) (w : Walk ν ε κ μ) : Walk ν ε κ μ :=
  { w with
    edgeKeys := g.edgeKey e :: w.edgeKeys
    edges := w.edges ++ [e]
    nodeKeys := if g.nodeKey (g.next e) ∉ w.nodeKeys then g.nodeKey (g.next e) :: w.nodeKeys
      else w.nodeKeys
    queue := if g.nodeKey (g.next e) ∉ w.nodeKeys then w.queue ++ [(g.next e, depth + 1)]
      else w.queue }

def follow (maxEdges depth : ℕ) : List ε → Walk ν ε κ μ → Walk ν ε κ μ
  | [], w => w
  | e :: direct, w =>
    if g.edgeKey e ∈ w.edgeKeys then follow maxEdges depth direct w
    else if maxEdges ≤ w.edges.length then { w with truncated := true, queue := [] }
    else follow maxEdges depth direct (w.add g depth e)

/-- Each element of the queue but the root comes with an edge, so that `maxEdges + 1` is enough fuel. -/
def walk (maxDepth maxEdges : ℕ) : ℕ → Walk ν ε κ μ → Walk ν ε κ μ
  | 0, w => w
  | n + 1, w =>
    match w.queue with
    | [] => w
    | (a, depth) :: queue =>
      if maxDepth ≤ depth then
        walk maxDepth maxEdges n
          { w with queue, truncated := w.truncated || !(g.direct a).isEmpty }
      else walk maxDepth maxEdges n (follow g maxEdges depth (g.direct a) { w with queue })

def Walk.start (root : ν) : Walk ν ε κ μ := ⟨[(root, 0)], [g.nodeKey root], [], [], false⟩

end

/-! ## What is searched for -/

/-- Some edges lead from the root to an element, one after another. -/
inductive Steps (g : Graph ν ε κ μ) (root : ν) : ℕ → ν → Prop
  | start : Steps g root 0 root
  | follow {n : ℕ} {a : ν} {e : ε} (h : Steps g root n a) (he : e ∈ g.direct a) :
      Steps g root (n + 1) (g.next e)

/-- Among what the root leads to, elements and edges are known by their keys, and an edge is at one
element. -/
structure Proper (g : Graph ν ε κ μ) (root : ν) : Prop where
  node : ∀ {m n : ℕ} {a b : ν}, Steps g root m a → Steps g root n b →
    g.nodeKey a = g.nodeKey b → a = b
  edge : ∀ {m n : ℕ} {a b : ν} {e f : ε}, Steps g root m a → Steps g root n b →
    e ∈ g.direct a → f ∈ g.direct b → g.edgeKey e = g.edgeKey f → a = b ∧ e = f
  nodup : ∀ {n : ℕ} {a : ν}, Steps g root n a → ((g.direct a).map g.edgeKey).Nodup

/-- What a search should give. -/
structure Searched (g : Graph ν ε κ μ) (root : ν) (maxDepth maxEdges : ℕ) (edges : List ε)
    (truncated : Bool) : Prop where
  distinct : (edges.map g.edgeKey).Nodup
  bound : edges.length ≤ maxEdges
  near : ∀ e ∈ edges, ∃ n < maxDepth, ∃ a, Steps g root n a ∧ e ∈ g.direct a
  complete : (∀ n < maxDepth, ∀ a, Steps g root n a → ∀ e ∈ g.direct a, e ∈ edges)
    ∨ edges.length = maxEdges
  truncated_iff : truncated = true ↔ ∃ n a e, Steps g root n a ∧ e ∈ g.direct a ∧ e ∉ edges

/-! ## The invariant

`done` are the elements taken from the queue, each with its depth, and `trail` the edges collected,
each with the element that it is at. `level` is the depth of the element taken last. -/

structure Sound (g : Graph ν ε κ μ) (root : ν) (maxDepth maxEdges : ℕ) (done : List (ν × ℕ))
    (trail : List ((ν × ℕ) × ε)) (level : ℕ) (w : Walk ν ε κ μ) : Prop where
  begun : (root, 0) ∈ done ++ w.queue
  steps : ∀ p ∈ done ++ w.queue, Steps g root p.2 p.1
  nodeKeys : ∀ k, k ∈ w.nodeKeys ↔ ∃ p ∈ done ++ w.queue, g.nodeKey p.1 = k
  nodup : ((done ++ w.queue).map Prod.fst).Nodup
  sorted : w.queue.Pairwise fun p q => p.2 ≤ q.2
  shallow : ∀ p ∈ done ++ w.queue, p.2 ≤ level + 1
  ahead : ∀ p ∈ w.queue, level ≤ p.2
  edges : w.edges = trail.map Prod.snd
  edgeKeys : ∀ k, k ∈ w.edgeKeys ↔ k ∈ w.edges.map g.edgeKey
  distinct : (w.edges.map g.edgeKey).Nodup
  origin : ∀ x ∈ trail, x.1 ∈ done ∧ x.1.2 < maxDepth ∧ x.2 ∈ g.direct x.1.1
  arrives : ∀ x ∈ trail, ∃ q ∈ done ++ w.queue, q.1 = g.next x.2 ∧ q.2 ≤ x.1.2 + 1
  count : (done ++ w.queue).length ≤ trail.length + 1
  bound : trail.length ≤ maxEdges
  truncated : w.truncated = true ↔ ∃ p ∈ done, maxDepth ≤ p.2 ∧ g.direct p.1 ≠ []

/-- The elements taken that are not too deep were expanded. -/
def Expanded (g : Graph ν ε κ μ) (maxDepth : ℕ) (done : List (ν × ℕ)) (trail : List ((ν × ℕ) × ε)) : Prop :=
  ∀ p ∈ done, p.2 < maxDepth → ∀ e ∈ g.direct p.1, (p, e) ∈ trail

variable {g : Graph ν ε κ μ} {root : ν} {maxDepth maxEdges level : ℕ} {done : List (ν × ℕ)}
  {trail : List ((ν × ℕ) × ε)} {w : Walk ν ε κ μ} {a : ν} {e : ε}

theorem Sound.start [DecidableEq κ] (g : Graph ν ε κ μ) (root : ν) (maxDepth maxEdges : ℕ) :
    Sound g root maxDepth maxEdges [] [] 0 (Walk.start g root) where
  begun := List.mem_singleton_self _
  steps p hp := by
    rw [List.mem_singleton.mp hp]
    exact .start
  nodeKeys k := by simp [Walk.start, eq_comm]
  nodup := by simp [Walk.start]
  sorted := List.pairwise_singleton _ _
  shallow p hp := by
    rw [List.mem_singleton.mp hp]
    exact Nat.zero_le _
  ahead p _ := Nat.zero_le _
  edges := rfl
  edgeKeys k := by simp [Walk.start]
  distinct := List.nodup_nil
  origin x hx := nomatch hx
  arrives x hx := nomatch hx
  count := le_refl 1
  bound := Nat.zero_le _
  truncated := by simp [Walk.start]

/-- The first element of the queue is taken; where it is too deep, its edges are left out. -/
theorem Sound.take {queue : List (ν × ℕ)} {depth : ℕ} (h : Sound g root maxDepth maxEdges done trail level w)
    (hqueue : w.queue = (a, depth) :: queue) (truncated : Bool)
    (htruncated : truncated = (w.truncated || (decide (maxDepth ≤ depth) && !(g.direct a).isEmpty))) :
    Sound g root maxDepth maxEdges (done ++ [(a, depth)]) trail depth { w with queue, truncated } := by
  have hentries : done ++ w.queue = done ++ [(a, depth)] ++ queue := by
    rw [hqueue, List.append_assoc, List.singleton_append]
  have hhead : level ≤ depth := h.ahead (a, depth) (by simp [hqueue])
  have hsorted := h.sorted
  rw [hqueue, List.pairwise_cons] at hsorted
  refine ⟨?_, ?_, ?_, ?_, hsorted.2, fun p hp => ?_, fun p hp => hsorted.1 p hp, h.edges, h.edgeKeys,
    h.distinct, fun x hx => ?_, ?_, ?_, h.bound, ?_⟩
  · rw [← hentries]
    exact h.begun
  · rw [← hentries]
    exact h.steps
  · rw [← hentries]
    exact h.nodeKeys
  · rw [← hentries]
    exact h.nodup
  · rw [← hentries] at hp
    exact (h.shallow p hp).trans (Nat.add_le_add_right hhead 1)
  · obtain ⟨hdone, horigin⟩ := h.origin x hx
    exact ⟨List.mem_append_left _ hdone, horigin⟩
  · rw [← hentries]
    exact h.arrives
  · rw [← hentries]
    exact h.count
  · show truncated = true ↔ _
    rw [htruncated, Bool.or_eq_true, h.truncated]
    simp [or_and_right, exists_or]

/-- A new edge at the element taken last is collected. -/
theorem Sound.add [DecidableEq κ] [DecidableEq μ] (hproper : Proper g root)
    (h : Sound g root maxDepth maxEdges done trail level w)
    (ha : (a, level) ∈ done) (hlevel : level < maxDepth) (he : e ∈ g.direct a)
    (hnew : g.edgeKey e ∉ w.edgeKeys) (hroom : w.edges.length < maxEdges) :
    Sound g root maxDepth maxEdges done (trail ++ [((a, level), e)]) level (w.add g level e) := by
  have hsteps : Steps g root (level + 1) (g.next e) :=
    .follow (h.steps _ (List.mem_append_left _ ha)) he
  have hlength : w.edges.length = trail.length := by rw [h.edges, List.length_map]
  have hnewkey : g.edgeKey e ∉ w.edges.map g.edgeKey := fun hin => hnew ((h.edgeKeys _).mpr hin)
  have hedges : (w.add g level e).edges = (trail ++ [((a, level), e)]).map Prod.snd := by
    rw [List.map_append, ← h.edges]
    rfl
  have hedgeKeys : ∀ k, k ∈ (w.add g level e).edgeKeys ↔ k ∈ (w.add g level e).edges.map g.edgeKey := by
    intro k
    show k ∈ g.edgeKey e :: w.edgeKeys ↔ k ∈ (w.edges ++ [e]).map g.edgeKey
    rw [List.mem_cons, h.edgeKeys, List.map_append, List.mem_append, or_comm]
    simp
  have hdistinct : ((w.add g level e).edges.map g.edgeKey).Nodup := by
    show ((w.edges ++ [e]).map g.edgeKey).Nodup
    rw [List.map_append]
    refine h.distinct.append (List.nodup_singleton _) fun k hk hk' => hnewkey ?_
    rw [← List.mem_singleton.mp hk']
    exact hk
  have horigin : ∀ x ∈ trail ++ [((a, level), e)], x.1 ∈ done ∧ x.1.2 < maxDepth ∧ x.2 ∈ g.direct x.1.1 := by
    intro x hx
    rcases List.mem_append.mp hx with hx | hx
    · exact h.origin x hx
    · rw [List.mem_singleton.mp hx]
      exact ⟨ha, hlevel, he⟩
  have hbound : (trail ++ [((a, level), e)]).length ≤ maxEdges := by
    rw [List.length_append, List.length_singleton]
    omega
  by_cases hseen : g.nodeKey (g.next e) ∈ w.nodeKeys
  · have hqueue : (w.add g level e).queue = w.queue := if_neg (not_not_intro hseen)
    have hkeys : (w.add g level e).nodeKeys = w.nodeKeys := if_neg (not_not_intro hseen)
    refine ⟨?_, ?_, ?_, ?_, ?_, ?_, ?_, hedges, hedgeKeys, hdistinct, horigin, fun x hx => ?_, ?_, hbound,
      h.truncated⟩
    · rw [hqueue]
      exact h.begun
    · rw [hqueue]
      exact h.steps
    · rw [hqueue, hkeys]
      exact h.nodeKeys
    · rw [hqueue]
      exact h.nodup
    · rw [hqueue]
      exact h.sorted
    · rw [hqueue]
      exact h.shallow
    · rw [hqueue]
      exact h.ahead
    · rw [hqueue]
      rcases List.mem_append.mp hx with hx | hx
      · exact h.arrives x hx
      · -- the element is in the queue already, or was taken from it
        rw [List.mem_singleton.mp hx]
        obtain ⟨q, hq, hkey⟩ := (h.nodeKeys _).mp hseen
        exact ⟨q, hq, hproper.node (h.steps q hq) hsteps hkey, h.shallow q hq⟩
    · rw [hqueue, @List.length_append _ trail]
      exact h.count.trans (by simp)
  · have hqueue : (w.add g level e).queue = w.queue ++ [(g.next e, level + 1)] := if_pos hseen
    have hkeys : (w.add g level e).nodeKeys = g.nodeKey (g.next e) :: w.nodeKeys := if_pos hseen
    have hentries : done ++ (w.add g level e).queue = done ++ w.queue ++ [(g.next e, level + 1)] := by
      rw [hqueue, List.append_assoc]
    refine ⟨?_, fun p hp => ?_, fun k => ?_, ?_, ?_, fun p hp => ?_, fun p hp => ?_, hedges, hedgeKeys,
      hdistinct, horigin, fun x hx => ?_, ?_, hbound, h.truncated⟩
    · rw [hentries]
      exact List.mem_append_left _ h.begun
    · rw [hentries, List.mem_append] at hp
      rcases hp with hp | hp
      · exact h.steps p hp
      · rw [List.mem_singleton.mp hp]
        exact hsteps
    · rw [hentries, hkeys, List.mem_cons, h.nodeKeys]
      simp only [List.mem_append (t := [(g.next e, level + 1)]), List.mem_singleton, or_and_right,
        exists_or, exists_eq_left]
      rw [or_comm, eq_comm (a := k)]
    · rw [hentries, List.map_append]
      refine h.nodup.append (List.nodup_singleton _) fun b hb hb' => hseen ?_
      obtain ⟨p, hp, rfl⟩ := List.mem_map.mp hb
      exact (h.nodeKeys _).mpr ⟨p, hp, by rw [List.mem_singleton.mp hb']⟩
    · rw [hqueue]
      refine List.pairwise_append.mpr ⟨h.sorted, List.pairwise_singleton _ _, fun p hp q hq => ?_⟩
      rw [List.mem_singleton.mp hq]
      exact h.shallow p (List.mem_append_right _ hp)
    · rw [hentries, List.mem_append] at hp
      rcases hp with hp | hp
      · exact h.shallow p hp
      · rw [List.mem_singleton.mp hp]
    · rw [hqueue, List.mem_append] at hp
      rcases hp with hp | hp
      · exact h.ahead p hp
      · rw [List.mem_singleton.mp hp]
        exact Nat.le_succ level
    · rw [hentries]
      rcases List.mem_append.mp hx with hx | hx
      · obtain ⟨q, hq, harrives⟩ := h.arrives x hx
        exact ⟨q, List.mem_append_left _ hq, harrives⟩
      · rw [List.mem_singleton.mp hx]
        exact ⟨(g.next e, level + 1), List.mem_append_right _ (List.mem_singleton_self _), rfl, le_rfl⟩
    · have hcount := h.count
      rw [hentries]
      simp only [List.length_append, List.length_singleton] at hcount ⊢
      omega

theorem Sound.near (h : Sound g root maxDepth maxEdges done trail level w) (he : e ∈ w.edges) :
    ∃ n < maxDepth, ∃ a, Steps g root n a ∧ e ∈ g.direct a := by
  rw [h.edges, List.mem_map] at he
  obtain ⟨x, hx, rfl⟩ := he
  obtain ⟨hdone, hlevel, hdirect⟩ := h.origin x hx
  exact ⟨x.1.2, hlevel, x.1.1, h.steps _ (List.mem_append_left _ hdone), hdirect⟩

/-- Where the edges are too many, the search ends as it should. -/
theorem Sound.cut (h : Sound g root maxDepth maxEdges done trail level w) {n : ℕ}
    (hsteps : Steps g root n a) (he : e ∈ g.direct a) (hnew : g.edgeKey e ∉ w.edgeKeys)
    (hfull : maxEdges ≤ w.edges.length) : Searched g root maxDepth maxEdges w.edges true := by
  have hlength : w.edges.length = trail.length := by rw [h.edges, List.length_map]
  have hbound := h.bound
  refine ⟨h.distinct, by omega, fun e he => h.near he, .inr (by omega), ?_⟩
  refine iff_of_true rfl ⟨n, a, e, hsteps, he, fun hin => hnew ?_⟩
  exact (h.edgeKeys _).mpr (List.mem_map_of_mem hin)

/-- The edges at the element taken last are collected, or there is no room for one. -/
theorem Sound.follow [DecidableEq κ] [DecidableEq μ] (hproper : Proper g root)
    (h : Sound g root maxDepth maxEdges done trail level w) (ha : (a, level) ∈ done)
    (hlevel : level < maxDepth) {direct : List ε} (hdirect : ∀ e ∈ direct, e ∈ g.direct a)
    (hnodup : (direct.map g.edgeKey).Nodup) (hnew : ∀ e ∈ direct, g.edgeKey e ∉ w.edgeKeys) :
    ((follow g maxEdges level direct w).queue = []
      ∧ Searched g root maxDepth maxEdges (follow g maxEdges level direct w).edges
          (follow g maxEdges level direct w).truncated)
    ∨ ∃ trail', Sound g root maxDepth maxEdges done trail' level (follow g maxEdges level direct w)
      ∧ (∀ x ∈ trail, x ∈ trail') ∧ ∀ e ∈ direct, ((a, level), e) ∈ trail' := by
  induction direct generalizing trail w with
  | nil => exact .inr ⟨trail, h, fun x hx => hx, fun e he => nomatch he⟩
  | cons e direct ih =>
    have hnewe := hnew e List.mem_cons_self
    have he := hdirect e List.mem_cons_self
    rw [BreadthFirst.follow, if_neg hnewe]
    by_cases hfull : maxEdges ≤ w.edges.length
    · rw [if_pos hfull]
      exact .inl ⟨rfl, h.cut (h.steps _ (List.mem_append_left _ ha)) he hnewe hfull⟩
    · rw [if_neg hfull]
      have hadd := h.add hproper ha hlevel he hnewe (Nat.lt_of_not_le hfull)
      rw [List.map_cons, List.nodup_cons] at hnodup
      have hrest := ih hadd (fun f hf => hdirect f (.tail _ hf)) hnodup.2 (by
        intro f hf hin
        rcases List.mem_cons.mp hin with heq | hin
        · exact hnodup.1 (heq ▸ List.mem_map_of_mem hf)
        · exact hnew f (.tail _ hf) hin)
      rcases hrest with hcut | ⟨trail', hsound, hkept, hall⟩
      · exact .inl hcut
      · refine .inr ⟨trail', hsound, fun x hx => hkept x (List.mem_append_left _ hx), fun f hf => ?_⟩
        rcases List.mem_cons.mp hf with rfl | hf
        · exact hkept _ (List.mem_append_right _ (List.mem_singleton_self _))
        · exact hall f hf

/-! ## The end of a search -/

/-- With the queue empty, what fewer edges lead to than the depth of a search was taken. -/
theorem Sound.taken (h : Sound g root maxDepth maxEdges done trail level w) (hqueue : w.queue = [])
    (hexpanded : Expanded g maxDepth done trail) {n : ℕ}
    (hsteps : Steps g root n a) (hn : n ≤ maxDepth) : ∃ depth ≤ n, (a, depth) ∈ done := by
  have hroot := h.begun
  rw [hqueue, List.append_nil] at hroot
  induction hsteps with
  | start => exact ⟨0, le_rfl, hroot⟩
  | @follow n b e hb he ih =>
    obtain ⟨depth, hdepth, hdone⟩ := ih (by omega)
    have htrail := hexpanded _ hdone (by omega) e he
    obtain ⟨q, hq, hnext, hlevel⟩ := h.arrives _ htrail
    rw [hqueue, List.append_nil] at hq
    exact ⟨q.2, hlevel.trans (Nat.add_le_add_right hdepth 1), hnext ▸ hq⟩

theorem Sound.taken_or_deep (h : Sound g root maxDepth maxEdges done trail level w) (hqueue : w.queue = [])
    (hexpanded : Expanded g maxDepth done trail) {n : ℕ}
    (hsteps : Steps g root n a) :
    (∃ depth, (a, depth) ∈ done) ∨ ∃ p ∈ done, maxDepth ≤ p.2 ∧ g.direct p.1 ≠ [] := by
  have hroot := h.begun
  rw [hqueue, List.append_nil] at hroot
  induction hsteps with
  | start => exact .inl ⟨0, hroot⟩
  | @follow n b e hb he ih =>
    rcases ih with ⟨depth, hdone⟩ | hdeep
    · rcases Nat.lt_or_ge depth maxDepth with hlt | hge
      · obtain ⟨q, hq, hnext, -⟩ := h.arrives _ (hexpanded _ hdone hlt e he)
        rw [hqueue, List.append_nil] at hq
        exact .inl ⟨q.2, hnext ▸ hq⟩
      · exact .inr ⟨(b, depth), hdone, hge, List.ne_nil_of_mem he⟩
    · exact .inr hdeep

/-- **Where the queue runs empty**, the search gives what it should. -/
theorem Sound.finished (hproper : Proper g root) (h : Sound g root maxDepth maxEdges done trail level w)
    (hqueue : w.queue = []) (hexpanded : Expanded g maxDepth done trail) :
    Searched g root maxDepth maxEdges w.edges w.truncated := by
  have hlength : w.edges.length = trail.length := by rw [h.edges, List.length_map]
  have hcollected : ∀ p ∈ done, p.2 < maxDepth → ∀ e ∈ g.direct p.1, e ∈ w.edges := by
    intro p hp hlt e he
    rw [h.edges]
    exact List.mem_map.mpr ⟨(p, e), hexpanded p hp hlt e he, rfl⟩
  refine ⟨h.distinct, hlength ▸ h.bound, fun e he => h.near he, .inl ?_, ?_⟩
  · intro n hn a hsteps e he
    obtain ⟨depth, hdepth, hdone⟩ := h.taken hqueue hexpanded hsteps hn.le
    exact hcollected _ hdone (hdepth.trans_lt hn) e he
  · rw [h.truncated]
    constructor
    · rintro ⟨p, hp, hdeep, hne⟩
      obtain ⟨e, he⟩ := List.exists_mem_of_ne_nil _ hne
      have hsteps := h.steps p (List.mem_append_left _ hp)
      refine ⟨p.2, p.1, e, hsteps, he, fun hin => ?_⟩
      rw [h.edges, List.mem_map] at hin
      obtain ⟨x, hx, rfl⟩ := hin
      obtain ⟨hdone, hlt, hdirect⟩ := h.origin x hx
      -- an edge is at one element, and an element was taken once
      have hsame := (hproper.edge (h.steps _ (List.mem_append_left _ hdone)) hsteps hdirect he rfl).1
      have hnodup := h.nodup
      rw [hqueue, List.append_nil] at hnodup
      have heq : x.1 = p := List.inj_on_of_nodup_map hnodup hdone hp hsame
      rw [heq] at hlt
      omega
    · rintro ⟨n, a, e, hsteps, he, hout⟩
      rcases h.taken_or_deep hqueue hexpanded hsteps with ⟨depth, hdone⟩ | hdeep
      · refine ⟨(a, depth), hdone, ?_, List.ne_nil_of_mem he⟩
        by_contra hlt
        exact hout (hcollected _ hdone (Nat.lt_of_not_le hlt) e he)
      · exact hdeep

theorem walk_of_empty [DecidableEq κ] [DecidableEq μ] (hqueue : w.queue = []) (fuel : ℕ) :
    walk g maxDepth maxEdges fuel w = w := by
  cases fuel with
  | zero => rfl
  | succ fuel =>
    rw [walk]
    split
    case h_1 => rfl
    case h_2 hcons =>
      rw [hqueue] at hcons
      exact nomatch hcons

/-- **A search with enough fuel** runs until its queue is empty and gives what it should. -/
theorem walk_of_sound [DecidableEq κ] [DecidableEq μ] (hproper : Proper g root) {fuel : ℕ}
    (h : Sound g root maxDepth maxEdges done trail level w) (hexpanded : Expanded g maxDepth done trail)
    (hfuel : maxEdges + 1 ≤ done.length + fuel) :
    (walk g maxDepth maxEdges fuel w).queue = []
      ∧ Searched g root maxDepth maxEdges (walk g maxDepth maxEdges fuel w).edges
          (walk g maxDepth maxEdges fuel w).truncated := by
  induction fuel generalizing done trail level w with
  | zero =>
    have hcount := h.count
    have hbound := h.bound
    rw [List.length_append] at hcount
    have hqueue : w.queue = [] := List.length_eq_zero_iff.mp (by omega)
    exact ⟨hqueue, h.finished hproper hqueue hexpanded⟩
  | succ fuel ih =>
    rw [walk]
    split
    case h_1 hqueue => exact ⟨hqueue, h.finished hproper hqueue hexpanded⟩
    case h_2 a depth queue hqueue =>
      have hlength : maxEdges + 1 ≤ (done ++ [(a, depth)]).length + fuel := by
        rw [List.length_append, List.length_singleton]
        omega
      by_cases hdeep : maxDepth ≤ depth
      · rw [if_pos hdeep]
        refine ih (h.take hqueue (w.truncated || !(g.direct a).isEmpty) (by simp [hdeep])) ?_ hlength
        intro p hp hlt e he
        rcases List.mem_append.mp hp with hp | hp
        · exact hexpanded p hp hlt e he
        · rw [List.mem_singleton.mp hp] at hlt
          exact absurd hlt (Nat.not_lt.mpr hdeep)
      · rw [if_neg hdeep]
        have htake := h.take hqueue w.truncated (by simp [hdeep])
        have hsteps : Steps g root depth a := h.steps (a, depth) (by simp [hqueue])
        -- no edge at the element was collected before the element was taken
        have hnew : ∀ e ∈ g.direct a, g.edgeKey e ∉ w.edgeKeys := by
          intro e he hin
          rw [h.edgeKeys, h.edges, List.map_map, List.mem_map] at hin
          obtain ⟨x, hx, hkey⟩ := hin
          obtain ⟨hdone, -, hdirect⟩ := h.origin x hx
          have hsame := (hproper.edge (h.steps _ (List.mem_append_left _ hdone)) hsteps hdirect he hkey).1
          have hnodup := h.nodup
          rw [List.map_append, List.nodup_append] at hnodup
          exact hnodup.2.2 _ (List.mem_map_of_mem hdone) a (by simp [hqueue]) hsame
        have hfollow := htake.follow hproper (by simp) (Nat.lt_of_not_le hdeep) (fun e he => he)
          (hproper.nodup hsteps) hnew
        rcases hfollow with ⟨hempty, hsearched⟩ | ⟨trail', hsound, hkept, hall⟩
        · have hstay := @walk_of_empty _ _ _ _ g maxDepth maxEdges _ _ _ hempty fuel
          rw [hstay]
          exact ⟨hempty, hsearched⟩
        · refine ih hsound (fun p hp hlt e he => ?_) hlength
          rcases List.mem_append.mp hp with hp | hp
          · exact hkept _ (hexpanded p hp hlt e he)
          · rw [List.mem_singleton.mp hp] at he ⊢
            exact hall e he

/-- **A bounded breadth-first search** gives what it should. -/
theorem walk_searched [DecidableEq κ] [DecidableEq μ] (hproper : Proper g root) :
    (walk g maxDepth maxEdges (maxEdges + 1) (.start g root)).queue = []
      ∧ Searched g root maxDepth maxEdges (walk g maxDepth maxEdges (maxEdges + 1) (.start g root)).edges
          (walk g maxDepth maxEdges (maxEdges + 1) (.start g root)).truncated :=
  walk_of_sound hproper (Sound.start g root maxDepth maxEdges) (fun p hp => nomatch hp) (by simp)

end Ai00.BreadthFirst
