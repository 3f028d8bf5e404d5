import Mathlib

/-! # Copies made in one pass

A pass over a list gives every item a new number, and resolves what an item refers to among the items
numbered so far, the item itself included. With distinct keys the pass makes a copy of the list exactly
where no item comes before the one that it refers to (`pass_of_ordered`, `ordered_of_copy`).
-/

namespace Ai00.OnePass

variable {α κ δ : Type} [DecidableEq κ] (key : α → κ) (ref : α → Option κ) (width : ℕ)

/-- The number of a key, of several the newest. -/
def find? (map : List (κ × ℕ)) (k : κ) : Option ℕ := (map.find? (·.1 == k)).map Prod.snd

/-- The items with their numbers and those of what they refer to; an item takes `width` numbers. -/
def pass : List α → List (κ × ℕ) → ℕ → List (α × ℕ × Option ℕ)
  | [], _, _ => []
  | a :: rest, map, next =>
    (a, next, (ref a).bind (find? ((key a, next) :: map)))
      :: pass rest ((key a, next) :: map) (next + width)

def place (l : List α) (k : κ) : ℕ := (l.map key).idxOf k

variable {key ref width} {l pre : List α} {a : α} {first : ℕ}

theorem place_of_append (h : ((pre ++ a :: l).map key).Nodup) : place key (pre ++ a :: l) (key a) = pre.length := by
  rw [List.map_append, List.map_cons] at h
  have hnot : key a ∉ pre.map key := fun hin => (List.nodup_append.mp h).2.2 _ hin _ List.mem_cons_self rfl
  rw [place, List.map_append, List.idxOf_append_of_notMem hnot, List.map_cons, List.idxOf_cons_self,
    List.length_map, Nat.add_zero]

theorem mem_take_iff {k : κ} (rest : List α) : k ∈ pre.map key
    ↔ k ∈ (pre ++ rest).map key ∧ place key (pre ++ rest) k < pre.length := by
  rw [place, List.map_append]
  by_cases hin : k ∈ pre.map key
  · have hlt := List.idxOf_lt_length_iff.mpr hin
    rw [List.length_map] at hlt
    rw [List.idxOf_append_of_mem hin]
    exact iff_of_true hin ⟨List.mem_append_left _ hin, hlt⟩
  · rw [List.idxOf_append_of_notMem hin, List.length_map]
    refine iff_of_false hin fun h => ?_
    omega

def number (key : α → κ) (width : ℕ) (l : List α) (first : ℕ) (k : κ) : ℕ := first + width * place key l k

theorem number_injOn (hwidth : 0 < width) : Set.InjOn (number key width l first) {k | k ∈ l.map key} := by
  intro j hj k _ heq
  have hplace : place key l j = place key l k := Nat.eq_of_mul_eq_mul_left hwidth (Nat.add_left_cancel heq)
  exact (List.idxOf_inj hj).mp hplace

/-- An item with its number and that of what it refers to, if this does not come later. -/
def placed (key : α → κ) (ref : α → Option κ) (width : ℕ) (l : List α) (first : ℕ) (a : α) : α × ℕ × Option ℕ :=
  (a, number key width l first (key a), (ref a).bind fun k =>
    if k ∈ l.map key ∧ place key l k ≤ place key l (key a) then some (number key width l first k) else none)

def numbers (key : α → κ) (width : ℕ) (l : List α) (first : ℕ) (pre : List α) : List (κ × ℕ) :=
  (pre.map fun b => (key b, number key width l first (key b))).reverse

theorem find?_numbers (k : κ) : find? (numbers key width l first pre) k
    = if k ∈ pre.map key then some (number key width l first k) else none := by
  induction pre using List.reverseRecOn with
  | nil => rfl
  | append_singleton pre b ih =>
    have hcons : numbers key width l first (pre ++ [b])
        = (key b, number key width l first (key b)) :: numbers key width l first pre := by
      simp [numbers]
    rw [hcons, find?, List.find?_cons]
    by_cases hb : key b = k
    · simp [hb]
    · simp only [beq_eq_false_iff_ne.mpr hb]
      rw [find?] at ih
      rw [ih]
      simp [Ne.symm hb]

/-- **What a pass gives**, item by item. -/
theorem pass_eq (h : (l.map key).Nodup) : pass key ref width l [] first = l.map (placed key ref width l first) := by
  suffices hgoal : ∀ rest pre, l = pre ++ rest →
      pass key ref width rest (numbers key width l first pre) (first + width * pre.length)
        = rest.map (placed key ref width l first) from hgoal l [] rfl
  intro rest
  induction rest with
  | nil => exact fun _ _ => rfl
  | cons a rest ih =>
    intro pre hl
    have hplace : place key l (key a) = pre.length := by
      rw [hl] at h ⊢
      exact place_of_append h
    have hnumbers : (key a, first + width * pre.length) :: numbers key width l first pre
        = numbers key width l first (pre ++ [a]) := by
      simp [numbers, number, hplace]
    have hnext : first + width * pre.length + width = first + width * (pre ++ [a]).length := by
      rw [List.length_append, List.length_singleton, Nat.mul_succ, Nat.add_assoc]
    have happend : l = (pre ++ [a]) ++ rest := by rw [hl, List.append_assoc, List.singleton_append]
    rw [pass, hnumbers, hnext, ih _ happend, List.map_cons, placed, number, hplace]
    congr 3
    refine congrArg _ (funext fun k => ?_)
    rw [find?_numbers]
    have hmem := @mem_take_iff α κ _ key (pre ++ [a]) k rest
    rw [← happend, List.length_append, List.length_singleton] at hmem
    simp only [hmem, Nat.lt_succ_iff]

theorem pass_numbers (map : List (κ × ℕ)) : (pass key ref width l map first).map (fun e => e.2.1)
    = (List.range l.length).map fun i => first + width * i := by
  induction l generalizing map first with
  | nil => rfl
  | cons a l ih =>
    rw [pass, List.map_cons, ih, List.length_cons, List.range_succ_eq_map, List.map_cons, List.map_map]
    congr 1
    refine List.map_congr_left fun i _ => ?_
    rw [Function.comp_apply, Nat.mul_succ]
    omega

theorem nodup_pass_numbers (hwidth : 0 < width) (map : List (κ × ℕ)) :
    ((pass key ref width l map first).map fun e => e.2.1).Nodup := by
  rw [pass_numbers]
  exact List.nodup_range.map fun i j heq => Nat.eq_of_mul_eq_mul_left hwidth (Nat.add_left_cancel heq)

theorem first_le_of_mem {map : List (κ × ℕ)} {e : α × ℕ × Option ℕ} (he : e ∈ pass key ref width l map first) :
    first ≤ e.2.1 := by
  have hin : e.2.1 ∈ (pass key ref width l map first).map fun e => e.2.1 := List.mem_map_of_mem he
  rw [pass_numbers] at hin
  obtain ⟨i, -, heq⟩ := List.mem_map.mp hin
  rw [← heq]
  exact Nat.le_add_right _ _

theorem length_pass (map : List (κ × ℕ)) : (pass key ref width l map first).length = l.length := by
  calc (pass key ref width l map first).length
      = ((pass key ref width l map first).map fun e => e.2.1).length := (List.length_map _).symm
    _ = l.length := by rw [pass_numbers, List.length_map, List.length_range]

/-- What is true of some is true of all, where as many satisfy it as satisfy what follows from it. -/
theorem of_countP_eq {p q : α → Bool} (himp : ∀ a ∈ l, p a = true → q a = true) (h : l.countP p = l.countP q) :
    ∀ a ∈ l, q a = true → p a = true := by
  induction l with
  | nil => exact fun a ha => nomatch ha
  | cons b l ih =>
    have hle : l.countP p ≤ l.countP q := List.countP_mono_left fun a ha => himp a (.tail _ ha)
    have hfirst := himp b List.mem_cons_self
    rw [List.countP_cons, List.countP_cons] at h
    have hsame : (q b = true → p b = true) ∧ l.countP p = l.countP q := by
      cases hp : p b <;> cases hq : q b <;> simp_all
    intro a ha hqa
    rcases List.mem_cons.mp ha with rfl | ha
    · exact hsame.1 hqa
    · exact ih (fun a ha => himp a (.tail _ ha)) hsame.2 a ha hqa

/-- No item comes before the one that it refers to. -/
def Ordered (key : α → κ) (ref : α → Option κ) (l : List α) : Prop :=
  l.Pairwise fun a b => ref a ≠ some (key b)

theorem ordered_iff (h : (l.map key).Nodup) (hrefs : ∀ a ∈ l, ∀ k ∈ ref a, k ∈ l.map key) : Ordered key ref l
    ↔ ∀ a ∈ l, ∀ k ∈ ref a, place key l k ≤ place key l (key a) := by
  have hplace : ∀ i (hi : i < l.length), place key l (key l[i]) = i := by
    intro i hi
    have hmap : i < (l.map key).length := by rwa [List.length_map]
    have hget : (l.map key)[i] = key l[i] := List.getElem_map _
    rw [place, ← hget, h.idxOf_getElem]
  rw [Ordered, List.pairwise_iff_getElem]
  constructor
  · intro hordered a ha k hk
    obtain ⟨b, hb, rfl⟩ := List.mem_map.mp (hrefs a ha k hk)
    obtain ⟨i, hi, rfl⟩ := List.getElem_of_mem ha
    obtain ⟨j, hj, rfl⟩ := List.getElem_of_mem hb
    rw [hplace i hi, hplace j hj]
    by_contra hlt
    exact hordered i j hi hj (Nat.lt_of_not_le hlt) hk
  · intro hle i j hi hj hlt heq
    have hle := hle _ (List.getElem_mem hi) _ heq
    rw [hplace i hi, hplace j hj] at hle
    omega

/-- **A pass makes a copy** of a list in order: each item once, with the number of what it refers to. -/
theorem pass_of_ordered (h : (l.map key).Nodup) (hrefs : ∀ a ∈ l, ∀ k ∈ ref a, k ∈ l.map key)
    (hordered : Ordered key ref l) : pass key ref width l [] first
      = l.map fun a => (a, number key width l first (key a), (ref a).map (number key width l first)) := by
  rw [pass_eq h]
  refine List.map_congr_left fun a ha => ?_
  cases href : ref a with
  | none => simp [placed, href]
  | some k =>
    have hle := (ordered_iff h hrefs).mp hordered a ha k href
    simp only [placed, href, Option.bind_some, Option.map_some, if_pos (And.intro (hrefs a ha k href) hle)]

/-- **Where a pass makes a copy**, under any new keys, no item comes before the one that it refers to. -/
theorem ordered_of_copy {f : α → δ} {copy : κ → ℕ} (h : (l.map key).Nodup)
    (hrefs : ∀ a ∈ l, ∀ k ∈ ref a, k ∈ l.map key)
    (hperm : ((pass key ref width l [] first).map fun e => (e.2.1, e.2.2, f e.1)).Perm
      (l.map fun a => (copy (key a), (ref a).map copy, f a))) : Ordered key ref l := by
  rw [ordered_iff h hrefs]
  rw [pass_eq h, List.map_map] at hperm
  intro a ha k hk
  -- what is lost on one item cannot be made up for by another: none is under something that it should not be
  have hcount := hperm.countP_eq fun row => row.2.1.isSome
  rw [List.countP_map, List.countP_map] at hcount
  have hsome := of_countP_eq (fun a _ hrow => ?_) hcount a ha (by simp [Option.mem_def.mp hk])
  · simp only [Function.comp_apply, placed, Option.mem_def.mp hk, Option.bind_some] at hsome
    by_contra hlt
    rw [if_neg fun hin => hlt hin.2] at hsome
    exact Bool.noConfusion hsome
  · cases href : ref a with
    | none => simp [placed, href] at hrow
    | some k => simp [href]

end Ai00.OnePass
