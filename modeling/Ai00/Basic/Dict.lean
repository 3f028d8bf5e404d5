import Mathlib

/-! # Dictionaries as key-sorted association lists

A finite map is kept as the list of its entries in strictly increasing key order. The order
makes equality of maps equality of lists (`Dict.ext`), and a loop over `sorted(keys)` a
traversal of the list. `get?`, `insert` and `erase` are the three operations; their effect on
`get?` holds for every list, sorted or not, and `insert` and `erase` keep the order.
-/

namespace Ai00.Dict

variable {K V : Type*}

/-! ## Operations -/

def keys (d : List (K × V)) : List K := d.map Prod.fst

@[simp] theorem keys_nil : keys ([] : List (K × V)) = [] := rfl

@[simp] theorem keys_cons (e : K × V) (d : List (K × V)) : keys (e :: d) = e.1 :: keys d := rfl

variable {d : List (K × V)}

theorem mem_keys_of_mem {e : K × V} (h : e ∈ d) : e.1 ∈ keys d :=
  List.mem_map_of_mem h

variable [LinearOrder K]

def get? : List (K × V) → K → Option V
  | [], _ => none
  | (k', v) :: d, k => if k' = k then some v else get? d k

def insert (k : K) (v : V) : List (K × V) → List (K × V)
  | [] => [(k, v)]
  | (k', v') :: d =>
    if k < k' then (k, v) :: (k', v') :: d
    else if k' = k then (k, v) :: d
    else (k', v') :: insert k v d

def erase (k : K) (d : List (K × V)) : List (K × V) := d.filter (fun e => e.1 ≠ k)

/-- The entries are in strictly increasing key order. -/
def Sorted (d : List (K × V)) : Prop := (keys d).Pairwise (· < ·)

/-! ## Lookup -/

@[simp] theorem get?_nil (k : K) : get? ([] : List (K × V)) k = none := rfl

theorem get?_cons (k' k : K) (v : V) (d : List (K × V)) :
    get? ((k', v) :: d) k = if k' = k then some v else get? d k := rfl

theorem get?_eq_none_iff (d : List (K × V)) (k : K) : get? d k = none ↔ k ∉ keys d := by
  induction d with
  | nil => simp
  | cons e d ih =>
    obtain ⟨k', v⟩ := e
    by_cases hk : k' = k
    · simp [get?_cons, hk]
    · simp [get?_cons, hk, ih, Ne.symm hk]

theorem mem_keys_iff (d : List (K × V)) (k : K) : k ∈ keys d ↔ ∃ v, get? d k = some v := by
  have h := get?_eq_none_iff d k
  cases hg : get? d k with
  | none => simp [h.mp hg]
  | some v =>
    refine iff_of_true ?_ ⟨v, rfl⟩
    by_contra hk
    rw [h.mpr hk] at hg
    cases hg

variable {k : K}

theorem mem_of_get? {v : V} (h : get? d k = some v) : (k, v) ∈ d := by
  induction d with
  | nil => cases h
  | cons e d ih =>
    obtain ⟨k', v'⟩ := e
    rw [get?_cons] at h
    by_cases hk : k' = k
    · rw [if_pos hk] at h
      cases h
      subst hk
      exact List.mem_cons_self
    · rw [if_neg hk] at h
      exact List.mem_cons_of_mem _ (ih h)

theorem get?_of_mem (hd : (keys d).Nodup) {v : V} (h : (k, v) ∈ d) :
    get? d k = some v := by
  induction d with
  | nil => cases h
  | cons e d ih =>
    obtain ⟨k', v'⟩ := e
    rw [keys_cons, List.nodup_cons] at hd
    rw [get?_cons]
    rcases List.mem_cons.mp h with heq | hmem
    · cases heq
      rw [if_pos rfl]
    · have hne : k' ≠ k := by
        rintro rfl
        have hin : k' ∈ keys d := mem_keys_of_mem hmem
        exact hd.1 hin
      rw [if_neg hne, ih hd.2 hmem]

@[simp] theorem get?_insert_self (d : List (K × V)) (k : K) (v : V) : get? (insert k v d) k = some v := by
  induction d with
  | nil => simp [insert, get?_cons]
  | cons e d ih =>
    obtain ⟨k', v'⟩ := e
    rw [insert]
    split_ifs with h1 h2
    · simp [get?_cons]
    · simp [get?_cons]
    · simp [get?_cons, h2, ih]

theorem get?_insert_of_ne (d : List (K × V)) {k k' : K} (v : V) (h : k' ≠ k) :
    get? (insert k v d) k' = get? d k' := by
  induction d with
  | nil => simp [insert, get?_cons, Ne.symm h]
  | cons e d ih =>
    obtain ⟨q, v'⟩ := e
    rw [insert]
    split_ifs with h1 h2
    · simp [get?_cons, Ne.symm h]
    · subst h2
      simp [get?_cons, Ne.symm h]
    · simp [get?_cons, ih]

theorem get?_insert (d : List (K × V)) (k k' : K) (v : V) :
    get? (insert k v d) k' = if k' = k then some v else get? d k' := by
  by_cases h : k' = k
  · subst h; simp
  · rw [if_neg h, get?_insert_of_ne d v h]

@[simp] theorem get?_erase_self (d : List (K × V)) (k : K) : get? (erase k d) k = none := by
  rw [get?_eq_none_iff]
  intro hk
  obtain ⟨e, he, rfl⟩ := List.mem_map.mp hk
  simp [erase] at he

theorem get?_erase_of_ne (d : List (K × V)) {k k' : K} (h : k' ≠ k) : get? (erase k d) k' = get? d k' := by
  induction d with
  | nil => rfl
  | cons e d ih =>
    obtain ⟨q, v⟩ := e
    by_cases hq : q = k
    · subst hq
      simp only [erase] at ih ⊢
      rw [List.filter_cons_of_neg (by simp), ih, get?_cons, if_neg (Ne.symm h)]
    · simp only [erase] at ih ⊢
      rw [List.filter_cons_of_pos (by simpa using hq), get?_cons, get?_cons, ih]

/-! ## Order -/

@[simp] theorem sorted_nil : Sorted ([] : List (K × V)) := List.Pairwise.nil

theorem sorted_cons {v : V} : Sorted ((k, v) :: d) ↔ (∀ k' ∈ keys d, k < k') ∧ Sorted d := List.pairwise_cons

theorem Sorted.nodup (h : Sorted d) : (keys d).Nodup :=
  List.Pairwise.imp (fun h => ne_of_lt h) h

theorem Sorted.get?_iff (h : Sorted d) (k : K) (v : V) : get? d k = some v ↔ (k, v) ∈ d :=
  ⟨mem_of_get?, get?_of_mem h.nodup⟩

theorem mem_keys_insert (d : List (K × V)) (k k' : K) (v : V) :
    k' ∈ keys (insert k v d) ↔ k' = k ∨ k' ∈ keys d := by
  rw [mem_keys_iff, mem_keys_iff, get?_insert]
  by_cases h : k' = k <;> simp [h]

theorem Sorted.insert (h : Sorted d) (k : K) (v : V) : Sorted (insert k v d) := by
  induction d with
  | nil => exact List.pairwise_singleton _ _
  | cons e d ih =>
    obtain ⟨k', v'⟩ := e
    rw [sorted_cons] at h
    rw [Dict.insert]
    split_ifs with h1 h2
    · refine sorted_cons.mpr ⟨?_, sorted_cons.mpr h⟩
      intro q hq
      rcases List.mem_cons.mp hq with rfl | hq
      · exact h1
      · exact lt_trans h1 (h.1 q hq)
    · subst h2
      exact sorted_cons.mpr h
    · refine sorted_cons.mpr ⟨?_, ih h.2⟩
      intro q hq
      rcases (mem_keys_insert d k q v).mp hq with rfl | hq
      · exact lt_of_le_of_ne (not_lt.mp h1) h2
      · exact h.1 q hq

theorem Sorted.erase (h : Sorted d) (k : K) : Sorted (erase k d) := by
  unfold Sorted at h ⊢
  exact List.Pairwise.sublist (List.filter_sublist.map Prod.fst) h

/-- A key above all others goes to the end. -/
theorem insert_of_lt {v : V} (h : ∀ q ∈ keys d, q < k) : insert k v d = d ++ [(k, v)] := by
  induction d with
  | nil => rfl
  | cons e d ih =>
    obtain ⟨k', v'⟩ := e
    rw [keys_cons, List.forall_mem_cons] at h
    rw [insert, if_neg (not_lt.mpr (le_of_lt h.1)), if_neg (ne_of_lt h.1), ih h.2]
    rfl

/-- **A sorted dictionary is determined by its lookups.** -/
theorem ext {d e : List (K × V)} (hd : Sorted d) (he : Sorted e)
    (h : ∀ k, get? d k = get? e k) : d = e := by
  have hmem : ∀ x : K × V, x ∈ d ↔ x ∈ e := by
    intro ⟨k, v⟩
    rw [← hd.get?_iff, ← he.get?_iff, h k]
  have hperm : d.Perm e :=
    (List.perm_ext_iff_of_nodup (List.Nodup.of_map _ hd.nodup)
      (List.Nodup.of_map _ he.nodup)).mpr hmem
  have hd' : d.Pairwise (fun a b => a.1 < b.1) := List.pairwise_map.mp hd
  have he' : e.Pairwise (fun a b => a.1 < b.1) := List.pairwise_map.mp he
  refine hperm.eq_of_pairwise (fun a b _ _ hab hba => ?_) hd' he'
  exact absurd (lt_trans hab hba) (lt_irrefl _)

theorem insert_of_get? (hd : Sorted d) {v : V}
    (h : get? d k = some v) : insert k v d = d := by
  refine ext (hd.insert k v) hd (fun q => ?_)
  rw [get?_insert]
  split_ifs with hq
  · rw [hq, h]
  · rfl

@[simp] theorem insert_insert (d : List (K × V)) (hd : Sorted d) (k : K) (v w : V) :
    insert k w (insert k v d) = insert k w d := by
  refine ext ((hd.insert k v).insert k w) (hd.insert k w) (fun q => ?_)
  simp only [get?_insert]
  split_ifs <;> rfl

/-! ## Sorted unions of key lists -/

/-- `sorted(set(xs) | set(ys))`. -/
def sortedUnion (xs ys : List K) : List K := (xs ++ ys).dedup.insertionSort (· ≤ ·)

@[simp] theorem mem_sortedUnion {xs ys : List K} :
    k ∈ sortedUnion xs ys ↔ k ∈ xs ∨ k ∈ ys := by
  simp [sortedUnion]

theorem sortedUnion_pairwise (xs ys : List K) : (sortedUnion xs ys).Pairwise (· < ·) := by
  have hle : (sortedUnion xs ys).Pairwise (· ≤ ·) := List.pairwise_insertionSort _ _
  have hnd : (sortedUnion xs ys).Nodup :=
    (List.perm_insertionSort (· ≤ ·) _).nodup_iff.mpr (List.nodup_dedup _)
  exact (hle.and hnd).imp (fun h => lt_of_le_of_ne h.1 h.2)

theorem sortedUnion_congr {xs ys xs' ys' : List K}
    (h : ∀ k, (k ∈ xs ∨ k ∈ ys) ↔ (k ∈ xs' ∨ k ∈ ys')) : sortedUnion xs ys = sortedUnion xs' ys' := by
  have hsorted := sortedUnion_pairwise xs ys
  have hsorted' := sortedUnion_pairwise xs' ys'
  have hperm : (sortedUnion xs ys).Perm (sortedUnion xs' ys') := by
    refine (List.perm_ext_iff_of_nodup (hsorted.imp ne_of_lt) (hsorted'.imp ne_of_lt)).mpr ?_
    simpa using h
  exact hperm.eq_of_pairwise (fun a b _ _ hab hba => absurd hba (lt_asymm hab)) hsorted hsorted'

end Ai00.Dict
