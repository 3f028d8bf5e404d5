import Mathlib

/-! # Rows kept by key

A dictionary whose values name their own keys is the list of its values, in the order in which
the keys came. `lookup` finds the row of a key, `upsert` puts a row in the place of the one with
its key or at the end, and `upsertAll` does so for rows one after another, the last one of a key
being the one that stays (`lookup_upsertAll`).
-/

namespace Ai00.KeyedRows

variable {ρ κ : Type} [DecidableEq κ] (key : ρ → κ)

/-! ## Operations -/

def lookup (k : κ) (rows : List ρ) : Option ρ := rows.find? (fun r => key r == k)

def upsert (row : ρ) : List ρ → List ρ
  | [] => [row]
  | r :: rows => if key r = key row then row :: rows else r :: upsert row rows

def upsertAll (more rows : List ρ) : List ρ := more.foldl (fun rows row => upsert key row rows) rows

variable {key} {row r : ρ} {rows more : List ρ} {k : κ}

/-! ## Lookup -/

@[simp] theorem lookup_nil : lookup key k ([] : List ρ) = none := rfl

theorem lookup_cons : lookup key k (r :: rows) = if key r = k then some r else lookup key k rows := by
  unfold lookup
  by_cases h : key r = k <;> simp [h]

theorem lookup_append : lookup key k (rows ++ more) = (lookup key k rows).or (lookup key k more) :=
  List.find?_append

/-- The last of some rows counts when they are looked up from the end. -/
theorem lookup_concat_reverse :
    lookup key k (rows ++ [r]).reverse = if key r = k then some r else lookup key k rows.reverse := by
  rw [List.reverse_append, List.reverse_singleton, List.singleton_append, lookup_cons]

theorem lookup_append_reverse : lookup key k (rows ++ more).reverse
    = (lookup key k more.reverse).or (lookup key k rows.reverse) := by
  rw [List.reverse_append, lookup_append]

theorem mem_of_lookup (h : lookup key k rows = some r) : r ∈ rows := List.mem_of_find?_eq_some h

theorem key_of_lookup (h : lookup key k rows = some r) : key r = k := by
  simpa using List.find?_some h

theorem lookup_eq_none_iff : lookup key k rows = none ↔ ∀ r ∈ rows, key r ≠ k := by
  unfold lookup
  simp

theorem lookup_of_mem (h : (rows.map key).Nodup) (hr : r ∈ rows) : lookup key (key r) rows = some r := by
  induction rows with
  | nil => cases hr
  | cons s rows ih =>
    rw [List.map_cons, List.nodup_cons] at h
    rw [lookup_cons]
    rcases List.mem_cons.mp hr with rfl | hr
    · exact if_pos rfl
    · have hne : key s ≠ key r := by
        intro heq
        exact h.1 (heq ▸ List.mem_map_of_mem hr)
      rw [if_neg hne, ih h.2 hr]

theorem lookup_iff_mem (h : (rows.map key).Nodup) :
    lookup key k rows = some r ↔ r ∈ rows ∧ key r = k := by
  constructor
  · exact fun hr => ⟨mem_of_lookup hr, key_of_lookup hr⟩
  · rintro ⟨hr, rfl⟩
    exact lookup_of_mem h hr

/-- Rows seen through a function that leaves the key. -/
theorem map_lookup {β : Type} {f : ρ → β} {key' : β → κ} (h : ∀ r, key' (f r) = key r) :
    (lookup key k rows).map f = lookup key' k (rows.map f) := by
  unfold lookup
  rw [List.find?_map]
  congr 2
  funext r
  rw [Function.comp_apply, h]

theorem lookup_congr {κ' : Type} [DecidableEq κ'] {key' : ρ → κ'} {k' : κ'}
    (h : ∀ r ∈ rows, key r = k ↔ key' r = k') : lookup key k rows = lookup key' k' rows := by
  induction rows with
  | nil => rfl
  | cons r rows ih =>
    rw [lookup_cons, lookup_cons, ih fun s hs => h s (List.mem_cons_of_mem _ hs)]
    exact if_congr (h r List.mem_cons_self) rfl rfl

/-! ## Replacing and adding -/

theorem lookup_upsert :
    lookup key k (upsert key row rows) = if key row = k then some row else lookup key k rows := by
  induction rows with
  | nil => rw [upsert, lookup_cons]
  | cons r rows ih =>
    rw [upsert]
    by_cases hrow : key r = key row
    · rw [if_pos hrow, lookup_cons, lookup_cons, hrow]
      by_cases hk : key row = k <;> simp [hk]
    · rw [if_neg hrow, lookup_cons, lookup_cons, ih]
      by_cases hk : key row = k
      · have hr : key r ≠ k := fun h => hrow (h.trans hk.symm)
        rw [if_neg hr, if_pos hk, if_pos hk]
      · rw [if_neg hk, if_neg hk]

/-- **The last row of a key stays.** -/
theorem lookup_upsertAll : lookup key k (upsertAll key more rows)
    = (lookup key k more.reverse).or (lookup key k rows) := by
  induction more using List.reverseRecOn with
  | nil => rfl
  | append_singleton more row ih =>
    have hlast : upsertAll key (more ++ [row]) rows = upsert key row (upsertAll key more rows) :=
      List.foldl_concat ..
    rw [hlast, lookup_upsert, ih, lookup_concat_reverse]
    by_cases hk : key row = k <;> simp [hk]

theorem mem_upsert (h : r ∈ upsert key row rows) : r = row ∨ r ∈ rows := by
  induction rows with
  | nil => exact Or.inl (List.mem_singleton.mp h)
  | cons s rows ih =>
    rw [upsert] at h
    split_ifs at h
    · rcases List.mem_cons.mp h with h | h
      · exact Or.inl h
      · exact Or.inr (List.mem_cons_of_mem _ h)
    · rcases List.mem_cons.mp h with h | h
      · exact Or.inr (h ▸ List.mem_cons_self)
      · rcases ih h with h | h
        · exact Or.inl h
        · exact Or.inr (List.mem_cons_of_mem _ h)

theorem mem_upsert_self : row ∈ upsert key row rows := by
  induction rows with
  | nil => exact List.mem_singleton.mpr rfl
  | cons s rows ih =>
    rw [upsert]
    split_ifs
    · exact List.mem_cons_self
    · exact List.mem_cons_of_mem _ ih

theorem mem_upsert_of_ne (h : r ∈ rows) (hne : key r ≠ key row) : r ∈ upsert key row rows := by
  induction rows with
  | nil => cases h
  | cons s rows ih =>
    rw [upsert]
    rcases List.mem_cons.mp h with rfl | h
    · rw [if_neg hne]
      exact List.mem_cons_self
    · split_ifs
      · exact List.mem_cons_of_mem _ h
      · exact List.mem_cons_of_mem _ (ih h)

theorem mem_upsertAll (h : r ∈ upsertAll key more rows) : r ∈ more ∨ r ∈ rows := by
  induction more generalizing rows with
  | nil => exact Or.inr h
  | cons s more ih =>
    rcases ih h with h | h
    · exact Or.inl (List.mem_cons_of_mem _ h)
    · rcases mem_upsert h with rfl | h
      · exact Or.inl List.mem_cons_self
      · exact Or.inr h

theorem map_upsert {β : Type} {f : ρ → β} (hrow : r ∈ rows) (hkey : key r = key row)
    (hf : ∀ s ∈ rows, key s = key row → f row = f s) : (upsert key row rows).map f = rows.map f := by
  induction rows with
  | nil => cases hrow
  | cons s rows ih =>
    rw [upsert]
    by_cases hs : key s = key row
    · rw [if_pos hs, List.map_cons, List.map_cons, hf s List.mem_cons_self hs]
    · rw [if_neg hs, List.map_cons, List.map_cons]
      rcases List.mem_cons.mp hrow with rfl | hrow
      · exact absurd hkey hs
      · rw [ih hrow fun s hs => hf s (List.mem_cons_of_mem _ hs)]

theorem upsert_of_new (h : ∀ r ∈ rows, key r ≠ key row) : upsert key row rows = rows ++ [row] := by
  induction rows with
  | nil => rfl
  | cons s rows ih =>
    rw [upsert, if_neg (h s List.mem_cons_self), ih fun r hr => h r (List.mem_cons_of_mem _ hr)]
    rfl

theorem upsertAll_of_new (hkeys : (more.map key).Nodup) (hnew : ∀ r ∈ rows, ∀ row ∈ more, key r ≠ key row) :
    upsertAll key more rows = rows ++ more := by
  induction more generalizing rows with
  | nil => exact (List.append_nil rows).symm
  | cons row more ih =>
    obtain ⟨hrow, hmore⟩ := List.nodup_cons.mp hkeys
    rw [upsertAll, List.foldl_cons, upsert_of_new fun r hr => hnew r hr row List.mem_cons_self, ← upsertAll, ih hmore,
      List.append_assoc, List.singleton_append]
    intro r hr other hother heq
    rcases List.mem_append.mp hr with hr | hr
    · exact hnew r hr other (List.mem_cons_of_mem _ hother) heq
    · rw [List.mem_singleton.mp hr] at heq
      exact hrow (List.mem_map.mpr ⟨other, hother, heq.symm⟩)

theorem map_key_upsert : (upsert key row rows).map key
    = if key row ∈ rows.map key then rows.map key else rows.map key ++ [key row] := by
  split_ifs with h
  · obtain ⟨r, hr, hkey⟩ := List.mem_map.mp h
    exact map_upsert hr hkey fun s _ hs => hs.symm
  · have hnew : ∀ r ∈ rows, key r ≠ key row :=
      fun r hr heq => h (List.mem_map.mpr ⟨r, hr, heq⟩)
    rw [upsert_of_new hnew, List.map_append, List.map_singleton]

theorem nodup_upsert (h : (rows.map key).Nodup) : ((upsert key row rows).map key).Nodup := by
  rw [map_key_upsert]
  split_ifs with hin
  · exact h
  · rw [← List.concat_eq_append, List.nodup_concat]
    exact ⟨hin, h⟩

theorem nodup_upsertAll (h : (rows.map key).Nodup) : ((upsertAll key more rows).map key).Nodup := by
  induction more generalizing rows with
  | nil => exact h
  | cons row more ih => exact ih (nodup_upsert h)

theorem map_key_upsertAll (h : ∀ r ∈ more, key r ∈ rows.map key) :
    (upsertAll key more rows).map key = rows.map key := by
  induction more generalizing rows with
  | nil => rfl
  | cons row more ih =>
    have hrow : (upsert key row rows).map key = rows.map key := by
      rw [map_key_upsert, if_pos (h row List.mem_cons_self)]
    rw [upsertAll, List.foldl_cons, ← upsertAll, ih, hrow]
    intro r hr
    rw [hrow]
    exact h r (List.mem_cons_of_mem _ hr)

theorem upsert_eq_map (h : (rows.map key).Nodup) (hrow : r ∈ rows) (hkey : key r = key row) :
    upsert key row rows = rows.map (fun s => if key s = key row then row else s) := by
  induction rows with
  | nil => cases hrow
  | cons s rows ih =>
    rw [List.map_cons, List.nodup_cons] at h
    rw [upsert, List.map_cons]
    by_cases hs : key s = key row
    · have hothers : ∀ t ∈ rows, (if key t = key row then row else t) = t := by
        intro t ht
        rw [if_neg]
        exact fun heq => h.1 (hs.trans heq.symm ▸ List.mem_map_of_mem ht)
      rw [if_pos hs, if_pos hs, List.map_congr_left hothers, List.map_id']
    · rw [if_neg hs, if_neg hs]
      rcases List.mem_cons.mp hrow with rfl | hrow
      · exact absurd hkey hs
      · rw [ih h.2 hrow]

theorem countP_le_one (h : (rows.map key).Nodup) {p : ρ → Bool}
    (hp : ∀ r ∈ rows, p r = true → key r = k) : rows.countP p ≤ 1 := by
  calc rows.countP p ≤ rows.countP (fun r => key r == k) :=
        List.countP_mono_left fun r hr hpr => by simpa using hp r hr hpr
    _ = (rows.map key).count k := by rw [List.count_eq_countP, List.countP_map]; rfl
    _ ≤ 1 := List.nodup_iff_count_le_one.mp h k

theorem lookup_filter (h : (rows.map key).Nodup) (keep : ρ → Bool) :
    lookup key k (rows.filter keep) = (lookup key k rows).filter keep := by
  have hfilter : ((rows.filter keep).map key).Nodup := (List.filter_sublist.map key).nodup h
  refine Option.ext fun r => ?_
  rw [lookup_iff_mem hfilter, List.mem_filter, Option.filter_eq_some_iff, lookup_iff_mem h]
  constructor
  · rintro ⟨⟨hr, hkeep⟩, hkey⟩
    exact ⟨⟨hr, hkey⟩, hkeep⟩
  · rintro ⟨⟨hr, hkey⟩, hkeep⟩
    exact ⟨⟨hr, hkeep⟩, hkey⟩

/-- Among rows with keys of their own, a condition on a key selects one row or none. -/
theorem countP_eq_one_iff {p : ρ → Bool} (h : (rows.map key).Nodup)
    (hp : ∀ r ∈ rows, p r = true → key r = k) :
    rows.countP p = 1 ↔ ∃ r, lookup key k rows = some r ∧ p r = true := by
  have hle := countP_le_one h hp
  have hpos : 0 < rows.countP p ↔ ∃ r ∈ rows, p r = true := List.countP_pos_iff
  constructor
  · intro hone
    obtain ⟨r, hr, hpr⟩ := hpos.mp (by omega)
    exact ⟨r, (lookup_iff_mem h).mpr ⟨hr, hp r hr hpr⟩, hpr⟩
  · rintro ⟨r, hr, hpr⟩
    have := hpos.mpr ⟨r, mem_of_lookup hr, hpr⟩
    omega

theorem countP_upsert (p : ρ → Bool) (h : (rows.map key).Nodup) (hrow : r ∈ rows)
    (hkey : key r = key row) : (upsert key row rows).countP p + (if p r then 1 else 0)
      = rows.countP p + (if p row then 1 else 0) := by
  induction rows with
  | nil => cases hrow
  | cons s rows ih =>
    rw [List.map_cons, List.nodup_cons] at h
    rw [upsert]
    rcases List.mem_cons.mp hrow with rfl | hrow
    · rw [if_pos hkey, List.countP_cons, List.countP_cons]
      omega
    · have hs : key s ≠ key row := by
        intro heq
        have hin : key r ∈ rows.map key := List.mem_map_of_mem hrow
        exact h.1 (heq ▸ hkey ▸ hin)
      have htail := ih h.2 hrow
      rw [if_neg hs, List.countP_cons, List.countP_cons]
      omega

end Ai00.KeyedRows
