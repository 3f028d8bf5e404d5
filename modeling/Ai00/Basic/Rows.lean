import Mathlib

/-! # Rows of a table

A table is the list of its rows, oldest first. `insert` fails and `insertIgnore` keeps the
table when the new row clashes with one that is there, which is how a database treats a
duplicate under a unique key; `update` rewrites the rows a condition selects. Tables only grow,
so what `find?` has found it goes on finding.
-/

namespace Ai00.Rows

variable {ρ : Type}

/-- `INSERT`: `none` is the duplicate-key error. -/
def insert (clash : ρ → ρ → Bool) (row : ρ) (rows : List ρ) : Option (List ρ) :=
  if rows.any (clash row) then none else some (rows ++ [row])

/-- `INSERT IGNORE`. -/
def insertIgnore (clash : ρ → ρ → Bool) (row : ρ) (rows : List ρ) : List ρ :=
  if rows.any (clash row) then rows else rows ++ [row]

/-- `UPDATE … WHERE`. -/
def update (p : ρ → Bool) (f : ρ → ρ) (rows : List ρ) : List ρ :=
  rows.map (fun r => if p r then f r else r)

variable {clash : ρ → ρ → Bool} {row : ρ} {rows rows' : List ρ}

theorem insert_eq_some : insert clash row rows = some rows' ↔
    (∀ r ∈ rows, clash row r = false) ∧ rows' = rows ++ [row] := by
  unfold insert
  by_cases h : rows.any (clash row)
  · rw [if_pos h]
    obtain ⟨r, hr, hclash⟩ := List.any_eq_true.mp h
    refine iff_of_false (by simp) (fun hall => ?_)
    rw [hall.1 r hr] at hclash
    cases hclash
  · rw [if_neg h]
    rw [Bool.not_eq_true, List.any_eq_false] at h
    constructor
    · intro heq
      cases heq
      exact ⟨fun r hr => by simpa using h r hr, rfl⟩
    · rintro ⟨-, rfl⟩
      rfl

theorem insert_eq_none : insert clash row rows = none ↔ ∃ r ∈ rows, clash row r = true := by
  unfold insert
  by_cases h : rows.any (clash row)
  · rw [if_pos h]
    exact iff_of_true rfl (List.any_eq_true.mp h)
  · rw [if_neg h]
    exact iff_of_false (by simp) (fun hex => h (List.any_eq_true.mpr hex))

variable {q : ρ → Bool}

theorem find?_append_of_some {r : ρ} (h : rows.find? q = some r) (more : List ρ) :
    (rows ++ more).find? q = some r := by
  rw [List.find?_append, h]
  rfl

theorem find?_append_of_not (h : q row = false) :
    (rows ++ [row]).find? q = rows.find? q := by
  rw [List.find?_append]
  simp [h]

theorem find?_append_self (h : q row = true) (hnone : rows.find? q = none) :
    (rows ++ [row]).find? q = some row := by
  rw [List.find?_append, hnone]
  simp [h]

theorem find?_append_new {key : ρ → ℕ} {first : ℕ} {more : List ρ} (hold : ∀ r ∈ rows, key r < first)
    (hnew : ∀ r ∈ more, first ≤ key r) (hkeys : (more.map key).Nodup) (hrow : row ∈ more) :
    (rows ++ more).find? (fun r => key r == key row) = some row := by
  have hnone : rows.find? (fun r => key r == key row) = none := by
    refine List.find?_eq_none.mpr fun r hr heq => ?_
    have hlt := hold r hr
    have hle := hnew row hrow
    rw [eq_of_beq heq] at hlt
    omega
  rw [List.find?_append, hnone, Option.none_or]
  obtain ⟨found, hfound⟩ : ∃ found, more.find? (fun r => key r == key row) = some found := by
    rw [← Option.isSome_iff_exists, List.find?_isSome]
    exact ⟨row, hrow, beq_self_eq_true _⟩
  have hsame := List.find?_some hfound
  rw [hfound, List.inj_on_of_nodup_map hkeys (List.mem_of_find?_eq_some hfound) hrow (eq_of_beq hsame)]

/-- An update that leaves a condition alone is seen through a search for it. -/
theorem find?_update {p q : ρ → Bool} {f : ρ → ρ} (h : ∀ r, p r = true → q (f r) = q r) :
    (update p f rows).find? q = (rows.find? q).map (fun r => if p r then f r else r) := by
  have hq : ∀ r, q (if p r then f r else r) = q r := by
    intro r
    by_cases hp : p r = true
    · rw [if_pos hp, h r hp]
    · rw [if_neg hp]
  rw [update, List.find?_map]
  congr 2
  funext r
  exact hq r

theorem update_append (p : ρ → Bool) (f : ρ → ρ) (rows more : List ρ) :
    update p f (rows ++ more) = update p f rows ++ update p f more := List.map_append

variable {p : ρ → Bool}

theorem update_of_none {f : ρ → ρ} (h : ∀ r ∈ rows, p r = false) :
    update p f rows = rows := by
  calc rows.map (fun r => if p r then f r else r)
      = rows.map id := List.map_congr_left fun r hr => by simp [h r hr]
    _ = rows := List.map_id rows

theorem mem_update_of_not {f : ρ → ρ} {r : ρ} (hr : r ∈ rows) (h : p r = false) :
    r ∈ update p f rows := List.mem_map.mpr ⟨r, hr, by simp [h]⟩

theorem update_update {f g : ρ → ρ} (h : ∀ r, p r = true → p (f r) = true) :
    update p g (update p f rows) = update p (g ∘ f) rows := by
  unfold update
  rw [List.map_map]
  refine List.map_congr_left fun r _ => ?_
  rw [Function.comp_apply]
  by_cases hp : p r = true
  · rw [if_pos hp, if_pos (h r hp), if_pos hp, Function.comp_apply]
  · rw [if_neg hp, if_neg hp, if_neg hp]

theorem nodup_map_concat {κ : Type} {key : ρ → κ} (h : (rows.map key).Nodup)
    (hnew : key row ∉ rows.map key) : ((rows ++ [row]).map key).Nodup := by
  rw [List.map_append, List.map_singleton]
  refine List.nodup_append.mpr ⟨h, List.nodup_singleton _, fun a ha b hb hab => ?_⟩
  rw [List.mem_singleton] at hb
  exact hnew (hb ▸ hab ▸ ha)

end Ai00.Rows
