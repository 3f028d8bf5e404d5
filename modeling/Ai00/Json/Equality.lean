import Ai00.Json.Value

/-! # Python equality on well-formed documents

`Json.Normal text` describes the documents the repository works on after normalization: every
string satisfies `text`, every number is finite, every dictionary is key-sorted, and nothing
else occurs. On them
`pyEq` is an equivalence (`pyEq_refl`, `pyEq_symm`, `pyEq_trans`) that is compatible with
dictionary lookup (`pyEq_obj`) and list position (`pyEq_arr`).
-/

namespace Ai00.Json

variable {text : Str → Prop}

/-! ## Normal documents -/

mutual

def Normal (text : Str → Prop) : Json → Prop
  | .float x => ∃ y, x = .finite y
  | .str s => text s
  | .arr xs => NormalItems text xs
  | .obj fs => Dict.Sorted fs ∧ NormalFields text fs
  | .other _ => False
  | _ => True

def NormalItems (text : Str → Prop) : List Json → Prop
  | [] => True
  | x :: xs => Normal text x ∧ NormalItems text xs

def NormalFields (text : Str → Prop) : List (Str × Json) → Prop
  | [] => True
  | (k, v) :: fs => text k ∧ Normal text v ∧ NormalFields text fs

end

theorem normal_arr {xs : List Json} : Normal text (.arr xs) ↔ ∀ x ∈ xs, Normal text x := by
  change NormalItems text xs ↔ _
  induction xs with
  | nil => exact iff_of_true trivial (by simp)
  | cons x xs ih =>
    rw [List.forall_mem_cons, ← ih]
    rfl

variable {fs : List (Str × Json)}

theorem normal_obj : Normal text (.obj fs) ↔ Dict.Sorted fs ∧ ∀ e ∈ fs, text e.1 ∧ Normal text e.2 := by
  have key : NormalFields text fs ↔ ∀ e ∈ fs, text e.1 ∧ Normal text e.2 := by
    induction fs with
    | nil => exact iff_of_true trivial (by simp)
    | cons e fs ih =>
      rw [List.forall_mem_cons, ← ih, and_assoc]
      rfl
  exact and_congr_right fun _ => key

theorem Normal.sorted (h : Normal text (.obj fs)) : Dict.Sorted fs :=
  (normal_obj.mp h).1

theorem Normal.get? (h : Normal text (.obj fs)) {k : Str} {v : Json}
    (hk : Dict.get? fs k = some v) : Normal text v :=
  ((normal_obj.mp h).2 _ (Dict.mem_of_get? hk)).2

theorem Normal.key (h : Normal text (.obj fs)) {k : Str}
    (hk : k ∈ Dict.keys fs) : text k := by
  obtain ⟨e, he, rfl⟩ := List.mem_map.mp hk
  exact ((normal_obj.mp h).2 e he).1

theorem Normal.insert (h : Normal text (.obj fs)) {k : Str} {v : Json}
    (hk : text k) (hv : Normal text v) : Normal text (.obj (Dict.insert k v fs)) := by
  refine normal_obj.mpr ⟨h.sorted.insert k v, fun e he => ?_⟩
  have hget := (h.sorted.insert k v).get?_iff e.1 e.2 |>.mpr he
  rw [Dict.get?_insert] at hget
  split_ifs at hget with heq
  · cases hget
    exact ⟨heq ▸ hk, hv⟩
  · exact (normal_obj.mp h).2 e (Dict.mem_of_get? hget)

theorem Normal.erase (h : Normal text (.obj fs)) (k : Str) : Normal text (.obj (Dict.erase k fs)) := by
  refine normal_obj.mpr ⟨h.sorted.erase k, fun e he => ?_⟩
  exact (normal_obj.mp h).2 e (List.mem_of_mem_filter he)

/-! ## The list and dictionary clauses -/

theorem pyEqItems_iff (xs ys : List Json) :
    pyEqItems xs ys = true ↔ List.Forall₂ (fun x y => pyEq x y = true) xs ys := by
  induction xs generalizing ys with
  | nil =>
    cases ys with
    | nil => exact iff_of_true rfl .nil
    | cons y ys => exact iff_of_false Bool.false_ne_true (fun h => nomatch h)
  | cons x xs ih =>
    cases ys with
    | nil => exact iff_of_false Bool.false_ne_true (fun h => nomatch h)
    | cons y ys =>
      change (pyEq x y && pyEqItems xs ys) = true ↔ _
      rw [Bool.and_eq_true, ih, List.forall₂_cons]

theorem pyEqFields_iff (fs gs : List (Str × Json)) :
    pyEqFields fs gs = true ↔ ∀ e ∈ fs, ∃ w, Dict.get? gs e.1 = some w ∧ pyEq e.2 w = true := by
  induction fs with
  | nil => exact iff_of_true rfl (by simp)
  | cons e fs ih =>
    obtain ⟨k, v⟩ := e
    rw [List.forall_mem_cons, ← ih]
    refine Bool.and_eq_true_iff.trans (and_congr_left (fun _ => ?_))
    cases Dict.get? gs k <;> simp

/-- Equality of lookups: both absent, or both present and equal. -/
def optEq : Option Json → Option Json → Bool
  | none, none => true
  | some v, some w => pyEq v w
  | _, _ => false

@[simp] theorem optEq_none_none : optEq none none = true := rfl

@[simp] theorem optEq_some_some (v w : Json) : optEq (some v) (some w) = pyEq v w := rfl

@[simp] theorem optEq_none_some (v : Json) : optEq none (some v) = false := rfl

@[simp] theorem optEq_some_none (v : Json) : optEq (some v) none = false := rfl

theorem pyEq_arr (xs ys : List Json) :
    pyEq (.arr xs) (.arr ys) = true ↔ List.Forall₂ (fun x y => pyEq x y = true) xs ys :=
  pyEqItems_iff xs ys

/-- Dictionaries are equal exactly when all lookups are. -/
theorem pyEq_obj {fs gs : List (Str × Json)} (hf : Dict.Sorted fs) (hg : Dict.Sorted gs) :
    pyEq (.obj fs) (.obj gs) = true ↔ ∀ k, optEq (Dict.get? fs k) (Dict.get? gs k) = true := by
  change (decide (fs.length = gs.length) && pyEqFields fs gs) = true ↔ _
  rw [Bool.and_eq_true, decide_eq_true_iff, pyEqFields_iff]
  constructor
  · rintro ⟨hlen, hall⟩ k
    have hsub : Dict.keys fs ⊆ Dict.keys gs := by
      intro q hq
      obtain ⟨e, he, rfl⟩ := List.mem_map.mp hq
      obtain ⟨w, hw, -⟩ := hall e he
      exact (Dict.mem_keys_iff gs _).mpr ⟨w, hw⟩
    have hperm : (Dict.keys fs).Perm (Dict.keys gs) :=
      (List.subperm_of_subset hf.nodup hsub).perm_of_length_le (by simp [Dict.keys, hlen])
    cases hk : Dict.get? fs k with
    | none =>
      have hnk : k ∉ Dict.keys gs := fun h =>
        (Dict.get?_eq_none_iff fs k).mp hk (hperm.mem_iff.mpr h)
      rw [(Dict.get?_eq_none_iff gs k).mpr hnk]
      rfl
    | some v =>
      obtain ⟨w, hw, hvw⟩ := hall (k, v) (Dict.mem_of_get? hk)
      rw [hw]
      exact hvw
  · intro hall
    have hmem : ∀ k, k ∈ Dict.keys fs ↔ k ∈ Dict.keys gs := by
      intro k
      have h := hall k
      rw [Dict.mem_keys_iff, Dict.mem_keys_iff]
      cases hf' : Dict.get? fs k <;> cases hg' : Dict.get? gs k <;> simp [hf', hg'] at h ⊢
    refine ⟨?_, fun e he => ?_⟩
    · have hperm := (List.perm_ext_iff_of_nodup hf.nodup hg.nodup).mpr hmem
      simpa [Dict.keys] using hperm.length_eq
    · have h := hall e.1
      rw [(hf.get?_iff e.1 e.2).mpr he] at h
      cases hw : Dict.get? gs e.1 with
      | none => rw [hw] at h; cases h
      | some w => rw [hw] at h; exact ⟨w, rfl, h⟩

/-! ## The scalar clauses -/

theorem pyEq_of_numeric {a : Json} {p : ℚ} (ha : numeric a = some p) (b : Json) :
    pyEq a b = true ↔ numeric b = some p := by
  have hnum : pyEq a b = numericEq a b := by
    cases a with
    | float x =>
      cases x with
      | finite x => cases b <;> rfl
      | inf s => cases ha
      | nan => cases ha
    | bool x => cases b <;> rfl
    | int n => cases b <;> rfl
    | _ => cases ha
  rw [hnum, numericEq, ha]
  cases numeric b <;> simp [eq_comm]

theorem pyEq_null (b : Json) : pyEq .null b = true ↔ b = .null := by
  cases b with
  | null => exact iff_of_true rfl rfl
  | _ => exact iff_of_false Bool.false_ne_true (fun h => nomatch h)

theorem pyEq_str (s : Str) (b : Json) : pyEq (.str s) b = true ↔ b = .str s := by
  cases b with
  | str t =>
    change decide (s = t) = true ↔ _
    rw [decide_eq_true_iff, str.injEq, eq_comm]
  | _ => exact iff_of_false Bool.false_ne_true (fun h => nomatch h)

theorem pyEq_arr_left {xs : List Json} {b : Json} (h : pyEq (.arr xs) b = true) :
    ∃ ys, b = .arr ys := by
  cases b with
  | arr ys => exact ⟨ys, rfl⟩
  | _ => exact (Bool.false_ne_true h).elim

theorem pyEq_obj_left {b : Json} (h : pyEq (.obj fs) b = true) :
    ∃ gs, b = .obj gs := by
  cases b with
  | obj gs => exact ⟨gs, rfl⟩
  | _ => exact (Bool.false_ne_true h).elim

/-! ## Equality is an equivalence -/

theorem pyEq_refl {a : Json} (ha : Normal text a) : pyEq a a = true := by
  induction a using Json.ind with
  | null => rfl
  | bool b => exact (pyEq_of_numeric rfl _).mpr rfl
  | int n => exact (pyEq_of_numeric rfl _).mpr rfl
  | float x =>
    obtain ⟨y, rfl⟩ := ha
    exact (pyEq_of_numeric rfl _).mpr rfl
  | str s => exact (pyEq_str s _).mpr rfl
  | other t => exact ha.elim
  | arr xs ih =>
    rw [pyEq_arr, List.forall₂_same]
    exact fun x hx => ih x hx (normal_arr.mp ha x hx)
  | obj fs ih =>
    rw [pyEq_obj ha.sorted ha.sorted]
    intro k
    cases hk : Dict.get? fs k with
    | none => rfl
    | some v => exact ih (k, v) (Dict.mem_of_get? hk) (ha.get? hk)

theorem pyEq_symm {a : Json} (ha : Normal text a) {b : Json} (hb : Normal text b)
    (h : pyEq a b = true) : pyEq b a = true := by
  induction a using Json.ind generalizing b with
  | null =>
    rw [(pyEq_null b).mp h]
    rfl
  | bool x => exact (pyEq_of_numeric ((pyEq_of_numeric rfl b).mp h) _).mpr rfl
  | int n => exact (pyEq_of_numeric ((pyEq_of_numeric rfl b).mp h) _).mpr rfl
  | float x =>
    obtain ⟨y, rfl⟩ := ha
    exact (pyEq_of_numeric ((pyEq_of_numeric rfl b).mp h) _).mpr rfl
  | str s =>
    rw [(pyEq_str s b).mp h]
    exact (pyEq_str s _).mpr rfl
  | other t => exact ha.elim
  | arr xs ih =>
    obtain ⟨ys, rfl⟩ := pyEq_arr_left h
    rw [pyEq_arr] at h ⊢
    refine List.forall₂_iff_get.mpr ⟨h.length_eq.symm, fun i hj hi => ?_⟩
    exact ih _ (List.get_mem _ _) (normal_arr.mp ha _ (List.get_mem _ _))
      (normal_arr.mp hb _ (List.get_mem _ _)) (h.get hi hj)
  | obj fs ih =>
    obtain ⟨gs, rfl⟩ := pyEq_obj_left h
    rw [pyEq_obj ha.sorted hb.sorted] at h
    rw [pyEq_obj hb.sorted ha.sorted]
    intro k
    have hk := h k
    cases hf : Dict.get? fs k with
    | none =>
      cases hg : Dict.get? gs k with
      | none => rfl
      | some w => rw [hf, hg] at hk; cases hk
    | some v =>
      cases hg : Dict.get? gs k with
      | none => rw [hf, hg] at hk; cases hk
      | some w =>
        rw [hf, hg] at hk
        exact ih (k, v) (Dict.mem_of_get? hf) (ha.get? hf) (hb.get? hg) hk

theorem pyEq_trans {a : Json} (ha : Normal text a) {b c : Json} (hb : Normal text b)
    (hc : Normal text c) (hab : pyEq a b = true) (hbc : pyEq b c = true) :
    pyEq a c = true := by
  induction a using Json.ind generalizing b c with
  | null =>
    rw [(pyEq_null b).mp hab] at hbc
    exact hbc
  | bool x =>
    have h := (pyEq_of_numeric rfl b).mp hab
    exact (pyEq_of_numeric rfl c).mpr ((pyEq_of_numeric h c).mp hbc)
  | int n =>
    have h := (pyEq_of_numeric rfl b).mp hab
    exact (pyEq_of_numeric rfl c).mpr ((pyEq_of_numeric h c).mp hbc)
  | float x =>
    obtain ⟨y, rfl⟩ := ha
    have h := (pyEq_of_numeric rfl b).mp hab
    exact (pyEq_of_numeric rfl c).mpr ((pyEq_of_numeric h c).mp hbc)
  | str s =>
    rw [(pyEq_str s b).mp hab] at hbc
    exact hbc
  | other t => exact ha.elim
  | arr xs ih =>
    obtain ⟨ys, rfl⟩ := pyEq_arr_left hab
    obtain ⟨zs, rfl⟩ := pyEq_arr_left hbc
    rw [pyEq_arr] at hab hbc ⊢
    refine List.forall₂_iff_get.mpr ⟨hab.length_eq.trans hbc.length_eq, fun i hi hk => ?_⟩
    have hj : i < ys.length := hab.length_eq ▸ hi
    exact ih _ (List.get_mem _ _) (normal_arr.mp ha _ (List.get_mem _ _))
      (normal_arr.mp hb _ (List.get_mem _ ⟨i, hj⟩)) (normal_arr.mp hc _ (List.get_mem _ _))
      (hab.get hi hj) (hbc.get hj hk)
  | obj fs ih =>
    obtain ⟨gs, rfl⟩ := pyEq_obj_left hab
    obtain ⟨es, rfl⟩ := pyEq_obj_left hbc
    rw [pyEq_obj ha.sorted hb.sorted] at hab
    rw [pyEq_obj hb.sorted hc.sorted] at hbc
    rw [pyEq_obj ha.sorted hc.sorted]
    intro k
    have h1 := hab k
    have h2 := hbc k
    cases hf : Dict.get? fs k with
    | none =>
      cases hg : Dict.get? gs k with
      | none => rw [hg] at h2; exact h2
      | some w => rw [hf, hg] at h1; cases h1
    | some v =>
      cases hg : Dict.get? gs k with
      | none => rw [hf, hg] at h1; cases h1
      | some w =>
        cases he : Dict.get? es k with
        | none => rw [hg, he] at h2; cases h2
        | some u =>
          rw [hf, hg] at h1
          rw [hg, he] at h2
          exact ih (k, v) (Dict.mem_of_get? hf) (ha.get? hf) (hb.get? hg) (hc.get? he) h1 h2

/-! ## String values -/

/-- The text of a string value. -/
def asStr : Json → Option Str
  | .str s => some s
  | _ => none

theorem asStr_of_numeric {b : Json} {p : ℚ} (h : numeric b = some p) : asStr b = none := by
  cases b with
  | str t => cases h
  | _ => rfl

/-- Equal values agree on whether they are strings and on which. -/
theorem asStr_of_pyEq {a b : Json} (h : pyEq a b = true) : asStr a = asStr b := by
  cases a with
  | str s => rw [(pyEq_str s b).mp h]
  | null => rw [(pyEq_null b).mp h]
  | arr xs =>
    obtain ⟨ys, rfl⟩ := pyEq_arr_left h
    rfl
  | obj fs =>
    obtain ⟨gs, rfl⟩ := pyEq_obj_left h
    rfl
  | bool x => exact (asStr_of_numeric ((pyEq_of_numeric rfl b).mp h)).symm
  | int n => exact (asStr_of_numeric ((pyEq_of_numeric rfl b).mp h)).symm
  | float x =>
    cases b with
    | str t => cases x <;> exact (Bool.false_ne_true h).elim
    | _ => rfl
  | other t => exact (Bool.false_ne_true h).elim

end Ai00.Json
