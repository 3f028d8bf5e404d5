import Ai00.Revision.Path

/-! # Edits relative to a value

An `Edit` is a change with its place given by keys relative to the value it is made on.
`Replays guard es v r` says that the edits `es`, made one after the other on `v`, all succeed
and end in `r`, with `guard` holding of the value before each edit.

The two lifting lemmas move a replay one level up: `replays_under_obj` into the object that
holds the value, `replays_under_arr` into the array. An array finds an item by its identity, so
there the replay has the guard that the item still carries it.
-/

namespace Ai00.Revision

open Json

structure Edit where
  keys : List Str
  change : Change

namespace Edit

/-- The edit as seen from the container that holds the value under `k`. -/
def under (k : Str) (e : Edit) : Edit := ⟨k :: e.keys, e.change⟩

@[simp] theorem under_keys (k : Str) (e : Edit) : (e.under k).keys = k :: e.keys := rfl

@[simp] theorem under_change (k : Str) (e : Edit) : (e.under k).change = e.change := rfl

/-- The edit happens inside the value, which is a container then. -/
def Inner (e : Edit) : Prop := e.keys ≠ [] ∨ e.change.identity ≠ none

/-- An edit that is not inside the value replaces it. -/
def WellPlaced (e : Edit) : Prop := e.Inner ∨ e.change.changeType = .replace

theorem inner_under (k : Str) (e : Edit) : (e.under k).Inner := Or.inl (by simp)

def apply (e : Edit) (v : Json) : Except PyError Json :=
  match e.keys, e.change.identity with
  | [], none => .ok e.change.after
  | ks, _ => applyAt ks e.change v

theorem apply_of_inner {e : Edit} (h : e.Inner) (v : Json) :
    e.apply v = applyAt e.keys e.change v := by
  obtain ⟨ks, c⟩ := e
  unfold apply
  cases ks with
  | nil =>
    cases hid : c.identity with
    | none =>
      rcases h with h | h
      · exact absurd rfl h
      · exact absurd hid h
    | some i => rfl
  | cons k ks => rfl

theorem apply_of_not_inner {e : Edit} (h : ¬ e.Inner) (v : Json) :
    e.apply v = .ok e.change.after := by
  obtain ⟨ks, c⟩ := e
  have hks : ks = [] := by
    by_contra hne
    exact h (Or.inl hne)
  have hid : c.identity = none := by
    by_contra hne
    exact h (Or.inr hne)
  subst hks
  unfold apply
  simp [hid]

end Edit

/-! ## One step down a path -/

/-- A step through a container leads to the value below. -/
theorem applyAt_cons {c : Change} {ks : List Str} (h : ks ≠ [] ∨ c.identity ≠ none) (k : Str)
    (v : Json) : ∃ f : Json → Except PyError Json, ∃ ls : List Str,
      applyAt (k :: ks) c v = modifyAt f (k :: ls) v ∧ ∀ w, applyAt ks c w = modifyAt f ls w := by
  cases hid : c.identity with
  | some i =>
    refine ⟨editCollection c i, ks, ?_, fun w => ?_⟩
    · simp [applyAt, hid]
    · simp [applyAt, hid]
  | none =>
    have hks : ks ≠ [] := h.resolve_right (fun hne => hne hid)
    obtain ⟨q, ls, rfl⟩ := List.exists_cons_of_ne_nil hks
    have hlast : (q :: ls).getLast? = some ((q :: ls).getLast (by simp)) :=
      List.getLast?_eq_some_getLast (by simp)
    refine ⟨editField c ((q :: ls).getLast (by simp)), (q :: ls).dropLast, ?_, fun w => ?_⟩
    · simp [applyAt, hid, hlast]
    · simp [applyAt, hid, hlast]

variable {e : Edit}

theorem under_apply_obj (he : e.WellPlaced) {h : List (Str × Json)} {k : Str}
    {v : Json} (hk : Dict.get? h k = some v) (r : Json) :
    (e.under k).apply (.obj h) = .ok r ↔ ∃ u, e.apply v = .ok u ∧ r = .obj (Dict.insert k u h) := by
  by_cases hin : e.Inner
  · obtain ⟨f, ls, hup, hdown⟩ := applyAt_cons hin k (.obj h)
    rw [Edit.apply_of_inner (e.inner_under k), Edit.apply_of_inner hin]
    show applyAt (k :: e.keys) e.change (.obj h) = .ok r ↔ _
    rw [hup, hdown, modifyAt, hk]
    show (modifyAt f ls v >>= fun u => .ok (.obj (Dict.insert k u h))) = .ok r ↔ _
    rw [bind_eq_ok]
    simp only [Except.ok.injEq, eq_comm]
  · have hrep : e.change.changeType = .replace := he.resolve_left hin
    have hkeys : e.keys = [] := by
      by_contra hne
      exact hin (Or.inl hne)
    have hid : e.change.identity = none := by
      by_contra hne
      exact hin (Or.inr hne)
    rw [Edit.apply_of_inner (e.inner_under k), Edit.apply_of_not_inner hin]
    simp [applyAt, hkeys, hid, modifyAt, editField, hrep, hk, eq_comm]

/-! ## Inner edits keep containers -/

variable {v u : Json}

theorem modifyAt_container {f : Json → Except PyError Json}
    (hf : ∀ v u, f v = .ok u → asStr u = none) {ls : List Str}
    (h : modifyAt f ls v = .ok u) : asStr u = none := by
  cases ls with
  | nil => exact hf v u h
  | cons k ls =>
    cases v with
    | obj fs =>
      rw [modifyAt] at h
      cases hk : Dict.get? fs k with
      | none => rw [hk] at h; cases h
      | some w =>
        rw [hk] at h
        obtain ⟨x, -, hx⟩ := bind_eq_ok.mp h
        cases hx
        rfl
    | arr xs =>
      rw [modifyAt] at h
      cases hk : xs.find? (fun item => identity item = some k) with
      | none => rw [hk] at h; cases h
      | some w =>
        rw [hk] at h
        obtain ⟨x, -, hx⟩ := bind_eq_ok.mp h
        cases hx
        rfl
    | _ => cases h

theorem editCollection_container {c : Change} {i : Str}
    (h : editCollection c i v = .ok u) : ∃ xs, u = .arr xs := by
  cases v with
  | arr xs =>
    simp only [editCollection] at h
    split at h
    · split_ifs at h
      cases h
      exact ⟨_, rfl⟩
    · split_ifs at h
      cases h
      exact ⟨_, rfl⟩
    · split at h
      · cases h
        exact ⟨_, rfl⟩
      · cases h
    · cases h
  | _ => cases h

theorem editField_container {c : Change} {k : Str} (h : editField c k v = .ok u) :
    ∃ fs, u = .obj fs := by
  cases v with
  | obj fs =>
    simp only [editField] at h
    split at h
    · split_ifs at h
      cases h
      exact ⟨_, rfl⟩
    · split_ifs at h
      cases h
      exact ⟨_, rfl⟩
    · split_ifs at h
      cases h
      exact ⟨_, rfl⟩
    · cases h
  | _ => cases h

theorem Edit.asStr_apply (he : e.Inner) (h : e.apply v = .ok u) :
    asStr u = none := by
  rw [apply_of_inner he] at h
  unfold applyAt at h
  split at h
  · refine modifyAt_container (fun w x hx => ?_) h
    obtain ⟨xs, rfl⟩ := editCollection_container hx
    rfl
  · rename_i hid hlast
    rw [List.getLast?_eq_none_iff] at hlast
    rcases he with hne | hne
    · exact absurd hlast hne
    · exact absurd hid hne
  · refine modifyAt_container (fun w x hx => ?_) h
    obtain ⟨fs, rfl⟩ := editField_container hx
    rfl

theorem Edit.apply_arr (he : e.Inner) {xs : List Json} {u : Json}
    (h : e.apply (.arr xs) = .ok u) : ∃ zs, u = .arr zs := by
  rw [apply_of_inner he] at h
  cases hks : e.keys with
  | nil =>
    have hid : e.change.identity ≠ none := he.resolve_left (fun hne => hne hks)
    obtain ⟨i, hi⟩ := Option.ne_none_iff_exists'.mp hid
    rw [hks, applyAt, hi] at h
    exact editCollection_container h
  | cons k ks =>
    have hdown : ∃ f ls, applyAt (k :: ks) e.change (.arr xs) = modifyAt f (k :: ls) (.arr xs)
        ∨ applyAt (k :: ks) e.change (.arr xs) = editField e.change k (.arr xs) := by
      by_cases hin : ks ≠ [] ∨ e.change.identity ≠ none
      · obtain ⟨f, ls, hup, -⟩ := applyAt_cons hin k (.arr xs)
        exact ⟨f, ls, Or.inl hup⟩
      · rw [not_or, not_not, not_not] at hin
        refine ⟨.ok, [], Or.inr ?_⟩
        simp [applyAt, hin.1, hin.2, modifyAt]
    obtain ⟨f, ls, hf | hf⟩ := hdown
    · rw [hks, hf, modifyAt] at h
      split at h
      · cases h
      · obtain ⟨x, -, hx⟩ := bind_eq_ok.mp h
        cases hx
        exact ⟨_, rfl⟩
    · rw [hks, hf] at h
      cases h

/-! ## Replays -/

def Replays (guard : Json → Prop) : List Edit → Json → Json → Prop
  | [], v, r => v = r
  | e :: es, v, r => guard v ∧ ∃ u, e.apply v = .ok u ∧ Replays guard es u r

/-- A replay with nothing to guard. -/
abbrev Reaches : List Edit → Json → Json → Prop := Replays (fun _ => True)

variable {guard : Json → Prop} {es : List Edit}

theorem Replays.reaches {v r : Json}
    (h : Replays guard es v r) : Reaches es v r := by
  induction es generalizing v with
  | nil => exact h
  | cons e es ih =>
    obtain ⟨-, u, hu, hr⟩ := h
    exact ⟨trivial, u, hu, ih hr⟩

theorem replays_append {es fs : List Edit} {v r : Json} :
    Replays guard (es ++ fs) v r ↔ ∃ u, Replays guard es v u ∧ Replays guard fs u r := by
  induction es generalizing v with
  | nil => simp [Replays]
  | cons e es ih =>
    simp only [List.cons_append, Replays, ih]
    constructor
    · rintro ⟨hg, u, hu, w, hw, hr⟩
      exact ⟨w, ⟨hg, u, hu, hw⟩, hr⟩
    · rintro ⟨w, ⟨hg, u, hu, hw⟩, hr⟩
      exact ⟨hg, u, hu, w, hw, hr⟩

theorem replays_single {v r : Json} :
    Replays guard [e] v r ↔ guard v ∧ e.apply v = .ok r := by
  simp [Replays]

theorem reaches_arr (hes : ∀ e ∈ es, e.Inner) {xs : List Json} {r : Json}
    (h : Reaches es (.arr xs) r) : ∃ zs, r = .arr zs := by
  induction es generalizing xs with
  | nil => exact ⟨xs, h.symm⟩
  | cons e es ih =>
    obtain ⟨-, u, hu, hr⟩ := h
    obtain ⟨zs, rfl⟩ := Edit.apply_arr (hes e (by simp)) hu
    exact ih (fun x hx => hes x (by simp [hx])) hr

/-- Edits inside a container, or one edit. On these a guard that looks at strings only needs to
hold at the start. -/
def Steady (es : List Edit) (v : Json) : Prop :=
  (∃ e, es = [e]) ∨ (asStr v = none ∧ ∀ e ∈ es, e.Inner)

theorem replays_of_steady (hguard : ∀ u w, asStr u = asStr w → guard u → guard w) {v r : Json}
    (hes : Steady es v) : Replays guard es v r ↔ (es ≠ [] → guard v) ∧ Reaches es v r := by
  rcases hes with ⟨e, rfl⟩ | ⟨hv, hin⟩
  · simp [Reaches, replays_single]
  · induction es generalizing v with
    | nil => simp [Reaches, Replays]
    | cons e es ih =>
      simp only [Reaches, Replays, true_and]
      constructor
      · rintro ⟨hg, u, hu, hr⟩
        have hu' : asStr u = none := Edit.asStr_apply (hin e (by simp)) hu
        have := (ih hu' (fun x hx => hin x (by simp [hx]))).mp hr
        exact ⟨fun _ => hg, u, hu, this.2⟩
      · rintro ⟨hg, u, hu, hr⟩
        have hu' : asStr u = none := Edit.asStr_apply (hin e (by simp)) hu
        have hgv : guard v := hg (by simp)
        have hgu : guard u := hguard v u (by rw [hv, hu']) hgv
        exact ⟨hgv, u, hu, (ih hu' (fun x hx => hin x (by simp [hx]))).mpr ⟨fun _ => hgu, hr⟩⟩

/-! ## Into an object -/

theorem replays_under_obj
    (hes : ∀ e ∈ es, e.WellPlaced) {h : List (Str × Json)} (hs : Dict.Sorted h) {k : Str}
    {v : Json} (hk : Dict.get? h k = some v) {r : Json} :
    Replays guard (es.map (Edit.under k)) (.obj h) r
      ↔ ∃ u, Replays (fun u => guard (.obj (Dict.insert k u h))) es v u ∧ r = .obj (Dict.insert k u h) := by
  induction es generalizing h v with
  | nil => simp [Replays, Dict.insert_of_get? hs hk, eq_comm]
  | cons e es ih =>
    have hself : Dict.insert k v h = h := Dict.insert_of_get? hs hk
    simp only [List.map_cons, Replays, hself, under_apply_obj (hes e (by simp)) hk]
    constructor
    · rintro ⟨hg, s, ⟨u, hu, rfl⟩, hr⟩
      obtain ⟨w, hw, rfl⟩ := (ih (fun x hx => hes x (by simp [hx])) (hs.insert k u)
        (Dict.get?_insert_self h k u)).mp hr
      simp only [Dict.insert_insert h hs] at hw ⊢
      exact ⟨w, ⟨hg, u, hu, hw⟩, rfl⟩
    · rintro ⟨w, ⟨hg, u, hu, hw⟩, rfl⟩
      refine ⟨hg, _, ⟨u, hu, rfl⟩, ?_⟩
      refine (ih (fun x hx => hes x (by simp [hx])) (hs.insert k u)
        (Dict.get?_insert_self h k u)).mpr ⟨w, ?_, ?_⟩
      · simpa only [Dict.insert_insert h hs] using hw
      · rw [Dict.insert_insert h hs]

/-! ## Into an array -/

section

variable {L : List Str} {cur : Str → Json} {i : Str}

theorem find?_identity (hL : L.Nodup) (hcur : ∀ j ∈ L, j ≠ i → identity (cur j) = some j)
    (hi : i ∈ L) (hid : identity (cur i) = some i) :
    (L.map cur).find? (fun item => identity item = some i) = some (cur i)
      ∧ (L.map cur).findIdx (fun item => identity item = some i) = L.idxOf i := by
  induction L with
  | nil => cases hi
  | cons j L ih =>
    rw [List.nodup_cons] at hL
    by_cases hji : j = i
    · subst hji
      simp [hid, List.findIdx_cons]
    · have hj : identity (cur j) = some j := hcur j (by simp) hji
      have hiL : i ∈ L := by
        rcases List.mem_cons.mp hi with h | h
        · exact absurd h.symm hji
        · exact h
      obtain ⟨h1, h2⟩ := ih hL.2 (fun q hq => hcur q (by simp [hq])) hiL
      have hne : ¬ identity (cur j) = some i := by
        rw [hj]
        simpa using hji
      constructor
      · rw [List.map_cons, List.find?_cons_of_neg (by simpa using hne), h1]
      · rw [List.map_cons, List.findIdx_cons, h2, List.idxOf_cons_ne L hji]
        simp [hne]

theorem find?_identity_none (hcur : ∀ j ∈ L, j ≠ i → identity (cur j) = some j)
    (hid : identity (cur i) ≠ some i) :
    (L.map cur).find? (fun item => identity item = some i) = none := by
  rw [List.find?_eq_none]
  intro x hx
  obtain ⟨j, hj, rfl⟩ := List.mem_map.mp hx
  by_cases hji : j = i
  · subst hji
    simpa using hid
  · rw [hcur j hj hji]
    simpa using hji

theorem set_idxOf_map (hL : L.Nodup) (u : Json) :
    (L.map cur).set (L.idxOf i) u = L.map (Function.update cur i u) := by
  induction L with
  | nil => rfl
  | cons j L ih =>
    rw [List.nodup_cons] at hL
    by_cases hji : j = i
    · subst hji
      rw [List.idxOf_cons_self, List.map_cons, List.set_cons_zero, List.map_cons, Function.update_self]
      congr 1
      refine (List.map_congr_left fun q hq => ?_).symm
      have hne : q ≠ j := by
        rintro rfl
        exact hL.1 hq
      rw [Function.update_of_ne hne]
    · rw [List.idxOf_cons_ne L hji, List.map_cons, List.set_cons_succ, ih hL.2, List.map_cons,
        Function.update_of_ne hji]

theorem under_apply_arr (he : e.Inner) (hL : L.Nodup)
    (hcur : ∀ j ∈ L, j ≠ i → identity (cur j) = some j) (hi : i ∈ L) (r : Json) :
    (e.under i).apply (.arr (L.map cur)) = .ok r ↔ identity (cur i) = some i
        ∧ ∃ u, e.apply (cur i) = .ok u ∧ r = .arr (L.map (Function.update cur i u)) := by
  obtain ⟨f, ls, hup, hdown⟩ := applyAt_cons he i (.arr (L.map cur))
  rw [Edit.apply_of_inner (e.inner_under i), Edit.apply_of_inner he]
  show applyAt (i :: e.keys) e.change (.arr (L.map cur)) = .ok r ↔ _
  rw [hup, hdown, modifyAt]
  by_cases hid : identity (cur i) = some i
  · obtain ⟨h1, h2⟩ := find?_identity hL hcur hi hid
    rw [h1]
    simp only [h2]
    show (modifyAt f ls (cur i) >>= fun u => .ok (.arr ((L.map cur).set (L.idxOf i) u))) = .ok r ↔ _
    rw [bind_eq_ok]
    simp only [Except.ok.injEq, set_idxOf_map hL, hid, true_and, eq_comm]
  · rw [find?_identity_none hcur hid]
    simp [hid]

theorem reaches_under_arr (hes : ∀ e ∈ es, e.Inner) (hL : L.Nodup)
    (hcur : ∀ j ∈ L, j ≠ i → identity (cur j) = some j) (hi : i ∈ L) {r : Json} :
    Reaches (es.map (Edit.under i)) (.arr (L.map cur)) r
      ↔ ∃ u, Replays (fun v => identity v = some i) es (cur i) u
          ∧ r = .arr (L.map (Function.update cur i u)) := by
  induction es generalizing cur with
  | nil => simp [Reaches, Replays, eq_comm]
  | cons e es ih =>
    have hcur' : ∀ u, ∀ j ∈ L, j ≠ i → identity (Function.update cur i u j) = some j := by
      intro u j hj hji
      rw [Function.update_of_ne hji]
      exact hcur j hj hji
    have hrest : ∀ x ∈ es, x.Inner := fun x hx => hes x (by simp [hx])
    simp only [Reaches, List.map_cons, Replays, true_and, under_apply_arr (hes e (by simp)) hL hcur hi]
    constructor
    · rintro ⟨s, ⟨hid, u, hu, rfl⟩, hr⟩
      obtain ⟨w, hw, rfl⟩ := (ih hrest (hcur' u)).mp hr
      rw [Function.update_self] at hw
      rw [Function.update_idem]
      exact ⟨w, ⟨hid, u, hu, hw⟩, rfl⟩
    · rintro ⟨w, ⟨hid, u, hu, hw⟩, rfl⟩
      refine ⟨_, ⟨hid, u, hu, rfl⟩, (ih hrest (hcur' u)).mpr ⟨w, ?_, ?_⟩⟩
      · rwa [Function.update_self]
      · rw [Function.update_idem]

end

end Ai00.Revision
