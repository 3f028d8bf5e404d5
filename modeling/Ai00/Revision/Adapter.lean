import Ai00.Basic.Reference
import Ai00.Revision.RoundTrip

/-! # Round trips of `JsonDocumentAdapter`

`roundTrips_iff` lifts `replaces_iff_replayable` to the adapter: a diff that is computed, stored
and replayed gives back the proposed document exactly on replayable pairs. Two things are added
here. The changes go through the checks of `Change` and their paths through text; and a change
of the root's field with the empty name has the path of the root, so it is never made where it
belongs (`ne_of_emptyKey`).
-/

namespace Ai00.Revision

open Json

variable (pf : Platform)

/-- `apply_changeset(base, diff(base, proposed))` succeeds, with the canonical bytes of the
proposed document. -/
def RoundTrips (base proposed : Json) : Prop :=
  ∃ changes result target,
    JsonDocumentAdapter.diff pf base proposed = .ok changes
      ∧ JsonDocumentAdapter.applyChangeset pf base changes = .ok result
      ∧ JsonDocumentAdapter.normalize pf proposed = .ok target
      ∧ canonicalJsonBytes pf result = canonicalJsonBytes pf target

/-! ## Normalized documents -/

theorem normalize_ok {v w : Json} (h : JsonDocumentAdapter.normalize pf v = .ok w) :
    Normal (Nfc pf) w ∧ ∃ f, w = .obj f := by
  cases v with
  | obj fs =>
    have hn : normalizeJson pf (.obj fs) = .ok w := h
    refine ⟨normal_of_normalizeJson pf hn, ?_⟩
    rw [normalizeJson, bind_eq_ok] at hn
    obtain ⟨gs, -, hg⟩ := hn
    cases hg
    exact ⟨gs, rfl⟩
  | _ => cases h

theorem normalize_of_normal {f : List (Str × Json)} (h : Normal (Nfc pf) (.obj f)) :
    JsonDocumentAdapter.normalize pf (.obj f) = .ok (.obj f) := normalizeJson_of_normal pf h

/-! ## The checks of `Change` -/

theorem validate_eq_ok {c d : Change} :
    c.validate = .ok d ↔ d = c ∧ isTypeName c.changeType.text = true ∧ isPath c.path = true
      ∧ (c.identity.getD []).length ≤ 256 := by
  unfold Change.validate
  by_cases h1 : isTypeName c.changeType.text = true
  · by_cases h2 : isPath c.path = true
    · by_cases h3 : (c.identity.getD []).length ≤ 256
      · simp [h1, h2, h3, not_lt.mpr h3, eq_comm]
      · simp [h1, h2, h3, not_le.mp h3]
    · simp [h1, h2]
  · simp [h1]

theorem mapM_validate_eq_ok {cs ds : List Change} : cs.mapM Change.validate = .ok ds
      ↔ ds = cs ∧ ∀ c ∈ cs, isTypeName c.changeType.text = true ∧ isPath c.path = true
          ∧ (c.identity.getD []).length ≤ 256 := by
  induction cs generalizing ds with
  | nil =>
    simp only [List.mapM_nil, List.not_mem_nil, false_implies, implies_true, and_true]
    show Except.ok [] = .ok ds ↔ _
    rw [Except.ok.injEq, eq_comm]
  | cons c cs ih =>
    simp only [List.mapM_cons, bind_eq_ok, List.forall_mem_cons]
    constructor
    · rintro ⟨d, hd, es, hes, heq⟩
      obtain ⟨rfl, hc⟩ := validate_eq_ok.mp hd
      obtain ⟨rfl, hcs⟩ := ih.mp hes
      cases heq
      exact ⟨rfl, hc, hcs⟩
    · rintro ⟨rfl, hc, hcs⟩
      exact ⟨c, validate_eq_ok.mpr ⟨rfl, hc⟩, cs, ih.mpr ⟨rfl, hcs⟩, rfl⟩

/-! ## What `_diff` records -/

variable {text : Str → Prop}

theorem text_of_identity {v : Json} {i : Str} (hv : Normal text v) (h : identity v = some i) :
    text i := by
  obtain ⟨f, rfl⟩ := exists_obj_of_identity h
  obtain ⟨field, -, hfield⟩ := List.exists_of_findSome?_eq_some h
  rw [Option.filter_eq_some_iff] at hfield
  obtain ⟨w, hw, hstr⟩ := Option.bind_eq_some_iff.mp hfield.1
  cases w with
  | str s =>
    cases hstr
    exact hv.get? hw
  | _ => cases hstr

/-- A change of a known type, with a normal new value and normal keys. -/
structure Edit.WellFormed (text : Str → Prop) (e : Edit) : Prop where
  typeName : isTypeName e.change.changeType.text = true
  after : Normal text e.change.after
  keys : ∀ k ∈ e.keys, text k

variable {k : Str}

variable {e : Edit}

theorem Edit.WellFormed.under (h : e.WellFormed text) (hk : text k) :
    (e.under k).WellFormed text :=
  ⟨h.typeName, h.after, List.forall_mem_cons.mpr ⟨hk, h.keys⟩⟩

theorem wellFormed_edits (n : Nat) {b a : Json} (hb : Normal text b) (ha : Normal text a) :
    ∀ e ∈ edits n b a, e.WellFormed text := by
  have hnull : Normal text .null := trivial
  induction n generalizing b a with
  | zero => intro e he; cases he
  | succ n ih =>
    cases heq : pyEq b a with
    | true =>
      rw [edits_of_pyEq heq]
      intro e he
      cases he
    | false =>
      cases hcmp : comparable b a with
      | false =>
        rw [edits_replaced heq hcmp, List.forall_mem_singleton]
        exact ⟨rfl, ha, by simp [replaceEdit]⟩
      | true =>
        rcases comparable_cases hcmp with
          ⟨f, g, rfl, rfl⟩ | ⟨xs, ys, is, js, rfl, rfl, hx, hy, his, hjs⟩
        · rw [edits_obj heq, List.forall_mem_flatMap]
          intro k hk
          have hkey : text k := by
            rcases Dict.mem_sortedUnion.mp hk with h | h
            · exact hb.key h
            · exact ha.key h
          cases hf : Dict.get? f k with
          | none =>
            cases hg : Dict.get? g k with
            | none => intro e he; cases he
            | some w =>
              rw [fieldEdits, List.forall_mem_singleton]
              exact ⟨rfl, ha.get? hg, by simpa [addField] using hkey⟩
          | some v =>
            cases hg : Dict.get? g k with
            | none =>
              rw [fieldEdits, List.forall_mem_singleton]
              exact ⟨rfl, hnull, by simpa [removeField] using hkey⟩
            | some w =>
              rw [fieldEdits, List.forall_mem_map]
              exact fun e he => (ih (hb.get? hf) (ha.get? hg) e he).under hkey
        · rw [edits_items heq hx hy his hjs, List.forall_mem_flatMap]
          intro i _
          cases hf : Dict.get? (is.zip xs) i with
          | none =>
            cases hg : Dict.get? (js.zip ys) i with
            | none => intro e he; cases he
            | some w =>
              have hw := normal_arr.mp ha w ((get?_zip_iff hy hjs).mp hg).1
              rw [itemEdits, List.forall_mem_singleton]
              exact ⟨rfl, hw, by simp [addItem]⟩
          | some v =>
            obtain ⟨hvx, hvi⟩ := (get?_zip_iff hx his).mp hf
            have hv := normal_arr.mp hb v hvx
            cases hg : Dict.get? (js.zip ys) i with
            | none =>
              rw [itemEdits, List.forall_mem_singleton]
              exact ⟨rfl, hnull, by simp [removeItem]⟩
            | some w =>
              have hw := normal_arr.mp ha w ((get?_zip_iff hy hjs).mp hg).1
              rw [itemEdits, List.forall_mem_append, List.forall_mem_map]
              refine ⟨fun e he => ?_, fun e he => (ih hv hw e he).under (text_of_identity hv hvi)⟩
              unfold moveEdit at he
              split_ifs at he
              · rw [List.mem_singleton.mp he]
                exact ⟨rfl, hnull, by simp [moveItem]⟩
              · cases he

theorem exists_keys_edits {n : Nat} {f g : List (Str × Json)} :
    ∀ e ∈ edits n (.obj f) (.obj g), ∃ k ks, e.keys = k :: ks := by
  intro e he
  cases n with
  | zero => cases he
  | succ n =>
    cases heq : pyEq (.obj f) (.obj g) with
    | true => rw [edits_of_pyEq heq] at he; cases he
    | false =>
      rw [edits_obj heq] at he
      obtain ⟨k, -, hk⟩ := List.mem_flatMap.mp he
      exact ⟨k, head_fieldEdits hk⟩

/-! ## Changes keep documents normal -/

variable {ks : List Str}

variable {f : Json → Except PyError Json}

theorem modifyAt_normal (hf : ∀ v u, Normal text v → f v = .ok u → Normal text u) {v u : Json}
    (hv : Normal text v) (h : modifyAt f ks v = .ok u) : Normal text u := by
  induction ks generalizing v u with
  | nil => exact hf v u hv h
  | cons k ks ih =>
    cases v with
    | obj fs =>
      rw [modifyAt] at h
      cases hk : Dict.get? fs k with
      | none => rw [hk] at h; cases h
      | some w =>
        rw [hk] at h
        obtain ⟨x, hx, heq⟩ := bind_eq_ok.mp h
        cases heq
        have hkey : text k := hv.key ((Dict.mem_keys_iff fs k).mpr ⟨w, hk⟩)
        exact hv.insert hkey (ih (hv.get? hk) hx)
    | arr xs =>
      rw [modifyAt] at h
      cases hk : xs.find? (fun item => identity item = some k) with
      | none => rw [hk] at h; cases h
      | some w =>
        rw [hk] at h
        obtain ⟨x, hx, heq⟩ := bind_eq_ok.mp h
        cases heq
        have hxs := normal_arr.mp hv
        refine normal_arr.mpr (fun y hy => ?_)
        rcases List.mem_or_eq_of_mem_set hy with hy | rfl
        · exact hxs y hy
        · exact ih (hxs w (List.mem_of_find?_eq_some hk)) hx
    | _ => cases h

theorem normal_pyInsert {n : Nat} {w : Json} {xs : List Json} (hw : Normal text w)
    (hxs : ∀ x ∈ xs, Normal text x) : Normal text (.arr (pyInsert n w xs)) := by
  refine normal_arr.mpr (fun y hy => ?_)
  rw [(pyInsert_perm n w xs).mem_iff, List.mem_cons] at hy
  rcases hy with rfl | hy
  · exact hw
  · exact hxs y hy

variable {c : Change}

theorem editCollection_normal (hc : Normal text c.after) {i : Str} {v u : Json}
    (hv : Normal text v) (h : editCollection c i v = .ok u) : Normal text u := by
  cases v with
  | arr xs =>
    have hxs := normal_arr.mp hv
    have hrest : ∀ m, ∀ x ∈ xs.eraseIdx m, Normal text x :=
      fun m x hx => hxs x (List.mem_of_mem_eraseIdx hx)
    simp only [editCollection] at h
    split at h
    · split_ifs at h
      cases h
      exact normal_pyInsert hc hxs
    · split_ifs at h
      cases h
      exact normal_arr.mpr (hrest _)
    · split at h
      · rename_i hfind _
        cases h
        exact normal_pyInsert (hxs _ (List.mem_of_find?_eq_some hfind)) (hrest _)
      · cases h
    · cases h
  | _ => cases h

theorem editField_normal (hc : Normal text c.after) (hk : text k)
    {v u : Json} (hv : Normal text v) (h : editField c k v = .ok u) : Normal text u := by
  cases v with
  | obj fs =>
    simp only [editField] at h
    split at h
    · split_ifs at h
      cases h
      exact hv.insert hk hc
    · split_ifs at h
      cases h
      exact hv.erase k
    · split_ifs at h
      cases h
      exact hv.insert hk hc
    · cases h
  | _ => cases h

variable {u : Json}

theorem replaceRoot_eq_ok (h : replaceRoot c = .ok u) :
    c.changeType = .replace ∧ u = c.after ∧ ∃ fs, c.after = .obj fs := by
  unfold replaceRoot at h
  split at h
  · rename_i hty hafter
    cases h
    exact ⟨hty, hafter.symm, _, hafter⟩
  · cases h

theorem applyAt_normal (hc : Normal text c.after)
    (hks : ∀ k ∈ ks, text k) {v u : Json} (hv : Normal text v) (h : applyAt ks c v = .ok u) :
    Normal text u := by
  unfold applyAt at h
  split at h
  · exact modifyAt_normal (fun w x hw hx => editCollection_normal hc hw hx) hv h
  · rw [(replaceRoot_eq_ok h).2.1]
    exact hc
  · rename_i k _ hlast
    have hk : text k := hks k (List.mem_of_getLast? hlast)
    exact modifyAt_normal (fun w x hw hx => editField_normal hc hk hw hx) hv h

/-! ## Changes made on a document -/

/-- A change whose path is read back is the edit it was made of. -/
theorem applyChange_at (hk : e.keys = k :: ks)
    (hne : e.keys ≠ [[]]) (d : Json) : applyChange d (e.at []) = e.apply d := by
  have hkeys : e.keys ≠ [] := by simp [hk]
  have hpath : (e.at []).path = renderPath e.keys := by
    simp [Edit.at, renderPath_ne_nil hkeys]
  rw [applyChange, hpath, segments_renderPath hkeys hne, Edit.apply_of_inner (Or.inl hkeys)]
  rfl

/-- A change of the field with the empty name is made on the root. -/
theorem applyChange_emptyKey (hk : e.keys = [[]]) (d : Json) :
    applyChange d (e.at []) = applyAt [] e.change d := by
  have hpath : (e.at []).path = ['/'] := by
    simp [Edit.at, hk, renderPath_cons, escape, replaceChar]
  rw [applyChange, hpath, segments_root]
  rfl

theorem modifyAt_obj {h : List (Str × Json)} (hu : modifyAt f (k :: ks) (.obj h) = .ok u) :
    ∃ x, u = .obj (Dict.insert k x h) := by
  rw [modifyAt] at hu
  cases hk : Dict.get? h k with
  | none => rw [hk] at hu; cases hu
  | some w =>
    rw [hk] at hu
    obtain ⟨x, -, heq⟩ := bind_eq_ok.mp hu
    cases heq
    exact ⟨x, rfl⟩

theorem editField_obj {h : List (Str × Json)}
    (hu : editField c k (.obj h) = .ok u) :
    u = .obj (Dict.erase k h) ∨ u = .obj (Dict.insert k c.after h) := by
  simp only [editField] at hu
  split at hu
  · split_ifs at hu
    cases hu
    exact Or.inr rfl
  · split_ifs at hu
    cases hu
    exact Or.inl rfl
  · split_ifs at hu
    cases hu
    exact Or.inr rfl
  · cases hu

/-- A change below the field `k` leaves an object, with the other fields as they were. -/
theorem applyAt_obj {h : List (Str × Json)}
    (hu : applyAt (k :: ks) c (.obj h) = .ok u) :
    ∃ h', u = .obj h' ∧ ∀ q, q ≠ k → Dict.get? h' q = Dict.get? h q := by
  have hinsert : ∀ x, ∀ q, q ≠ k → Dict.get? (Dict.insert k x h) q = Dict.get? h q :=
    fun x q hq => Dict.get?_insert_of_ne h x hq
  by_cases hin : ks ≠ [] ∨ c.identity ≠ none
  · obtain ⟨f, ls, hup, -⟩ := applyAt_cons hin k (.obj h)
    obtain ⟨x, rfl⟩ := modifyAt_obj (hup ▸ hu)
    exact ⟨_, rfl, hinsert x⟩
  · rw [not_or, not_not, not_not] at hin
    have hfield : editField c k (.obj h) = .ok u := by
      simpa [applyAt, hin.1, hin.2, modifyAt] using hu
    rcases editField_obj hfield with rfl | rfl
    · exact ⟨_, rfl, fun q hq => Dict.get?_erase_of_ne h hq⟩
    · exact ⟨_, rfl, hinsert _⟩

theorem applyAt_root {h : List (Str × Json)}
    (hu : applyAt [] c (.obj h) = .ok u) :
    c.identity = none ∧ c.changeType = .replace ∧ u = c.after ∧ ∃ fs, c.after = .obj fs := by
  unfold applyAt at hu
  split at hu
  · cases hu
  · rename_i hid _
    exact ⟨hid, replaceRoot_eq_ok hu⟩
  · rename_i k _ hlast
    cases hlast

theorem applyChange_edit_obj (hk : e.keys = k :: ks)
    {h : List (Str × Json)} (hu : applyChange (.obj h) (e.at []) = .ok u) :
    ∃ h', u = .obj h' := by
  by_cases hne : e.keys = [[]]
  · rw [applyChange_emptyKey hne] at hu
    obtain ⟨-, -, rfl, fs, hfs⟩ := applyAt_root hu
    exact ⟨fs, hfs⟩
  · rw [applyChange_at hk hne, Edit.apply_of_inner (Or.inl (by simp [hk])), hk] at hu
    obtain ⟨h', rfl, -⟩ := applyAt_obj hu
    exact ⟨h', rfl⟩

section

variable {es : List Edit} {h : List (Str × Json)} {d : Json}

/-- Every change of a loop that gets through is made on some object. -/
theorem exists_step_of_foldlM (hes : ∀ e ∈ es, ∃ k ks, e.keys = k :: ks)
    (hd : (es.map (Edit.at [])).foldlM applyChange (.obj h) = .ok d) :
    (∃ h', d = .obj h') ∧ ∀ e ∈ es, ∃ h' u, applyChange (.obj h') (e.at []) = .ok u := by
  induction es generalizing h with
  | nil =>
    cases hd
    exact ⟨⟨h, rfl⟩, by simp⟩
  | cons e es ih =>
    rw [List.map_cons, List.foldlM_cons, bind_eq_ok] at hd
    obtain ⟨u, hu, hd⟩ := hd
    obtain ⟨k, ks, hk⟩ := hes e (by simp)
    obtain ⟨h', rfl⟩ := applyChange_edit_obj hk hu
    obtain ⟨hobj, hall⟩ := ih (fun x hx => hes x (by simp [hx])) hd
    exact ⟨hobj, List.forall_mem_cons.mpr ⟨⟨h, _, hu⟩, hall⟩⟩

/-- Changes below other fields leave the field with the empty name alone. -/
theorem get?_nil_foldlM (hes : ∀ e ∈ es, ∃ k ks, e.keys = k :: ks ∧ k ≠ [])
    (hd : (es.map (Edit.at [])).foldlM applyChange (.obj h) = .ok d) :
    ∃ h', d = .obj h' ∧ Dict.get? h' [] = Dict.get? h [] := by
  induction es generalizing h with
  | nil =>
    cases hd
    exact ⟨h, rfl, rfl⟩
  | cons e es ih =>
    rw [List.map_cons, List.foldlM_cons, bind_eq_ok] at hd
    obtain ⟨u, hu, hd⟩ := hd
    obtain ⟨k, ks, hk, hkne⟩ := hes e (by simp)
    have hne : e.keys ≠ [[]] := by
      rw [hk]
      simp [hkne]
    rw [applyChange_at hk hne, Edit.apply_of_inner (Or.inl (by simp [hk])), hk] at hu
    obtain ⟨h', rfl, hkeep⟩ := applyAt_obj hu
    obtain ⟨h'', rfl, heq⟩ := ih (fun x hx => hes x (by simp [hx])) hd
    exact ⟨h'', rfl, heq.trans (hkeep [] (Ne.symm hkne))⟩

end

/-! ## The field with the empty name -/

theorem sortedUnion_nil_mem {xs ys : List Str} (h : [] ∈ Dict.sortedUnion xs ys) :
    ∃ rest, Dict.sortedUnion xs ys = [] :: rest ∧ ∀ k ∈ rest, k ≠ [] := by
  have hsorted := Dict.sortedUnion_pairwise xs ys
  cases hL : Dict.sortedUnion xs ys with
  | nil => rw [hL] at h; cases h
  | cons k rest =>
    rw [hL, List.pairwise_cons] at hsorted
    rw [hL] at h
    have hk : k = [] := by
      rcases List.mem_cons.mp h with heq | hin
      · exact heq.symm
      · exact absurd (hsorted.1 [] hin) (List.not_lt_nil k)
    subst hk
    refine ⟨rest, rfl, fun q hq => ?_⟩
    rintro rfl
    exact lt_irrefl _ (hsorted.1 [] hq)

/-- **A change of the root's field with the empty name is never made there.** It is refused, or
it replaces the whole document by the new value of the field, which is not the proposed
document: that one is deeper. -/
theorem ne_of_emptyKey {n : Nat} {f g : List (Str × Json)} {d : Json}
    (hempty : ∃ e ∈ edits n (.obj f) (.obj g), e.keys = [[]])
    (hd : ((edits n (.obj f) (.obj g)).map (Edit.at [])).foldlM applyChange (.obj f) = .ok d) :
    d ≠ .obj g := by
  obtain ⟨e, he, hkeys⟩ := hempty
  obtain ⟨-, hsteps⟩ := exists_step_of_foldlM exists_keys_edits hd
  obtain ⟨h', u, hu⟩ := hsteps e he
  rw [applyChange_emptyKey hkeys] at hu
  obtain ⟨hid, htype, -, gw, hafter⟩ := applyAt_root hu
  cases n with
  | zero => cases he
  | succ n =>
    cases heq : pyEq (.obj f) (.obj g) with
    | true => rw [edits_of_pyEq heq] at he; cases he
    | false =>
      rw [edits_obj heq] at he hd
      obtain ⟨k, hk, hek⟩ := List.mem_flatMap.mp he
      obtain ⟨ks, hks⟩ := head_fieldEdits hek
      have hk0 : k = [] := by
        rw [hkeys, List.cons.injEq] at hks
        exact hks.1.symm
      subst hk0
      obtain ⟨rest, hrest, hother⟩ := sortedUnion_nil_mem hk
      cases hf : Dict.get? f [] with
      | none =>
        rw [hf] at hek
        cases hg : Dict.get? g [] with
        | none => rw [hg] at hek; cases hek
        | some w =>
          rw [hg, fieldEdits, List.mem_singleton] at hek
          rw [hek] at htype
          cases htype
      | some v =>
        rw [hf] at hek
        cases hg : Dict.get? g [] with
        | none =>
          rw [hg, fieldEdits, List.mem_singleton] at hek
          rw [hek] at htype
          cases htype
        | some w =>
          rw [hg, fieldEdits, List.mem_map] at hek
          obtain ⟨x, hx, rfl⟩ := hek
          have hxkeys : x.keys = [] := by simpa using hkeys
          have hxinner : ¬ x.Inner := by
            rintro (h | h)
            · exact h hxkeys
            · exact h hid
          have hone : edits n v w = [replaceEdit v w] := by
            rcases edits_shape n v w with h | h | ⟨-, h⟩
            · exact h
            · rw [h] at hx; cases hx
            · exact absurd (h x hx) hxinner
          have hxe : x = replaceEdit v w := by
            rw [hone] at hx
            exact List.mem_singleton.mp hx
          have hw : w = .obj gw := by
            rw [hxe] at hafter
            exact hafter
          rw [hrest, List.flatMap_cons, hf, hg, fieldEdits, hone, List.map_append,
            List.foldlM_append, bind_eq_ok] at hd
          obtain ⟨s, hs, hd⟩ := hd
          have hsw : s = .obj gw := by
            have happly : applyChange (.obj f) ((replaceEdit v w).under [] |>.at [])
                = .ok s := by
              simpa using hs
            rw [applyChange_emptyKey (by rfl)] at happly
            obtain ⟨-, -, hsa, -⟩ := applyAt_root happly
            rw [hsa, ← hw]
            rfl
          subst hsw
          have hkeep : ∀ e ∈ rest.flatMap fun k =>
              fieldEdits (edits n) k (Dict.get? f k) (Dict.get? g k),
              ∃ k ks, e.keys = k :: ks ∧ k ≠ [] := by
            intro e he
            obtain ⟨k, hk, hek⟩ := List.mem_flatMap.mp he
            obtain ⟨ks, hks⟩ := head_fieldEdits hek
            exact ⟨k, ks, hks, hother k hk⟩
          obtain ⟨h'', rfl, hget⟩ := get?_nil_foldlM hkeep hd
          -- the final field would have to contain itself
          rintro hdg
          cases hdg
          rw [hg] at hget
          have hdepth := depth_lt_of_mem_obj (Dict.mem_of_get? hget.symm)
          rw [hw] at hdepth
          exact lt_irrefl _ hdepth

/-! ## The round trip -/

/-- The checks of `Change` on a recorded change, in terms of its keys. -/
theorem checked_iff_carried (hk : e.keys = k :: ks)
    (hname : isTypeName e.change.changeType.text = true) (hne : e.keys ≠ [[]]) :
    (isTypeName (e.at []).changeType.text = true ∧ isPath (e.at []).path = true
        ∧ ((e.at []).identity.getD []).length ≤ 256)
      ↔ e.Carried [] := by
  have hkeys : e.keys ≠ [] := by simp [hk]
  have hpath : (e.at []).path = renderPath e.keys := by
    simp [Edit.at, renderPath_ne_nil hkeys]
  have hlen : ((e.at []).identity.getD []).length ≤ 256
      ↔ ∀ i, e.change.identity = some i → i.length ≤ 256 := by
    show (e.change.identity.getD []).length ≤ 256 ↔ _
    cases e.change.identity <;> simp
  rw [hpath, isPath_renderPath hkeys, hlen]
  unfold Edit.Carried Recordable
  rw [List.nil_append]
  constructor
  · rintro ⟨-, hpath, hlen⟩
    exact ⟨⟨hne, hpath⟩, hlen⟩
  · rintro ⟨⟨-, hpath⟩, hlen⟩
    exact ⟨hname, hpath, hlen⟩

theorem foldlM_at {es : List Edit} (hkeys : ∀ e ∈ es, ∃ k ks, e.keys = k :: ks)
    (hne : ∀ e ∈ es, e.keys ≠ [[]]) {v d : Json} :
    (es.map (Edit.at [])).foldlM applyChange v = .ok d ↔ Reaches es v d := by
  induction es generalizing v with
  | nil =>
    show Except.ok v = .ok d ↔ v = d
    rw [Except.ok.injEq]
  | cons e es ih =>
    obtain ⟨k, ks, hk⟩ := hkeys e (by simp)
    rw [List.map_cons, List.foldlM_cons, bind_eq_ok, applyChange_at hk (hne e (by simp))]
    simp only [Reaches, Replays, true_and]
    exact exists_congr fun u => and_congr_right fun _ =>
      ih (fun x hx => hkeys x (by simp [hx])) (fun x hx => hne x (by simp [hx]))

/-- A replayed document is normal, whatever the changes did. -/
theorem normal_foldlM {es : List Edit} (hkeys : ∀ e ∈ es, ∃ k ks, e.keys = k :: ks)
    (hes : ∀ e ∈ es, e.WellFormed text) {v d : Json} (hv : Normal text v)
    (hd : (es.map (Edit.at [])).foldlM applyChange v = .ok d) : Normal text d := by
  induction es generalizing v with
  | nil =>
    cases hd
    exact hv
  | cons e es ih =>
    rw [List.map_cons, List.foldlM_cons, bind_eq_ok] at hd
    obtain ⟨u, hu, hd⟩ := hd
    have hwf := hes e (by simp)
    obtain ⟨k, ks, hk⟩ := hkeys e (by simp)
    have hun : Normal text u := by
      by_cases hne : e.keys = [[]]
      · rw [applyChange_emptyKey hne] at hu
        exact applyAt_normal hwf.after (by simp) hv hu
      · rw [applyChange_at hk hne, Edit.apply_of_inner (Or.inl (by simp [hk]))] at hu
        exact applyAt_normal hwf.after hwf.keys hv hu
    exact ih (fun x hx => hkeys x (by simp [hx])) (fun x hx => hes x (by simp [hx])) hun hd

theorem diff_eq_ok {base proposed b a : Json}
    (hb : JsonDocumentAdapter.normalize pf base = .ok b)
    (ha : JsonDocumentAdapter.normalize pf proposed = .ok a) {changes : List Change} :
    JsonDocumentAdapter.diff pf base proposed = .ok changes ↔ changes = (edits (b.depth + 1) b a).map (Edit.at [])
        ∧ ∀ e ∈ edits (b.depth + 1) b a, isTypeName (e.at []).changeType.text = true
          ∧ isPath (e.at []).path = true ∧ ((e.at []).identity.getD []).length ≤ 256 := by
  rw [JsonDocumentAdapter.diff, hb, ha]
  show (diffAux (b.depth + 1) b a []).mapM Change.validate = .ok changes ↔ _
  rw [mapM_validate_eq_ok, diffAux_eq_edits, List.forall_mem_map]

theorem applyChangeset_eq_ok {base b : Json}
    (hb : JsonDocumentAdapter.normalize pf base = .ok b) {changes : List Change} {r : Json} :
    JsonDocumentAdapter.applyChangeset pf base changes = .ok r ↔ ∃ d, changes.foldlM applyChange b = .ok d
          ∧ JsonDocumentAdapter.normalize pf d = .ok r := by
  rw [JsonDocumentAdapter.applyChangeset, hb]
  show (changes.foldlM applyChange b >>= fun d => JsonDocumentAdapter.normalize pf d) = .ok r ↔ _
  rw [bind_eq_ok]

/-- **A diff can be computed and replayed to the proposed document exactly on replayable pairs
of documents.** -/
theorem roundTrips_iff {base proposed b a : Json}
    (hb : JsonDocumentAdapter.normalize pf base = .ok b)
    (ha : JsonDocumentAdapter.normalize pf proposed = .ok a) :
    RoundTrips pf base proposed ↔ Replayable [] b a := by
  obtain ⟨hbn, f, rfl⟩ := normalize_ok pf hb
  obtain ⟨han, g, rfl⟩ := normalize_ok pf ha
  have hdepth : (Json.obj f).depth < (Json.obj f).depth + 1 := Nat.lt_succ_self _
  have hkeys := @exists_keys_edits ((Json.obj f).depth + 1) f g
  have hwf := wellFormed_edits ((Json.obj f).depth + 1) hbn han
  rw [← replaces_iff_replayable hdepth hbn han]
  constructor
  · rintro ⟨changes, result, target, hdiff, happly, htarget, hbytes⟩
    obtain ⟨rfl, hchecked⟩ := (diff_eq_ok pf hb ha).mp hdiff
    obtain ⟨d, hd, hresult⟩ := (applyChangeset_eq_ok pf hb).mp happly
    have hdn : Normal (Nfc pf) d := normal_foldlM hkeys hwf hbn hd
    obtain ⟨⟨h, rfl⟩, -⟩ := exists_step_of_foldlM hkeys hd
    rw [normalize_of_normal pf hdn, Except.ok.injEq] at hresult
    rw [ha, Except.ok.injEq] at htarget
    subst hresult htarget
    have hda : Json.obj h = .obj g := (canonicalJsonBytes_inj pf hdn han).mp hbytes
    have hne : ∀ e ∈ edits ((Json.obj f).depth + 1) (.obj f) (.obj g), e.keys ≠ [[]] := by
      intro e he hempty
      exact ne_of_emptyKey ⟨e, he, hempty⟩ hd hda
    refine ⟨fun e he => ?_, ?_⟩
    · obtain ⟨k, ks, hk⟩ := hkeys e he
      exact (checked_iff_carried hk (hwf e he).typeName (hne e he)).mp (hchecked e he)
    · rw [← hda] at hne ⊢
      rw [← hda] at hd hkeys
      exact (foldlM_at hkeys hne).mp hd
  · rintro ⟨hcarried, hreach⟩
    have hne : ∀ e ∈ edits ((Json.obj f).depth + 1) (.obj f) (.obj g), e.keys ≠ [[]] :=
      fun e he => (hcarried e he).1.1
    have hd := (foldlM_at hkeys hne).mpr hreach
    refine ⟨_, .obj g, .obj g, (diff_eq_ok pf hb ha).mpr ⟨rfl, fun e he => ?_⟩,
      (applyChangeset_eq_ok pf hb).mpr ⟨_, hd, normalize_of_normal pf han⟩, ha, rfl⟩
    obtain ⟨k, ks, hk⟩ := hkeys e he
    exact (checked_iff_carried hk (hwf e he).typeName (hne e he)).mpr (hcarried e he)

/-! ## Two documents -/

/-- `{"steps": [{"id": i}, ...]}`. -/
def stepsDocument (ids : List String) : Json :=
  .obj [("steps".toList, .arr (ids.map fun i => .obj [("id".toList, .str i.toList)]))]

/-- Three steps added in decreasing order come out in another order. -/
theorem not_roundTrips_decreasing :
    ¬ RoundTrips Platform.reference (stepsDocument []) (stepsDocument ["c", "b", "a"]) := by
  rintro ⟨changes, result, target, hdiff, happly, htarget, hbytes⟩
  have hresult : (JsonDocumentAdapter.diff Platform.reference (stepsDocument [])
      (stepsDocument ["c", "b", "a"]) >>= fun cs =>
        JsonDocumentAdapter.applyChangeset Platform.reference (stepsDocument []) cs)
      = .ok (stepsDocument ["c", "a", "b"]) := by decide
  have hproposed : JsonDocumentAdapter.normalize Platform.reference
      (stepsDocument ["c", "b", "a"]) = .ok (stepsDocument ["c", "b", "a"]) := by decide
  rw [hdiff] at hresult
  have hr : result = stepsDocument ["c", "a", "b"] := Except.ok.inj (happly.symm.trans hresult)
  have ht : target = stepsDocument ["c", "b", "a"] := Except.ok.inj (htarget.symm.trans hproposed)
  obtain ⟨d, -, hd⟩ := (applyChangeset_eq_ok Platform.reference
    (b := stepsDocument []) (by decide)).mp happly
  have heq := (canonicalJsonBytes_inj Platform.reference (normalize_ok _ hd).1
    (normalize_ok _ htarget).1).mp hbytes
  rw [hr, ht] at heq
  exact absurd heq (by decide)

/-- `{"n": n}`. -/
def numberDocument (n : Int) : Json := .obj [("n".toList, .int n)]

theorem roundTrips_numberDocument :
    RoundTrips Platform.reference (numberDocument 1) (numberDocument 2) := by
  refine (roundTrips_iff Platform.reference (b := numberDocument 1) (a := numberDocument 2)
    (by decide) (by decide)).mpr (.object (by decide) (fun k hk => ?_) (fun k v w hv hw => ?_))
  · simp only [Dict.get?_cons, Dict.get?_nil] at hk
    split_ifs at hk <;> simp at hk
  · simp only [Dict.get?_cons, Dict.get?_nil] at hv hw
    split_ifs at hv hw with hkn
    cases hv
    cases hw
    subst hkn
    exact .replaced (by decide) rfl ⟨by decide, by decide⟩

end Ai00.Revision
