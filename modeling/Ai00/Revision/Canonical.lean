import Ai00.Json.Text

/-! # Canonical JSON

`normalizeJson` and `canonicalJsonBytes` of `revision/canonical.py`. A normalized value is
`Json.Normal (Nfc pf)`; normalization is the identity on those, so it is idempotent, and two
normalized values with the same canonical bytes are the same value.

The dictionary that normalization builds is kept key-sorted. The order of a Python dictionary
is visible only to code that iterates over it, and everything downstream of normalization
iterates over `sorted(keys)`.
-/

namespace Ai00.Revision

open Json

variable (pf : Platform)

/-- A string in Unicode normal form C. -/
def Nfc (s : Str) : Prop := pf.nfc s = s

mutual

def normalizeJson : Json → Except PyError Json
  | .float (.finite x) => .ok (.float (.finite x))
  | .float _ => .error (.valueError "revision content cannot contain NaN or infinity")
  | .str s => .ok (.str (pf.nfc s))
  | .obj fields => do return .obj (← normalizeFields [] fields)
  | .arr items => do return .arr (← normalizeItems items)
  | .other t => .error (.typeError ("unsupported revision value: " ++ t))
  | value => .ok value

/-- The loop over `value.items()`. -/
def normalizeFields (normalized : List (Str × Json)) :
    List (Str × Json) → Except PyError (List (Str × Json))
  | [] => .ok normalized
  | (key, item) :: rest =>
    if pf.nfc key ∈ Dict.keys normalized then
      .error (.valueError "revision object contains duplicate normalized keys")
    else do
      let v ← normalizeJson item
      normalizeFields (Dict.insert (pf.nfc key) v normalized) rest

def normalizeItems : List Json → Except PyError (List Json)
  | [] => .ok []
  | item :: rest => do
    let v ← normalizeJson item
    return v :: (← normalizeItems rest)

end

def canonicalJsonBytes (value : Json) : Except PyError (List UInt8) := do
  return utf8 (dumps pf.floatRepr (← normalizeJson pf value))

/-! ## The result is normal -/

theorem normalizeItems_normal {xs ys : List Json}
    (ih : ∀ x ∈ xs, ∀ w, normalizeJson pf x = .ok w → Normal (Nfc pf) w)
    (h : normalizeItems pf xs = .ok ys) : ∀ y ∈ ys, Normal (Nfc pf) y := by
  induction xs generalizing ys with
  | nil =>
    rw [normalizeItems, Except.ok.injEq] at h
    rw [← h]
    intro y hy
    cases hy
  | cons x xs ihx =>
    rw [normalizeItems, bind_eq_ok] at h
    obtain ⟨v, hv, h⟩ := h
    obtain ⟨vs, hvs, h⟩ := bind_eq_ok.mp h
    have hys : v :: vs = ys := Except.ok.inj h
    rw [← hys, List.forall_mem_cons]
    exact ⟨ih x (by simp) v hv, ihx (fun z hz => ih z (by simp [hz])) hvs⟩

theorem normalizeFields_normal {fs acc gs : List (Str × Json)}
    (ih : ∀ e ∈ fs, ∀ w, normalizeJson pf e.2 = .ok w → Normal (Nfc pf) w)
    (hacc : Normal (Nfc pf) (.obj acc)) (h : normalizeFields pf acc fs = .ok gs) :
    Normal (Nfc pf) (.obj gs) := by
  induction fs generalizing acc with
  | nil =>
    rw [normalizeFields, Except.ok.injEq] at h
    rw [← h]
    exact hacc
  | cons e fs ihf =>
    obtain ⟨k, v⟩ := e
    rw [normalizeFields] at h
    split_ifs at h with hdup
    obtain ⟨w, hw, h⟩ := bind_eq_ok.mp h
    have hins : Normal (Nfc pf) (.obj (Dict.insert (pf.nfc k) w acc)) :=
      hacc.insert (pf.nfc_nfc k) (ih (k, v) (by simp) w hw)
    exact ihf (fun e he => ih e (by simp [he])) hins h

theorem normal_of_normalizeJson {v w : Json} (h : normalizeJson pf v = .ok w) : Normal (Nfc pf) w := by
  induction v using Json.ind generalizing w with
  | null => cases h; trivial
  | bool b => cases h; trivial
  | int n => cases h; trivial
  | float x =>
    cases x with
    | finite y => cases h; exact ⟨y, rfl⟩
    | inf s => cases h
    | nan => cases h
  | str s => cases h; exact pf.nfc_nfc s
  | arr xs ih =>
    rw [normalizeJson, bind_eq_ok] at h
    obtain ⟨ys, hys, h⟩ := h
    cases h
    exact normal_arr.mpr (normalizeItems_normal pf (fun x hx w => ih x hx) hys)
  | obj fs ih =>
    rw [normalizeJson, bind_eq_ok] at h
    obtain ⟨gs, hgs, h⟩ := h
    cases h
    have hempty : Normal (Nfc pf) (.obj []) := normal_obj.mpr ⟨Dict.sorted_nil, by simp⟩
    exact normalizeFields_normal pf (fun e he w => ih e he) hempty hgs
  | other t => cases h

/-! ## Normal values stay as they are -/

theorem normalizeItems_of_normal {xs : List Json}
    (ih : ∀ x ∈ xs, normalizeJson pf x = .ok x) : normalizeItems pf xs = .ok xs := by
  induction xs with
  | nil => rfl
  | cons x xs ihx =>
    rw [normalizeItems, ih x (by simp), ihx (fun z hz => ih z (by simp [hz]))]
    rfl

/-- The loop appends: the keys come in increasing order, above those already read. -/
theorem normalizeFields_of_normal {fs acc : List (Str × Json)}
    (hsorted : Dict.Sorted (acc ++ fs)) (hkeys : ∀ e ∈ fs, Nfc pf e.1)
    (ih : ∀ e ∈ fs, normalizeJson pf e.2 = .ok e.2) :
    normalizeFields pf acc fs = .ok (acc ++ fs) := by
  induction fs generalizing acc with
  | nil => rw [normalizeFields, List.append_nil]
  | cons e fs ihf =>
    obtain ⟨k, v⟩ := e
    have hk : pf.nfc k = k := hkeys (k, v) (by simp)
    have hv : normalizeJson pf v = .ok v := ih (k, v) (by simp)
    have hlt : ∀ q ∈ Dict.keys acc, q < k := by
      intro q hq
      unfold Dict.Sorted Dict.keys at hsorted
      rw [List.map_append] at hsorted
      exact (List.pairwise_append.mp hsorted).2.2 q hq k (by simp)
    have hfresh : k ∉ Dict.keys acc := fun hmem => lt_irrefl k (hlt k hmem)
    have hinsert : Dict.insert k v acc = acc ++ [(k, v)] := Dict.insert_of_lt hlt
    have hsorted' : Dict.Sorted (acc ++ [(k, v)] ++ fs) := by
      rw [List.append_assoc]
      exact hsorted
    rw [normalizeFields, hk, if_neg hfresh, hv]
    show normalizeFields pf (Dict.insert k v acc) fs = _
    rw [hinsert, ihf hsorted' (fun e he => hkeys e (by simp [he])) (fun e he => ih e (by simp [he])),
      List.append_assoc]
    rfl

/-- **Normalization is the identity on normal values.** -/
theorem normalizeJson_of_normal {v : Json} (hv : Normal (Nfc pf) v) :
    normalizeJson pf v = .ok v := by
  induction v using Json.ind with
  | null => rfl
  | bool b => rfl
  | int n => rfl
  | float x =>
    obtain ⟨y, rfl⟩ := hv
    rfl
  | str s =>
    have hs : pf.nfc s = s := hv
    rw [normalizeJson, hs]
  | arr xs ih =>
    have hxs := normal_arr.mp hv
    rw [normalizeJson, normalizeItems_of_normal pf (fun x hx => ih x hx (hxs x hx))]
    rfl
  | obj fs ih =>
    have hfs := (normal_obj.mp hv).2
    rw [normalizeJson, @normalizeFields_of_normal pf fs [] hv.sorted
      (fun e he => (hfs e he).1) (fun e he => ih e he (hfs e he).2)]
    rfl
  | other t => exact hv.elim

/-! ## What is accepted -/

/-- `normalize_json` returns. -/
def Accepted (v : Json) : Prop := ∃ w, normalizeJson pf v = .ok w

theorem accepted_of_normal {v : Json} (hv : Normal (Nfc pf) v) : Accepted pf v :=
  ⟨v, normalizeJson_of_normal pf hv⟩

theorem not_accepted_other (t : String) : ¬ Accepted pf (.other t) := by
  rintro ⟨w, hw⟩
  cases hw

theorem exists_normalizeFields {fs acc : List (Str × Json)} (hkeys : ∀ e ∈ fs, Nfc pf e.1)
    (hnd : (Dict.keys fs).Nodup) (hfresh : ∀ e ∈ fs, e.1 ∉ Dict.keys acc) :
    (∃ gs, normalizeFields pf acc fs = .ok gs) ↔ ∀ e ∈ fs, Accepted pf e.2 := by
  induction fs generalizing acc with
  | nil => simp [normalizeFields]
  | cons e fs ih =>
    obtain ⟨k, v⟩ := e
    have hk : pf.nfc k = k := hkeys (k, v) (by simp)
    rw [Dict.keys_cons, List.nodup_cons] at hnd
    rw [normalizeFields, hk, if_neg (hfresh (k, v) (by simp)), List.forall_mem_cons]
    have hnext : ∀ w, (∃ gs, normalizeFields pf (Dict.insert k w acc) fs = .ok gs)
        ↔ ∀ e ∈ fs, Accepted pf e.2 := by
      intro w
      refine ih (fun e he => hkeys e (by simp [he])) hnd.2 (fun e he hmem => ?_)
      rcases (Dict.mem_keys_insert acc k e.1 w).mp hmem with heq | hacc
      · have hmem' : e.1 ∈ Dict.keys fs := Dict.mem_keys_of_mem he
        rw [heq] at hmem'
        exact hnd.1 hmem'
      · exact hfresh e (by simp [he]) hacc
    constructor
    · rintro ⟨gs, hgs⟩
      obtain ⟨w, hw, hrest⟩ := bind_eq_ok.mp hgs
      exact ⟨⟨w, hw⟩, (hnext w).mp ⟨gs, hrest⟩⟩
    · rintro ⟨⟨w, hw⟩, hrest⟩
      obtain ⟨gs, hgs⟩ := (hnext w).mpr hrest
      exact ⟨gs, bind_eq_ok.mpr ⟨w, hw, hgs⟩⟩

theorem accepted_obj {fs : List (Str × Json)} (hs : Dict.Sorted fs)
    (hkeys : ∀ k ∈ Dict.keys fs, Nfc pf k) :
    Accepted pf (.obj fs) ↔ ∀ k v, Dict.get? fs k = some v → Accepted pf v := by
  have hfields := @exists_normalizeFields pf fs []
    (fun e he => hkeys e.1 (Dict.mem_keys_of_mem he)) hs.nodup (by simp)
  have hobj : Accepted pf (.obj fs) ↔ ∃ gs, normalizeFields pf [] fs = .ok gs := by
    unfold Accepted
    simp only [normalizeJson, bind_eq_ok]
    constructor
    · rintro ⟨w, gs, hgs, -⟩
      exact ⟨gs, hgs⟩
    · rintro ⟨gs, hgs⟩
      exact ⟨_, gs, hgs, rfl⟩
  rw [hobj, hfields]
  constructor
  · exact fun h k v hk => h (k, v) (Dict.mem_of_get? hk)
  · exact fun h e he => h e.1 e.2 ((hs.get?_iff e.1 e.2).mpr he)

/-! ## Canonical bytes -/

theorem canonicalJsonBytes_of_normal {v : Json} (hv : Normal (Nfc pf) v) :
    canonicalJsonBytes pf v = .ok (utf8 (dumps pf.floatRepr v)) := by
  rw [canonicalJsonBytes, normalizeJson_of_normal pf hv]
  rfl

/-- **Canonical bytes determine a normal value.** -/
theorem canonicalJsonBytes_inj {v w : Json} (hv : Normal (Nfc pf) v) (hw : Normal (Nfc pf) w) :
    canonicalJsonBytes pf v = canonicalJsonBytes pf w ↔ v = w := by
  constructor
  · intro h
    rw [canonicalJsonBytes_of_normal pf hv, canonicalJsonBytes_of_normal pf hw, Except.ok.injEq] at h
    exact dumps_injective pf hv hw (utf8_injective h)
  · rintro rfl
    rfl

end Ai00.Revision
