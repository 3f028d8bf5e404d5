import Ai00.Revision.Loops

/-! # The condition for replaying a diff

`Replayable ks b a` is a condition on two documents found under the keys `ks`: where they are
equal for Python they are the same; where both are objects, fields present on one side only
have a place a change can record, and the common fields satisfy the condition; where both are
arrays of identity-bearing items, the identities can be brought into the proposed order and the
common items keep their identity while they are edited; anything else has a place a change can
record.

The rest of the module prepares the proof that this is exactly when the diff can be replayed:
the items an identity stands for, the strings a replay leaves (`strings_of_reaches`), and when
there is nothing to replay (`edits_eq_nil`).
-/

namespace Ai00.Revision

open Json

/-! ## The condition -/

/-- A place a change can name: no line feed in a key, and not the path of the root. -/
def Recordable (ks : List Str) : Prop := ks ≠ [[]] ∧ ∀ k ∈ ks, '\n' ∉ k

/-- `_diff` compares the two values part by part. -/
def comparable : Json → Json → Bool
  | .obj _, .obj _ => true
  | .arr xs, .arr ys =>
    match identities xs, identities ys with
    | some oldIds, some newIds => decide (oldIds.Nodup ∧ newIds.Nodup)
    | _, _ => false
  | _, _ => false

def fieldOf : Json → Str → Option Json
  | .obj fields, k => Dict.get? fields k
  | _, _ => none

/-- Before the changes of every key that differs, the half-edited item still carries its
identity. -/
def KeepsIdentity (i : Str) (old new : Json) : Prop :=
  ∀ k, optEq (fieldOf old k) (fieldOf new k) = false → identityOf (mixedText old new k) = some i

inductive Replayable : List Str → Json → Json → Prop
  | same (ks : List Str) (b : Json) : Replayable ks b b
  | object {ks : List Str} {f g : List (Str × Json)}
      (differ : pyEq (.obj f) (.obj g) = false)
      (single : ∀ k, (Dict.get? f k = none ↔ Dict.get? g k ≠ none) → Recordable (ks ++ [k]))
      (both : ∀ k v w, Dict.get? f k = some v → Dict.get? g k = some w →
        Replayable (ks ++ [k]) v w) : Replayable ks (.obj f) (.obj g)
  | items {ks : List Str} {xs ys : List Json} {oldIds newIds : List Str}
      (differ : pyEq (.arr xs) (.arr ys) = false)
      (hold : identities xs = some oldIds) (hnew : identities ys = some newIds)
      (nodupOld : oldIds.Nodup) (nodupNew : newIds.Nodup)
      (order : arrange oldIds newIds = newIds)
      (placed : ∀ i, i ∈ oldIds ∨ i ∈ newIds →
        (i ∈ oldIds → i ∈ newIds → oldIds.idxOf i ≠ newIds.idxOf i) →
          Recordable ks ∧ i.length ≤ 256)
      (keeps : ∀ i, ∀ x ∈ xs, ∀ y ∈ ys, identity x = some i → identity y = some i →
        KeepsIdentity i x y)
      (both : ∀ i, ∀ x ∈ xs, ∀ y ∈ ys, identity x = some i → identity y = some i →
        Replayable (ks ++ [i]) x y) : Replayable ks (.arr xs) (.arr ys)
  | replaced {ks : List Str} {b a : Json} (differ : pyEq b a = false)
      (hcmp : comparable b a = false) (placed : Recordable ks) : Replayable ks b a

/-! ## Lists of identities -/

theorem identities_iff {xs : List Json} {is : List Str} :
    identities xs = some is ↔ xs.map identity = is.map some := by
  induction xs generalizing is with
  | nil => cases is <;> simp [identities]
  | cons x xs ih =>
    rw [identities]
    cases hx : identity x with
    | none => cases is <;> simp [hx]
    | some i =>
      cases hxs : identities xs with
      | none =>
        have hno : ∀ js : List Str, xs.map identity ≠ js.map some := by
          intro js hjs
          rw [ih.mpr hjs] at hxs
          cases hxs
        cases is with
        | nil => simp
        | cons j js => simp [hno js]
      | some js =>
        have hjs := ih.mp hxs
        cases is with
        | nil => simp
        | cons j ls =>
          simp only [Option.some.injEq, List.cons.injEq, List.map_cons, hx, hjs]
          refine and_congr_right (fun _ => ?_)
          exact (List.map_injective_iff.mpr (Option.some_injective _)).eq_iff.symm

/-- The item that carries an identity. -/
def itemOf (is : List Str) (xs : List Json) (i : Str) : Json :=
  (Dict.get? (is.zip xs) i).getD .null

section

variable {xs : List Json} {is : List Str}

theorem length_identities (h : identities xs = some is) : is.length = xs.length := by
  have hlen := congrArg List.length (identities_iff.mp h)
  simpa using hlen.symm

theorem keys_zip (h : identities xs = some is) : Dict.keys (is.zip xs) = is := by
  unfold Dict.keys
  rw [List.map_fst_zip (le_of_eq (length_identities h))]

theorem get?_zip_ne_none (h : identities xs = some is) (i : Str) : i ∈ is ↔ Dict.get? (is.zip xs) i ≠ none := by
  rw [Ne, Dict.get?_eq_none_iff, keys_zip h, not_not]

theorem get?_zip_of_not_mem (h : identities xs = some is) {i : Str} (hi : i ∉ is) :
    Dict.get? (is.zip xs) i = none := not_not.mp (mt (get?_zip_ne_none h i).mpr hi)

theorem get?_zip_iff (h : identities xs = some is) (hnd : is.Nodup) {i : Str} {x : Json} :
    Dict.get? (is.zip xs) i = some x ↔ x ∈ xs ∧ identity x = some i := by
  induction xs generalizing is with
  | nil =>
    cases is with
    | nil => simp
    | cons j js => simp [identities] at h
  | cons y ys ih =>
    cases is with
    | nil => simpa using length_identities h
    | cons j js =>
      have hmap := identities_iff.mp h
      simp only [List.map_cons, List.cons.injEq] at hmap
      have hjs : identities ys = some js := identities_iff.mpr hmap.2
      rw [List.nodup_cons] at hnd
      rw [List.zip_cons_cons, Dict.get?_cons, List.mem_cons]
      split_ifs with hji
      · subst hji
        constructor
        · intro hx
          cases hx
          exact ⟨Or.inl rfl, hmap.1⟩
        · rintro ⟨rfl | hx, hid⟩
          · rfl
          · have : j ∈ js := by
              have hin : identity x ∈ ys.map identity := List.mem_map_of_mem hx
              rw [hid, hmap.2] at hin
              simpa using hin
            exact absurd this hnd.1
      · rw [ih hjs hnd.2]
        constructor
        · rintro ⟨hx, hid⟩
          exact ⟨Or.inr hx, hid⟩
        · rintro ⟨rfl | hx, hid⟩
          · rw [hmap.1, Option.some.injEq] at hid
            exact absurd hid hji
          · exact ⟨hx, hid⟩

theorem get?_zip_of_mem (h : identities xs = some is) {i : Str} (hi : i ∈ is) :
    Dict.get? (is.zip xs) i = some (itemOf is xs i) := by
  cases hg : Dict.get? (is.zip xs) i with
  | none => exact absurd hg ((get?_zip_ne_none h i).mp hi)
  | some x => simp [itemOf, hg]

theorem itemOf_spec (h : identities xs = some is) (hnd : is.Nodup) {i : Str} (hi : i ∈ is) :
    itemOf is xs i ∈ xs ∧ identity (itemOf is xs i) = some i :=
  (get?_zip_iff h hnd).mp (get?_zip_of_mem h hi)

theorem map_itemOf (h : identities xs = some is) (hnd : is.Nodup) : is.map (itemOf is xs) = xs := by
  refine List.ext_getElem (by simp [length_identities h]) (fun n h1 h2 => ?_)
  rw [List.length_map] at h1
  have hmem : (is[n], xs[n]) ∈ is.zip xs := by
    rw [List.mem_iff_getElem]
    exact ⟨n, by simpa using ⟨h1, h2⟩, by simp⟩
  have hget := Dict.get?_of_mem (by rwa [keys_zip h]) hmem
  simp [itemOf, hget]

end

theorem mem_foldl_arrangeStep {oldIds newIds is L : List Str} {j : Str}
    (h : j ∈ is.foldl (arrangeStep oldIds newIds) L) : j ∈ L ∨ j ∈ is := by
  induction is generalizing L with
  | nil => exact Or.inl h
  | cons i is ih =>
    rcases ih h with hj | hj
    · unfold arrangeStep at hj
      split_ifs at hj
      · exact Or.inl hj
      · rcases mem_pyInsert.mp hj with rfl | hj
        · exact Or.inr (by simp)
        · exact Or.inl (List.mem_of_mem_erase hj)
      · exact Or.inl (List.mem_of_mem_erase hj)
      · rcases mem_pyInsert.mp hj with rfl | hj
        · exact Or.inr (by simp)
        · exact Or.inl hj
    · exact Or.inr (by simp [hj])

/-! ## The clauses of `edits` -/

variable {b a : Json}

theorem comparable_cases (h : comparable b a = true) :
    (∃ f g, b = .obj f ∧ a = .obj g) ∨ ∃ xs ys is js, b = .arr xs ∧ a = .arr ys ∧ identities xs = some is
          ∧ identities ys = some js ∧ is.Nodup ∧ js.Nodup := by
  unfold comparable at h
  split at h
  · exact Or.inl ⟨_, _, rfl, rfl⟩
  · rename_i xs ys
    cases hx : identities xs with
    | none => simp [hx] at h
    | some is =>
      cases hy : identities ys with
      | none => simp [hx, hy] at h
      | some js =>
        simp only [hx, hy, decide_eq_true_eq] at h
        exact Or.inr ⟨xs, ys, is, js, rfl, rfl, hx, hy, h.1, h.2⟩
  · cases h

variable {n : Nat}

theorem edits_of_pyEq (h : pyEq b a = true) : edits n b a = [] := by
  cases n with
  | zero => rfl
  | succ n => exact if_pos h

theorem edits_obj {f g : List (Str × Json)} (h : pyEq (.obj f) (.obj g) = false) :
    edits (n + 1) (.obj f) (.obj g) = (Dict.sortedUnion (Dict.keys f) (Dict.keys g)).flatMap fun k =>
          fieldEdits (edits n) k (Dict.get? f k) (Dict.get? g k) := by
  exact if_neg (by simp [h])

theorem edits_items {xs ys : List Json} {is js : List Str}
    (h : pyEq (.arr xs) (.arr ys) = false) (hx : identities xs = some is)
    (hy : identities ys = some js) (his : is.Nodup) (hjs : js.Nodup) :
    edits (n + 1) (.arr xs) (.arr ys) = (Dict.sortedUnion is js).flatMap fun i =>
          itemEdits (edits n) is js i (Dict.get? (is.zip xs) i) (Dict.get? (js.zip ys) i) := by
  rw [edits, if_neg (by simp [h])]
  simp only [hx, hy, if_pos (And.intro his hjs)]

theorem edits_replaced (h : pyEq b a = false)
    (hcmp : comparable b a = false) : edits (n + 1) b a = [replaceEdit b a] := by
  unfold edits
  rw [if_neg (by simp [h])]
  unfold comparable at hcmp
  split
  · simp at hcmp
  · rename_i xs ys
    cases hx : identities xs with
    | none => rfl
    | some is =>
      cases hy : identities ys with
      | none => rfl
      | some js =>
        simp only [hx, hy, decide_eq_false_iff_not] at hcmp
        exact if_neg hcmp
  · rfl

/-! ## Strings after a replay -/

variable {text : Str → Prop}

theorem texts_of_pyEq (hb : Normal text b) (ha : Normal text a)
    (h : pyEq b a = true) : texts b = texts a := by
  funext k
  cases b with
  | obj f =>
    obtain ⟨g, rfl⟩ := pyEq_obj_left h
    have hk := (pyEq_obj hb.sorted ha.sorted).mp h k
    rw [texts_obj, texts_obj]
    cases hf : Dict.get? f k with
    | none =>
      cases hg : Dict.get? g k with
      | none => rfl
      | some w => rw [hf, hg] at hk; cases hk
    | some v =>
      cases hg : Dict.get? g k with
      | none => rw [hf, hg] at hk; cases hk
      | some w =>
        rw [hf, hg] at hk
        exact asStr_of_pyEq hk
  | _ =>
    cases a with
    | obj g =>
      have h' := pyEq_symm hb ha h
      obtain ⟨f, hf⟩ := pyEq_obj_left h'
      cases hf
    | _ => rfl

theorem reaches_obj {f g : List (Str × Json)} (hf : Dict.Sorted f)
    (hne : pyEq (.obj f) (.obj g) = false)
    (hin : ∀ k v w, Dict.get? f k = some v → Dict.get? g k = some w → Descends (edits n) v w)
    (G : (Str → Option Str) → Prop) {r : Json} :
    Replays (fun v => G (texts v)) (edits (n + 1) (.obj f) (.obj g)) (.obj f) r
      ↔ (∀ k, fieldEdits (edits n) k (Dict.get? f k) (Dict.get? g k) ≠ [] → G (mixedText (.obj f) (.obj g) k))
        ∧ ∃ h', r = .obj h' ∧ Dict.Sorted h'
          ∧ ∀ k, FieldOutcome (edits n) (Dict.get? f k) (Dict.get? g k) (Dict.get? h' k) := by
  have hout : ∀ q, q ∉ Dict.sortedUnion (Dict.keys f) (Dict.keys g) →
      Dict.get? f q = none ∧ Dict.get? g q = none := by
    intro q hq
    rw [Dict.mem_sortedUnion, not_or] at hq
    exact ⟨(Dict.get?_eq_none_iff f q).mpr hq.1, (Dict.get?_eq_none_iff g q).mpr hq.2⟩
  have htexts : ∀ q, q ∉ Dict.sortedUnion (Dict.keys f) (Dict.keys g) → texts (.obj f) q = texts (.obj g) q := by
    intro q hq
    rw [texts_obj, texts_obj, (hout q hq).1, (hout q hq).2]
  rw [edits_obj hne, replays_fields (Dict.sortedUnion_pairwise _ _) hin hf (fun _ _ => rfl)
    htexts (fun q hq => Or.inr (htexts q hq))]
  refine and_congr ?_ (exists_congr fun h' => and_congr_right fun _ => and_congr_right fun _ => ?_)
  · constructor
    · intro hG k hk
      refine hG k ?_ hk
      by_contra hmem
      rw [(hout k hmem).1, (hout k hmem).2] at hk
      exact hk rfl
    · exact fun hG k _ => hG k
  · constructor
    · rintro ⟨hkeep, hall⟩ k
      by_cases hmem : k ∈ Dict.sortedUnion (Dict.keys f) (Dict.keys g)
      · exact hall k hmem
      · rw [hkeep k hmem, (hout k hmem).1, (hout k hmem).2]
        rfl
    · intro hall
      refine ⟨fun q hq => ?_, fun k _ => hall k⟩
      have h := hall q
      rw [(hout q hq).1, (hout q hq).2] at h
      rw [(hout q hq).1]
      exact h

/-- **A replay that gets through leaves the proposed strings**, at the value itself and in its
fields. -/
theorem strings_of_reaches {b a r : Json} (hn : b.depth < n) (hb : Normal text b)
    (ha : Normal text a) (h : Reaches (edits n b a) b r) :
    asStr r = asStr a ∧ texts r = texts a := by
  induction n generalizing b a r with
  | zero => omega
  | succ n ih =>
    by_cases heq : pyEq b a = true
    · rw [edits_of_pyEq heq] at h
      cases h
      exact ⟨asStr_of_pyEq heq, texts_of_pyEq hb ha heq⟩
    · rw [Bool.not_eq_true] at heq
      cases hcmp : comparable b a with
      | false =>
        rw [edits_replaced heq hcmp, Reaches, replays_single] at h
        cases h.2
        exact ⟨rfl, rfl⟩
      | true =>
        rcases comparable_cases hcmp with ⟨f, g, rfl, rfl⟩ | ⟨xs, ys, is, js, rfl, rfl, hx⟩
        · have hin : ∀ k v w, Dict.get? f k = some v → Dict.get? g k = some w → Descends (edits n) v w := by
            intro k v w hv hw
            have hdepth := depth_lt_of_mem_obj (Dict.mem_of_get? hv)
            exact ⟨wellPlaced_edits n v w, steady_edits n v w,
              fun u hu => (ih (by omega) (hb.get? hv) (ha.get? hw) hu).1⟩
          obtain ⟨-, h', rfl, -, hall⟩ :=
            (reaches_obj hb.sorted heq hin (fun _ => True)).mp h
          refine ⟨rfl, funext fun k => ?_⟩
          exact asStr_fieldOutcome (hin k) (hall k)
        · have hinner : ∀ e ∈ edits (n + 1) (.arr xs) (.arr ys), e.Inner := by
            intro e he
            rw [edits_items heq hx.1 hx.2.1 hx.2.2.1 hx.2.2.2] at he
            obtain ⟨i, -, hi⟩ := List.mem_flatMap.mp he
            exact inner_itemEdits hi
          obtain ⟨zs, rfl⟩ := reaches_arr hinner h
          exact ⟨rfl, rfl⟩

/-! ## Where a diff is empty -/

theorem eq_of_idxOf {is js : List Str} (his : is.Nodup) (hjs : js.Nodup)
    (hmem : ∀ i, i ∈ is ↔ i ∈ js) (hidx : ∀ i ∈ is, is.idxOf i = js.idxOf i) : is = js := by
  have hlen : is.length = js.length :=
    ((List.perm_ext_iff_of_nodup his hjs).mpr hmem).length_eq
  refine List.ext_getElem hlen (fun n h1 h2 => ?_)
  have hin : is[n] ∈ js := (hmem _).mp (List.getElem_mem h1)
  have hpos : js.idxOf is[n] = n := by
    rw [← hidx _ (List.getElem_mem h1), his.idxOf_getElem]
  have hget := List.getElem_idxOf (List.idxOf_lt_length_iff.mpr hin)
  simp only [hpos] at hget
  exact hget.symm

theorem fieldEdits_eq_nil {inner : Json → Json → List Edit} {k : Str} {old new : Option Json}
    (hin : ∀ v w, old = some v → new = some w → (inner v w = [] ↔ pyEq v w = true)) :
    fieldEdits inner k old new = [] ↔ optEq old new = true := by
  cases old with
  | none => cases new <;> simp [fieldEdits]
  | some v =>
    cases new with
    | none => simp [fieldEdits]
    | some w => simp [fieldEdits, hin v w rfl rfl]

/-- Python equality is the only way to an empty diff. -/
theorem edits_eq_nil (hn : b.depth < n) (hb : Normal text b)
    (ha : Normal text a) : edits n b a = [] ↔ pyEq b a = true := by
  induction n generalizing b a with
  | zero => omega
  | succ n ih =>
    refine ⟨fun h => ?_, edits_of_pyEq⟩
    by_contra hne
    rw [Bool.not_eq_true] at hne
    cases hcmp : comparable b a with
    | false =>
      rw [edits_replaced hne hcmp] at h
      cases h
    | true =>
      rcases comparable_cases hcmp with
        ⟨f, g, rfl, rfl⟩ | ⟨xs, ys, is, js, rfl, rfl, hx, hy, his, hjs⟩
      · rw [edits_obj hne, List.flatMap_eq_nil_iff] at h
        have hall : ∀ k, optEq (Dict.get? f k) (Dict.get? g k) = true := by
          intro k
          by_cases hk : k ∈ Dict.sortedUnion (Dict.keys f) (Dict.keys g)
          · refine (fieldEdits_eq_nil (fun v w hv hw => ?_)).mp (h k hk)
            have hdepth := depth_lt_of_mem_obj (Dict.mem_of_get? hv)
            exact ih (by omega) (hb.get? hv) (ha.get? hw)
          · rw [Dict.mem_sortedUnion, not_or] at hk
            rw [(Dict.get?_eq_none_iff f k).mpr hk.1, (Dict.get?_eq_none_iff g k).mpr hk.2]
            rfl
        rw [(pyEq_obj hb.sorted ha.sorted).mpr hall] at hne
        cases hne
      · rw [edits_items hne hx hy his hjs, List.flatMap_eq_nil_iff] at h
        have hmem : ∀ i, i ∈ is ↔ i ∈ js := by
          intro i
          by_cases hi : i ∈ Dict.sortedUnion is js
          · have hi' := h i hi
            rw [get?_zip_ne_none hx, get?_zip_ne_none hy]
            cases hf : Dict.get? (is.zip xs) i with
            | none =>
              cases hg : Dict.get? (js.zip ys) i with
              | none => rfl
              | some w => rw [hf, hg] at hi'; cases hi'
            | some v =>
              cases hg : Dict.get? (js.zip ys) i with
              | none => rw [hf, hg] at hi'; cases hi'
              | some w => simp
          · rw [Dict.mem_sortedUnion, not_or] at hi
            exact iff_of_false hi.1 hi.2
        have hboth : ∀ i ∈ is, is.idxOf i = js.idxOf i ∧ pyEq (itemOf is xs i) (itemOf js ys i) = true := by
          intro i hi
          have hi' := h i (Dict.mem_sortedUnion.mpr (Or.inl hi))
          rw [get?_zip_of_mem hx hi, get?_zip_of_mem hy ((hmem i).mp hi), itemEdits,
            List.append_eq_nil_iff, List.map_eq_nil_iff] at hi'
          refine ⟨?_, ?_⟩
          · by_contra hidx
            have hmove := hi'.1
            rw [moveEdit, if_pos hidx] at hmove
            cases hmove
          · have hxi := (itemOf_spec hx his hi).1
            have hyi := (itemOf_spec hy hjs ((hmem i).mp hi)).1
            have hdepth := depth_lt_of_mem_arr hxi
            exact (ih (by omega) (normal_arr.mp hb _ hxi) (normal_arr.mp ha _ hyi)).mp hi'.2
        have hisjs : is = js := eq_of_idxOf his hjs hmem (fun i hi => (hboth i hi).1)
        subst hisjs
        have heq : pyEq (.arr xs) (.arr ys) = true := by
          rw [pyEq_arr, ← map_itemOf hx his, ← map_itemOf hy hjs,
            List.forall₂_map_left_iff, List.forall₂_map_right_iff, List.forall₂_same]
          exact fun i hi => (hboth i hi).2
        rw [heq] at hne
        cases hne

end Ai00.Revision
