import Ai00.Revision.Replayable

/-! # When a diff can be replayed

`replayable_iff`: the changes of a diff are valid and turn the one document into the other
exactly when the two are `Replayable`. `roundTrips_iff` states it for `JsonDocumentAdapter`, from
the documents as the caller gives them to the canonical bytes of the result.
-/

namespace Ai00.Revision

open Json

variable {text : Str → Prop}

/-! ## The edits of a diff inside its parent -/

theorem inner_edits_obj (n : Nat) (f g : List (Str × Json)) : ∀ e ∈ edits n (.obj f) (.obj g), e.Inner := by
  intro e he
  cases n with
  | zero => cases he
  | succ n =>
    cases heq : pyEq (.obj f) (.obj g) with
    | true =>
      rw [edits_of_pyEq heq] at he
      cases he
    | false =>
      rw [edits_obj heq] at he
      obtain ⟨k, -, hk⟩ := List.mem_flatMap.mp he
      exact inner_fieldEdits hk

theorem exists_obj_of_identity {v : Json} {i : Str} (h : identity v = some i) :
    ∃ f, v = .obj f := by
  cases v with
  | obj f => exact ⟨f, rfl⟩
  | _ => cases h

theorem descends_edits {n : Nat} {f g : List (Str × Json)} (hn : (Json.obj f).depth < n + 1)
    (hf : Normal text (.obj f)) (hg : Normal text (.obj g)) (k : Str) (v w : Json)
    (hv : Dict.get? f k = some v) (hw : Dict.get? g k = some w) : Descends (edits n) v w := by
  have hdepth := depth_lt_of_mem_obj (Dict.mem_of_get? hv)
  exact ⟨wellPlaced_edits n v w, steady_edits n v w,
    fun u hu => (strings_of_reaches (by omega) (hf.get? hv) (hg.get? hw) hu).1⟩

/-- **An item can be edited in its array** when its edits can be made at all and it keeps its
identity until the last of them. -/
theorem replays_item_iff {n : Nat} {x y r : Json} {i : Str} (hn : x.depth < n)
    (hx : Normal text x) (hy : Normal text y) (hxi : identity x = some i)
    (hyi : identity y = some i) :
    Replays (fun v => identity v = some i) (edits n x y) x r
      ↔ KeepsIdentity i x y ∧ Reaches (edits n x y) x r := by
  obtain ⟨f, rfl⟩ := exists_obj_of_identity hxi
  obtain ⟨g, rfl⟩ := exists_obj_of_identity hyi
  cases n with
  | zero => omega
  | succ n =>
    cases heq : pyEq (.obj f) (.obj g) with
    | true =>
      have hkeeps : KeepsIdentity i (.obj f) (.obj g) := by
        intro k hk
        have hk' := (pyEq_obj hx.sorted hy.sorted).mp heq k
        rw [fieldOf, fieldOf, hk'] at hk
        cases hk
      rw [edits_of_pyEq heq]
      exact (and_iff_right hkeeps).symm
    | false =>
      have hguard : (fun v => identity v = some i) = fun v => identityOf (texts v) = some i := by
        funext v
        rw [identity_eq]
      have hin := descends_edits hn hx hy
      have hnil : ∀ k, fieldEdits (edits n) k (Dict.get? f k) (Dict.get? g k) ≠ []
          ↔ optEq (Dict.get? f k) (Dict.get? g k) = false := by
        intro k
        rw [← Bool.not_eq_true, not_iff_not]
        refine fieldEdits_eq_nil (fun v w hv hw => ?_)
        have hdepth := depth_lt_of_mem_obj (Dict.mem_of_get? hv)
        exact edits_eq_nil (by omega) (hx.get? hv) (hy.get? hw)
      rw [hguard, reaches_obj hx.sorted heq hin (fun t => identityOf t = some i), Reaches,
        reaches_obj hx.sorted heq hin (fun _ => True)]
      simp only [hnil, implies_true, true_and]
      rfl

/-! ## The three cases -/

/-- An edit whose change passes the checks of `Change` when its value is found under `ks`. -/
def Edit.Carried (ks : List Str) (e : Edit) : Prop :=
  Recordable (ks ++ e.keys) ∧ ∀ i, e.change.identity = some i → i.length ≤ 256

theorem carried_under {ks : List Str} {k : Str} {e : Edit} :
    (e.under k).Carried ks ↔ e.Carried (ks ++ [k]) := by
  simp [Edit.Carried]

theorem carried_map_under {ks : List Str} {k : Str} {es : List Edit} :
    (∀ e ∈ es.map (Edit.under k), e.Carried ks) ↔ ∀ e ∈ es, e.Carried (ks ++ [k]) := by
  simp [carried_under]

/-- Changes that are valid under `ks` and lead from `b` to `a`. -/
def Replaces (n : Nat) (ks : List Str) (b a : Json) : Prop :=
  (∀ e ∈ edits n b a, e.Carried ks) ∧ Reaches (edits n b a) b a

theorem replaces_object_iff {n : Nat} {ks : List Str} {f g : List (Str × Json)}
    (hn : (Json.obj f).depth < n + 1) (hf : Normal text (.obj f)) (hg : Normal text (.obj g))
    (hne : pyEq (.obj f) (.obj g) = false) :
    Replaces (n + 1) ks (.obj f) (.obj g)
      ↔ (∀ k, (Dict.get? f k = none ↔ Dict.get? g k ≠ none) → Recordable (ks ++ [k]))
        ∧ ∀ k v w, Dict.get? f k = some v → Dict.get? g k = some w → Replaces n (ks ++ [k]) v w := by
  have hreach : Reaches (edits (n + 1) (.obj f) (.obj g)) (.obj f) (.obj g)
      ↔ ∀ k, FieldOutcome (edits n) (Dict.get? f k) (Dict.get? g k) (Dict.get? g k) := by
    rw [Reaches, reaches_obj hf.sorted hne (descends_edits hn hf hg) (fun _ => True)]
    simp only [implies_true, true_and]
    constructor
    · rintro ⟨h', heq, -, hall⟩
      cases heq
      exact hall
    · exact fun hall => ⟨g, rfl, hg.sorted, hall⟩
  have hcarried : (∀ e ∈ edits (n + 1) (.obj f) (.obj g), e.Carried ks)
      ↔ ∀ k, ∀ e ∈ fieldEdits (edits n) k (Dict.get? f k) (Dict.get? g k), e.Carried ks := by
    rw [edits_obj hne]
    simp only [List.mem_flatMap, forall_exists_index, and_imp]
    constructor
    · intro h k e he
      refine h e k ?_ he
      rw [Dict.mem_sortedUnion, Dict.mem_keys_iff, Dict.mem_keys_iff]
      cases hfk : Dict.get? f k with
      | some v => exact Or.inl ⟨v, rfl⟩
      | none =>
        cases hgk : Dict.get? g k with
        | some w => exact Or.inr ⟨w, rfl⟩
        | none => rw [hfk, hgk] at he; cases he
    · exact fun h e k _ he => h k e he
  unfold Replaces
  rw [hreach, hcarried, ← forall_and, ← forall_and]
  refine forall_congr' fun k => ?_
  cases hfk : Dict.get? f k with
  | none =>
    cases hgk : Dict.get? g k with
    | none => simp [fieldEdits, FieldOutcome]
    | some w => simp [fieldEdits, addField, FieldOutcome, Edit.Carried]
  | some v =>
    cases hgk : Dict.get? g k with
    | none => simp [fieldEdits, removeField, FieldOutcome, Edit.Carried]
    | some w => simp [fieldEdits, carried_under, FieldOutcome]

/-- The item an identity ends with: the proposed one, and the old one where it is removed. -/
def finalItem (is : List Str) (xs : List Json) (js : List Str) (ys : List Json) (i : Str) :
    Json :=
  if i ∈ js then itemOf js ys i else itemOf is xs i

section

variable {n : Nat} {xs ys : List Json} {is js : List Str}

/-- The replay of an array: the identities get into order, and every common item turns into the
proposed one. -/
theorem reaches_arr_iff (hn : (Json.arr xs).depth < n + 1) (hxs : Normal text (.arr xs))
    (hys : Normal text (.arr ys)) (hne : pyEq (.arr xs) (.arr ys) = false)
    (hx : identities xs = some is) (hy : identities ys = some js) (his : is.Nodup)
    (hjs : js.Nodup) :
    Reaches (edits (n + 1) (.arr xs) (.arr ys)) (.arr xs) (.arr ys) ↔ arrange is js = js
        ∧ ∀ i ∈ is, i ∈ js → Replays (fun v => identity v = some i)
            (edits n (itemOf is xs i) (itemOf js ys i)) (itemOf is xs i) (itemOf js ys i) := by
  have hold : ∀ i x, Dict.get? (is.zip xs) i = some x → x ∈ xs ∧ identity x = some i :=
    fun i x h => (get?_zip_iff hx his).mp h
  have hnew : ∀ i y, Dict.get? (js.zip ys) i = some y → y ∈ ys ∧ identity y = some i :=
    fun i y h => (get?_zip_iff hy hjs).mp h
  have hin : ∀ i v w, Dict.get? (is.zip xs) i = some v → Dict.get? (js.zip ys) i = some w →
      ∀ e ∈ edits n v w, e.Inner := by
    intro i v w hv hw
    obtain ⟨f, rfl⟩ := exists_obj_of_identity (hold i v hv).2
    obtain ⟨g, rfl⟩ := exists_obj_of_identity (hnew i w hw).2
    exact inner_edits_obj n f g
  have hout : ∀ i c, ItemOutcome (edits n) i (Dict.get? (is.zip xs) i) (Dict.get? (js.zip ys) i) c
      → identity c = some i := by
    intro i c hc
    cases hf : Dict.get? (is.zip xs) i with
    | none =>
      cases hg : Dict.get? (js.zip ys) i with
      | none => rw [hf, hg] at hc; exact hc.elim
      | some w =>
        rw [hf, hg] at hc
        rw [show c = w from hc]
        exact (hnew i w hg).2
    | some v =>
      cases hg : Dict.get? (js.zip ys) i with
      | none =>
        rw [hf, hg] at hc
        rw [show c = v from hc]
        exact (hold i v hf).2
      | some w =>
        rw [hf, hg] at hc
        have hvx := (hold i v hf).1
        have hwy := (hnew i w hg)
        have hdepth := depth_lt_of_mem_arr hvx
        have hstr := strings_of_reaches (by omega) (normal_arr.mp hxs v hvx)
          (normal_arr.mp hys w hwy.1) hc.reaches
        rw [identity_eq, hstr.2, ← identity_eq]
        exact hwy.2
  have hcur : ∀ j ∈ is, identity (itemOf is xs j) = some j :=
    fun j hj => (itemOf_spec hx his hj).2
  have hcur' : ∀ i ∈ Dict.sortedUnion is js, ∀ v, Dict.get? (is.zip xs) i = some v →
      itemOf is xs i = v := by
    intro i _ v hv
    rw [itemOf, hv]
    rfl
  have hrun := @reaches_items (.arr ys) is (itemOf is xs) is js (edits n) _ _
    (get?_zip_ne_none hx) (get?_zip_ne_none hy) hin hout _
    ((Dict.sortedUnion_pairwise is js).imp ne_of_lt)
    (fun i hi => Dict.mem_sortedUnion.mp hi) his hcur (fun _ _ => Iff.rfl) hcur'
  rw [map_itemOf hx his] at hrun
  rw [edits_items hne hx hy his hjs, hrun]
  constructor
  · rintro ⟨cur', -, hitems, heq⟩
    have hlist : (arrange is js).map cur' = ys := (Json.arr.inj heq).symm
    have hid : ∀ j ∈ arrange is js, identity (cur' j) = some j := by
      intro j hj
      refine hout j _ (hitems j ?_)
      rcases mem_foldl_arrangeStep hj with h | h
      · exact Dict.mem_sortedUnion.mpr (Or.inl h)
      · exact h
    have horder : arrange is js = js := by
      have hmap : (arrange is js).map some = js.map some := by
        rw [← identities_iff.mp hy, ← hlist, List.map_map]
        exact (List.map_congr_left hid).symm
      exact (List.map_injective_iff.mpr (Option.some_injective _)) hmap
    have hvals : ∀ j ∈ js, cur' j = itemOf js ys j := by
      rw [horder] at hlist
      exact List.map_inj_left.mp (hlist.trans (map_itemOf hy hjs).symm)
    refine ⟨horder, fun i hi hij => ?_⟩
    have hout' := hitems i (Dict.mem_sortedUnion.mpr (Or.inl hi))
    rw [get?_zip_of_mem hx hi, get?_zip_of_mem hy hij, hvals i hij] at hout'
    exact hout'
  · rintro ⟨horder, hboth⟩
    refine ⟨finalItem is xs js ys, fun j hj => ?_, fun i hi => ?_, ?_⟩
    · rw [Dict.mem_sortedUnion, not_or] at hj
      rw [finalItem, if_neg hj.2]
    · by_cases hio : i ∈ is
      · by_cases hij : i ∈ js
        · rw [finalItem, if_pos hij, get?_zip_of_mem hx hio, get?_zip_of_mem hy hij]
          exact hboth i hio hij
        · rw [finalItem, if_neg hij, get?_zip_of_mem hx hio, get?_zip_of_not_mem hy hij]
          rfl
      · have hij : i ∈ js := (Dict.mem_sortedUnion.mp hi).resolve_left hio
        rw [finalItem, if_pos hij, get?_zip_of_mem hy hij, get?_zip_of_not_mem hx hio]
        rfl
    · have hmap : js.map (finalItem is xs js ys) = ys := by
        calc js.map (finalItem is xs js ys) = js.map (itemOf js ys) :=
              List.map_congr_left fun j hj => by rw [finalItem, if_pos hj]
          _ = ys := map_itemOf hy hjs
      show Json.arr ys = .arr ((arrange is js).map _)
      rw [horder, hmap]

theorem carried_moveEdit {ks : List Str} {i : Str} :
    (∀ e ∈ moveEdit is js i, e.Carried ks) ↔ (is.idxOf i ≠ js.idxOf i → Recordable ks ∧ i.length ≤ 256) := by
  unfold moveEdit
  split_ifs with h
  · simp [moveItem, Edit.Carried, h]
  · simp [h]

theorem carried_items_iff (hx : identities xs = some is) (hy : identities ys = some js)
    (his : is.Nodup) (hjs : js.Nodup) (hne : pyEq (.arr xs) (.arr ys) = false)
    (ks : List Str) :
    (∀ e ∈ edits (n + 1) (.arr xs) (.arr ys), e.Carried ks)
      ↔ (∀ i, i ∈ is ∨ i ∈ js → (i ∈ is → i ∈ js → is.idxOf i ≠ js.idxOf i) → Recordable ks ∧ i.length ≤ 256)
        ∧ ∀ i ∈ is, i ∈ js → ∀ e ∈ edits n (itemOf is xs i) (itemOf js ys i), e.Carried (ks ++ [i]) := by
  rw [edits_items hne hx hy his hjs, List.forall_mem_flatMap]
  simp only [Dict.mem_sortedUnion]
  have hone : ∀ i, i ∈ is ∨ i ∈ js →
      ((∀ e ∈ itemEdits (edits n) is js i (Dict.get? (is.zip xs) i) (Dict.get? (js.zip ys) i), e.Carried ks)
        ↔ ((i ∈ is → i ∈ js → is.idxOf i ≠ js.idxOf i) → Recordable ks ∧ i.length ≤ 256)
          ∧ (i ∈ is → i ∈ js → ∀ e ∈ edits n (itemOf is xs i) (itemOf js ys i), e.Carried (ks ++ [i]))) := by
    intro i hi
    by_cases hio : i ∈ is
    · by_cases hij : i ∈ js
      · rw [get?_zip_of_mem hx hio, get?_zip_of_mem hy hij, itemEdits, List.forall_mem_append,
          carried_moveEdit, carried_map_under]
        simp [hio, hij]
      · rw [get?_zip_of_mem hx hio, get?_zip_of_not_mem hy hij]
        simp [itemEdits, removeItem, Edit.Carried, hij]
    · have hij : i ∈ js := hi.resolve_left hio
      rw [get?_zip_of_mem hy hij, get?_zip_of_not_mem hx hio]
      simp [itemEdits, addItem, Edit.Carried, hio]
  constructor
  · intro h
    refine ⟨fun i hi => ((hone i hi).mp (h i hi)).1, fun i hio hij => ?_⟩
    exact ((hone i (Or.inl hio)).mp (h i (Or.inl hio))).2 hio hij
  · rintro ⟨hplaced, hboth⟩ i hi
    exact (hone i hi).mpr ⟨hplaced i hi, hboth i⟩

/-- Two arrays of identity-bearing items, in terms of the pairs of items that share one. -/
theorem replaces_items_iff (hn : (Json.arr xs).depth < n + 1) (hxs : Normal text (.arr xs))
    (hys : Normal text (.arr ys)) (hne : pyEq (.arr xs) (.arr ys) = false)
    (hx : identities xs = some is) (hy : identities ys = some js) (his : is.Nodup)
    (hjs : js.Nodup) {ks : List Str} :
    Replaces (n + 1) ks (.arr xs) (.arr ys) ↔ arrange is js = js
        ∧ (∀ i, i ∈ is ∨ i ∈ js → (i ∈ is → i ∈ js → is.idxOf i ≠ js.idxOf i) → Recordable ks ∧ i.length ≤ 256)
        ∧ ∀ i, ∀ x ∈ xs, ∀ y ∈ ys, identity x = some i → identity y = some i →
            KeepsIdentity i x y ∧ Replaces n (ks ++ [i]) x y := by
  have hitem : ∀ i, ∀ x ∈ xs, ∀ y ∈ ys, identity x = some i → identity y = some i →
      ((∀ e ∈ edits n x y, e.Carried (ks ++ [i])) ∧ Replays (fun v => identity v = some i) (edits n x y) x y
        ↔ KeepsIdentity i x y ∧ Replaces n (ks ++ [i]) x y) := by
    intro i x hxm y hym hxi hyi
    have hdepth := depth_lt_of_mem_arr hxm
    rw [replays_item_iff (by omega) (normal_arr.mp hxs x hxm) (normal_arr.mp hys y hym) hxi hyi, Replaces]
    exact and_left_comm
  rw [Replaces, carried_items_iff hx hy his hjs hne, reaches_arr_iff hn hxs hys hne hx hy his hjs]
  constructor
  · rintro ⟨⟨hplaced, hcar⟩, horder, hrep⟩
    refine ⟨horder, hplaced, fun i x hxm y hym hxi hyi => ?_⟩
    have hgx := (get?_zip_iff hx his).mpr ⟨hxm, hxi⟩
    have hgy := (get?_zip_iff hy hjs).mpr ⟨hym, hyi⟩
    have hi : i ∈ is := (get?_zip_ne_none hx i).mpr (by simp [hgx])
    have hij : i ∈ js := (get?_zip_ne_none hy i).mpr (by simp [hgy])
    have hxe : itemOf is xs i = x := by simp [itemOf, hgx]
    have hye : itemOf js ys i = y := by simp [itemOf, hgy]
    have hc := hcar i hi hij
    have hr := hrep i hi hij
    rw [hxe, hye] at hc hr
    exact (hitem i x hxm y hym hxi hyi).mp ⟨hc, hr⟩
  · rintro ⟨horder, hplaced, hall⟩
    have hback : ∀ i ∈ is, i ∈ js →
        (∀ e ∈ edits n (itemOf is xs i) (itemOf js ys i), e.Carried (ks ++ [i]))
        ∧ Replays (fun v => identity v = some i) (edits n (itemOf is xs i) (itemOf js ys i))
            (itemOf is xs i) (itemOf js ys i) := by
      intro i hi hij
      obtain ⟨hxm, hxi⟩ := itemOf_spec hx his hi
      obtain ⟨hym, hyi⟩ := itemOf_spec hy hjs hij
      exact (hitem i _ hxm _ hym hxi hyi).mpr (hall i _ hxm _ hym hxi hyi)
    exact ⟨⟨hplaced, fun i hi hij => (hback i hi hij).1⟩, horder, fun i hi hij => (hback i hi hij).2⟩

end

/-- **The changes of a diff are valid and lead to the proposed value exactly on replayable
pairs.** The induction is on the bound for the nesting. -/
theorem replaces_iff_replayable {n : Nat} {ks : List Str} {b a : Json} (hn : b.depth < n)
    (hb : Normal text b) (ha : Normal text a) : Replaces n ks b a ↔ Replayable ks b a := by
  induction n generalizing ks b a with
  | zero => omega
  | succ n ih =>
    by_cases heq : pyEq b a = true
    · have hnil : Replaces (n + 1) ks b a ↔ b = a := by
        simp [Replaces, edits_of_pyEq heq, Reaches, Replays]
      rw [hnil]
      constructor
      · rintro rfl
        exact .same ks b
      · intro h
        cases h with
        | same => rfl
        | object differ => rw [differ] at heq; cases heq
        | items differ => rw [differ] at heq; cases heq
        | replaced differ => rw [differ] at heq; cases heq
    · rw [Bool.not_eq_true] at heq
      have hne : b ≠ a := by
        rintro rfl
        rw [pyEq_refl hb] at heq
        cases heq
      cases hcmp : comparable b a with
      | false =>
        have hone : Replaces (n + 1) ks b a ↔ Recordable ks := by
          rw [Replaces, edits_replaced heq hcmp, Reaches, replays_single,
            List.forall_mem_singleton, and_iff_left ⟨trivial, rfl⟩]
          simp [Edit.Carried, replaceEdit]
        rw [hone]
        constructor
        · exact fun h => .replaced heq hcmp h
        · intro h
          cases h with
          | same => exact absurd rfl hne
          | object => cases hcmp
          | items _ hx hy his hjs => simp [comparable, hx, hy, his, hjs] at hcmp
          | replaced _ _ placed => exact placed
      | true =>
        rcases comparable_cases hcmp with
          ⟨f, g, rfl, rfl⟩ | ⟨xs, ys, is, js, rfl, rfl, hx, hy, his, hjs⟩
        · rw [replaces_object_iff hn hb ha heq]
          have hboth : ∀ k v w, Dict.get? f k = some v → Dict.get? g k = some w →
              (Replaces n (ks ++ [k]) v w ↔ Replayable (ks ++ [k]) v w) := by
            intro k v w hv hw
            have hdepth := depth_lt_of_mem_obj (Dict.mem_of_get? hv)
            exact ih (by omega) (hb.get? hv) (ha.get? hw)
          constructor
          · rintro ⟨hsingle, hall⟩
            exact .object heq hsingle
              (fun k v w hv hw => (hboth k v w hv hw).mp (hall k v w hv hw))
          · intro h
            cases h with
            | same => exact absurd rfl hne
            | object _ hsingle hall =>
              exact ⟨hsingle, fun k v w hv hw => (hboth k v w hv hw).mpr (hall k v w hv hw)⟩
            | replaced _ hno => rw [hcmp] at hno; cases hno
        · rw [replaces_items_iff hn hb ha heq hx hy his hjs]
          have hboth : ∀ i, ∀ x ∈ xs, ∀ y ∈ ys,
              (Replaces n (ks ++ [i]) x y ↔ Replayable (ks ++ [i]) x y) := by
            intro i x hxm y hym
            have hdepth := depth_lt_of_mem_arr hxm
            exact ih (by omega) (normal_arr.mp hb x hxm) (normal_arr.mp ha y hym)
          constructor
          · rintro ⟨horder, hplaced, hall⟩
            exact .items heq hx hy his hjs horder hplaced
              (fun i x hxm y hym hxi hyi => (hall i x hxm y hym hxi hyi).1)
              (fun i x hxm y hym hxi hyi =>
                (hboth i x hxm y hym).mp (hall i x hxm y hym hxi hyi).2)
          · intro h
            cases h with
            | same => exact absurd rfl hne
            | replaced _ hno => rw [hcmp] at hno; cases hno
            | items _ hx' hy' _ _ horder hplaced hkeeps hrep =>
              rw [hx, Option.some.injEq] at hx'
              rw [hy, Option.some.injEq] at hy'
              subst hx'
              subst hy'
              exact ⟨horder, hplaced, fun i x hxm y hym hxi hyi =>
                ⟨hkeeps i x hxm y hym hxi hyi,
                  (hboth i x hxm y hym).mpr (hrep i x hxm y hym hxi hyi)⟩⟩

end Ai00.Revision
