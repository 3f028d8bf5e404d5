import Ai00.Revision.Replay

/-! # The two loops of a diff, replayed

`replays_fields` follows the changes `_diff` records for two objects, `reaches_items` those for
two arrays of identity-bearing items. Each says exactly when the changes can be replayed and
what they leave: an object whose every field is the outcome of that field's changes, or an
array whose items stand in the order `arrange` computes from the identities.

While an item of an array is edited, its identity is read off the half-edited object: the fields
before the current key already have their new value (`mixedText`).
-/

namespace Ai00.Revision

open Json

/-! ## The strings of an object -/

def texts : Json → Str → Option Str
  | .obj fields, k => (Dict.get? fields k).bind asStr
  | _, _ => none

theorem texts_obj (fs : List (Str × Json)) (k : Str) : texts (.obj fs) k = (Dict.get? fs k).bind asStr := rfl

theorem identity_eq (v : Json) : identity v = identityOf (texts v) := by
  cases v with
  | obj fs => rfl
  | _ => rfl

/-- The strings in force when the changes of key `k` are made. -/
def mixedText (old new : Json) (k q : Str) : Option Str :=
  if q < k then texts new q else texts old q

/-! ## One field -/

/-- What the changes of one field make of it. -/
def FieldOutcome (inner : Json → Json → List Edit) : Option Json → Option Json → Option Json → Prop
  | some old, some new, o => ∃ u, Reaches (inner old new) old u ∧ o = some u
  | _, new, o => o = new

/-- The recursion a loop needs: every edit in place, a steady shape, and strings as proposed. -/
structure Descends (inner : Json → Json → List Edit) (v w : Json) : Prop where
  wellPlaced : ∀ e ∈ inner v w, e.WellPlaced
  steady : inner v w = [] ∨ Steady (inner v w) v
  strings : ∀ u, Reaches (inner v w) v u → asStr u = asStr w

def setField (k : Str) (o : Option Json) (fields : List (Str × Json)) : List (Str × Json) :=
  match o with
  | some v => Dict.insert k v fields
  | none => Dict.erase k fields

theorem get?_setField (k q : Str) (o : Option Json) (h : List (Str × Json)) :
    Dict.get? (setField k o h) q = if q = k then o else Dict.get? h q := by
  cases o with
  | none =>
    by_cases hq : q = k
    · subst hq
      simp [setField]
    · simp [setField, hq, Dict.get?_erase_of_ne]
  | some v => simp [setField, Dict.get?_insert]

variable {h : List (Str × Json)}

theorem sorted_setField (hs : Dict.Sorted h) (k : Str)
    (o : Option Json) : Dict.Sorted (setField k o h) := by
  cases o with
  | none => exact hs.erase k
  | some v => exact hs.insert k v

theorem add_apply {k : Str} (hk : Dict.get? h k = none) (w r : Json) :
    (addField k w).apply (.obj h) = .ok r ↔ r = .obj (Dict.insert k w h) := by
  rw [Edit.apply_of_inner (Or.inl (by simp [addField]))]
  simp [addField, applyAt, modifyAt, editField, hk, eq_comm]

theorem remove_apply {k : Str} {v : Json}
    (hk : Dict.get? h k = some v) (r : Json) :
    (removeField k v).apply (.obj h) = .ok r ↔ r = .obj (Dict.erase k h) := by
  rw [Edit.apply_of_inner (Or.inl (by simp [removeField]))]
  simp [removeField, applyAt, modifyAt, editField, hk, eq_comm]

variable {r : Json} {G : (Str → Option Str) → Prop}

theorem replays_fieldEdits {inner : Json → Json → List Edit}
    (hs : Dict.Sorted h) {k : Str} {old new : Option Json}
    (hk : Dict.get? h k = old)
    (hin : ∀ v w, old = some v → new = some w → Descends inner v w) :
    Replays (fun v => G (texts v)) (fieldEdits inner k old new) (.obj h) r
      ↔ (fieldEdits inner k old new ≠ [] → G (texts (.obj h)))
        ∧ ∃ o, FieldOutcome inner old new o ∧ r = .obj (setField k o h) := by
  cases old with
  | none =>
    cases new with
    | none =>
      have herase : Dict.erase k h = h := by
        refine Dict.ext (hs.erase k) hs (fun q => ?_)
        by_cases hq : q = k
        · rw [hq, Dict.get?_erase_self, hk]
        · rw [Dict.get?_erase_of_ne h hq]
      simp [fieldEdits, Replays, FieldOutcome, setField, herase, eq_comm]
    | some w =>
      simp only [fieldEdits, replays_single, add_apply hk, FieldOutcome]
      simp [setField]
  | some v =>
    cases new with
    | none =>
      simp only [fieldEdits, replays_single, remove_apply hk, FieldOutcome]
      simp [setField]
    | some w =>
      obtain ⟨hwell, hsteady, -⟩ := hin v w rfl rfl
      have hself : Dict.insert k v h = h := Dict.insert_of_get? hs hk
      -- within the field only its own value changes, and never a string
      have hguard : ∀ u x, asStr u = asStr x → G (texts (.obj (Dict.insert k u h)))
          → G (texts (.obj (Dict.insert k x h))) := by
        intro u x hux hG
        have htexts : texts (.obj (Dict.insert k u h)) = texts (.obj (Dict.insert k x h)) := by
          funext q
          rw [texts_obj, texts_obj, Dict.get?_insert, Dict.get?_insert]
          split_ifs
          · exact hux
          · rfl
        rwa [← htexts]
      simp only [fieldEdits, FieldOutcome]
      rw [replays_under_obj hwell hs hk]
      rcases hsteady with hnil | hst
      · simp [hnil, Reaches, Replays, setField]
      · simp only [replays_of_steady hguard hst, hself, List.map_eq_nil_iff, ne_eq]
        constructor
        · rintro ⟨u, ⟨hg, hu⟩, rfl⟩
          exact ⟨hg, some u, ⟨u, hu, rfl⟩, rfl⟩
        · rintro ⟨hg, o, ⟨u, hu, rfl⟩, rfl⟩
          exact ⟨u, ⟨hg, hu⟩, rfl⟩

theorem asStr_fieldOutcome {inner : Json → Json → List Edit} {old new o : Option Json}
    (hin : ∀ v w, old = some v → new = some w → Descends inner v w)
    (h : FieldOutcome inner old new o) : o.bind asStr = new.bind asStr := by
  cases old with
  | none => rw [show o = new from h]
  | some v =>
    cases new with
    | none => rw [show o = none from h]
    | some w =>
      obtain ⟨u, hu, rfl⟩ := h
      exact (hin v w rfl rfl).strings u hu

/-! ## All fields -/

section

variable {inner : Json → Json → List Edit} {f g : List (Str × Json)}

/-- The loop over a sorted list of keys. Keys before it are done: their strings are those of
`g`; keys in it are as in `f`. The induction is on the list. -/
theorem replays_fields {ks : List Str}
    (hks : ks.Pairwise (· < ·))
    (hin : ∀ k v w, Dict.get? f k = some v → Dict.get? g k = some w → Descends inner v w)
    (hs : Dict.Sorted h)
    (htodo : ∀ k ∈ ks, Dict.get? h k = Dict.get? f k)
    (hdone : ∀ q, q ∉ ks → texts (.obj h) q = texts (.obj g) q)
    (hbefore : ∀ q, q ∉ ks → (∀ k ∈ ks, q < k) ∨ texts (.obj f) q = texts (.obj g) q) :
    Replays (fun v => G (texts v))
        (ks.flatMap fun k => fieldEdits inner k (Dict.get? f k) (Dict.get? g k)) (.obj h) r
      ↔ (∀ k ∈ ks, fieldEdits inner k (Dict.get? f k) (Dict.get? g k) ≠ [] → G (mixedText (.obj f) (.obj g) k))
        ∧ ∃ h', r = .obj h' ∧ Dict.Sorted h' ∧ (∀ q, q ∉ ks → Dict.get? h' q = Dict.get? h q)
          ∧ ∀ k ∈ ks, FieldOutcome inner (Dict.get? f k) (Dict.get? g k) (Dict.get? h' k) := by
  induction ks generalizing h r with
  | nil =>
    simp only [List.flatMap_nil, Replays, List.not_mem_nil, false_implies, implies_true,
      true_and, and_true, not_false_eq_true, true_implies]
    constructor
    · rintro rfl
      exact ⟨h, rfl, hs, fun q => rfl⟩
    · rintro ⟨h', rfl, hs', heq⟩
      rw [Dict.ext hs hs' (fun q => (heq q).symm)]
  | cons k ks ih =>
    rw [List.pairwise_cons] at hks
    have hnot : k ∉ ks := fun hmem => lt_irrefl k (hks.1 k hmem)
    have hk : Dict.get? h k = Dict.get? f k := htodo k (by simp)
    have htexts : texts (.obj h) = mixedText (.obj f) (.obj g) k := by
      funext q
      unfold mixedText
      by_cases hq : q ∈ k :: ks
      · have hge : ¬ q < k := by
          rcases List.mem_cons.mp hq with rfl | hq
          · exact lt_irrefl q
          · exact not_lt_of_gt (hks.1 q hq)
        rw [if_neg hge, texts_obj, texts_obj, htodo q hq]
      · rw [hdone q hq]
        rcases hbefore q hq with hlt | heq
        · rw [if_pos (hlt k (by simp))]
        · rw [heq, ite_self]
    -- the state after the changes of `k` meets the hypotheses for the remaining keys
    have htodo' : ∀ o, ∀ q ∈ ks, Dict.get? (setField k o h) q = Dict.get? f q := by
      intro o q hq
      have hqk : q ≠ k := by
        rintro rfl
        exact hnot hq
      rw [get?_setField, if_neg hqk, htodo q (by simp [hq])]
    have hdone' : ∀ o, FieldOutcome inner (Dict.get? f k) (Dict.get? g k) o →
        ∀ q, q ∉ ks → texts (.obj (setField k o h)) q = texts (.obj g) q := by
      intro o ho q hq
      by_cases hqk : q = k
      · subst hqk
        rw [texts_obj, get?_setField, if_pos rfl, texts_obj]
        exact asStr_fieldOutcome (hin q) ho
      · rw [texts_obj, get?_setField, if_neg hqk, ← texts_obj]
        exact hdone q (by simp [hqk, hq])
    have hbefore' : ∀ q, q ∉ ks →
        (∀ k ∈ ks, q < k) ∨ texts (.obj f) q = texts (.obj g) q := by
      intro q hq
      by_cases hqk : q = k
      · subst hqk
        exact Or.inl hks.1
      · refine (hbefore q (by simp [hqk, hq])).imp_left (fun hlt => ?_)
        exact fun x hx => hlt x (by simp [hx])
    rw [List.flatMap_cons, replays_append]
    simp only [replays_fieldEdits hs hk (hin k), htexts]
    constructor
    · rintro ⟨u, ⟨hG, o, ho, rfl⟩, hr⟩
      obtain ⟨hGs, h', rfl, hs', hkeep, hout⟩ :=
        (ih hks.2 (sorted_setField hs k o) (htodo' o) (hdone' o ho) hbefore').mp hr
      refine ⟨List.forall_mem_cons.mpr ⟨hG, hGs⟩, h', rfl, hs', fun q hq => ?_,
        List.forall_mem_cons.mpr ⟨?_, hout⟩⟩
      · rw [List.mem_cons, not_or] at hq
        rw [hkeep q hq.2, get?_setField, if_neg hq.1]
      · rw [hkeep k hnot, get?_setField, if_pos rfl]
        exact ho
    · rintro ⟨hGs, h', rfl, hs', hkeep, hout⟩
      rw [List.forall_mem_cons] at hGs hout
      refine ⟨_, ⟨hGs.1, Dict.get? h' k, hout.1, rfl⟩,
        (ih hks.2 (sorted_setField hs k _) (htodo' _) (hdone' _ hout.1) hbefore').mpr
          ⟨hGs.2, h', rfl, hs', fun q hq => ?_, hout.2⟩⟩
      rw [get?_setField]
      split_ifs with hqk
      · rw [hqk]
      · exact hkeep q (by simp [hqk, hq])

end

/-! ## The order of the identities -/

/-- What the changes of one identity do to the identities of an array. -/
def arrangeStep (oldIds newIds L : List Str) (i : Str) : List Str :=
  if i ∈ oldIds then
    if i ∈ newIds then
      if oldIds.idxOf i = newIds.idxOf i then L else pyInsert (newIds.idxOf i) i (L.erase i)
    else L.erase i
  else pyInsert (newIds.idxOf i) i L

/-- Removals, additions and moves to the proposed index, one identity after the other in
increasing order. -/
def arrange (oldIds newIds : List Str) : List Str :=
  (Dict.sortedUnion oldIds newIds).foldl (arrangeStep oldIds newIds) oldIds

example : arrange [] ["c".toList, "b".toList, "a".toList]
    = ["c".toList, "a".toList, "b".toList] := by decide

theorem pyInsert_perm {α : Type} (n : Nat) (x : α) (l : List α) :
    (pyInsert n x l).Perm (x :: l) := by
  unfold pyInsert
  have h : (l.take n ++ x :: l.drop n).Perm (x :: (l.take n ++ l.drop n)) := List.perm_middle
  rwa [List.take_append_drop] at h

theorem map_pyInsert {α β : Type} (f : α → β) (n : Nat) (x : α) (l : List α) :
    (pyInsert n x l).map f = pyInsert n (f x) (l.map f) := by
  simp [pyInsert]

theorem nodup_pyInsert {n : Nat} {i : Str} {L : List Str} (hL : L.Nodup) (hi : i ∉ L) :
    (pyInsert n i L).Nodup :=
  (pyInsert_perm n i L).nodup_iff.mpr (List.nodup_cons.mpr ⟨hi, hL⟩)

theorem mem_pyInsert {n : Nat} {i j : Str} {L : List Str} :
    j ∈ pyInsert n i L ↔ j = i ∨ j ∈ L := by
  rw [(pyInsert_perm n i L).mem_iff, List.mem_cons]

theorem mem_arrangeStep_of_ne {oldIds newIds L : List Str} (hL : L.Nodup) {i j : Str}
    (hji : j ≠ i) : j ∈ arrangeStep oldIds newIds L i ↔ j ∈ L := by
  unfold arrangeStep
  split_ifs
  · rfl
  · simp [mem_pyInsert, hL.mem_erase_iff, hji]
  · simp [hL.mem_erase_iff, hji]
  · simp [mem_pyInsert, hji]

theorem nodup_arrangeStep {oldIds newIds L : List Str} (hL : L.Nodup) {i : Str}
    (hi : i ∈ L ↔ i ∈ oldIds) : (arrangeStep oldIds newIds L i).Nodup := by
  unfold arrangeStep
  split_ifs with h1 h2 h3
  · exact hL
  · exact nodup_pyInsert (hL.erase i) hL.not_mem_erase
  · exact hL.erase i
  · exact nodup_pyInsert hL (fun h => h1 (hi.mp h))

/-! ## One item -/

/-- What the changes of one identity make of the item that carries it. -/
def ItemOutcome (inner : Json → Json → List Edit) (i : Str) :
    Option Json → Option Json → Json → Prop
  | some old, some new, c => Replays (fun v => identity v = some i) (inner old new) old c
  | some old, none, c => c = old
  | none, some new, c => c = new
  | none, none, _ => False

section

variable {L : List Str} {cur : Str → Json} {i : Str}

theorem map_update_of_not_mem (hi : i ∉ L) (u : Json) : L.map (Function.update cur i u) = L.map cur := by
  refine List.map_congr_left fun q hq => ?_
  have hne : q ≠ i := by
    rintro rfl
    exact hi hq
  rw [Function.update_of_ne hne]

theorem addItem_apply (n : Nat) (w : Json) (xs : List Json) :
    (addItem i n w).apply (.arr xs) = if (xs.find? (fun item => identity item = some i)).isSome then
          .error (.valueError "changeset adds an existing identity")
        else .ok (.arr (pyInsert n w xs)) := rfl

theorem removeItem_apply (n : Nat) (v : Json) (xs : List Json) :
    (removeItem i n v).apply (.arr xs) = if (xs.find? (fun item => identity item = some i)).isNone then
          .error (.valueError "changeset removes a missing identity")
        else .ok (.arr (xs.eraseIdx (xs.findIdx (fun item => identity item = some i)))) := rfl

theorem moveItem_apply (m n : Nat) {xs : List Json} {v : Json}
    (h : xs.find? (fun item => identity item = some i) = some v) :
    (moveItem i m n).apply (.arr xs) = .ok (.arr (pyInsert n v
          (xs.eraseIdx (xs.findIdx (fun item => identity item = some i))))) := by
  have hedit : (moveItem i m n).apply (.arr xs) = editCollection (moveItem i m n).2 i (.arr xs) := rfl
  rw [hedit, editCollection]
  dsimp only [moveItem]
  rw [h]

theorem add_apply_arr (hcur : ∀ j ∈ L, identity (cur j) = some j) (hi : i ∉ L) (n : Nat)
    (w : Json) :
    (addItem i n w).apply (.arr (L.map cur)) = .ok (.arr ((pyInsert n i L).map (Function.update cur i w))) := by
  have hfind : (L.map cur).find? (fun item => decide (identity item = some i)) = none := by
    rw [List.find?_eq_none]
    intro x hx
    obtain ⟨j, hj, rfl⟩ := List.mem_map.mp hx
    have hne : j ≠ i := by
      rintro rfl
      exact hi hj
    rw [hcur j hj]
    simpa using hne
  rw [addItem_apply, hfind, map_pyInsert, map_update_of_not_mem hi, Function.update_self]
  rfl

theorem eraseIdx_idxOf_map :
    (L.map cur).eraseIdx (L.idxOf i) = (L.erase i).map cur := by
  rw [List.eraseIdx_map, List.eraseIdx_idxOf_eq_erase]

theorem remove_apply_arr (hL : L.Nodup) (hcur : ∀ j ∈ L, identity (cur j) = some j)
    (hi : i ∈ L) (n : Nat) (v : Json) :
    (removeItem i n v).apply (.arr (L.map cur)) = .ok (.arr ((L.erase i).map cur)) := by
  obtain ⟨hfind, hidx⟩ := find?_identity hL (fun j hj _ => hcur j hj) hi (hcur i hi)
  rw [removeItem_apply, hfind, hidx, eraseIdx_idxOf_map]
  rfl

theorem move_apply_arr (hL : L.Nodup) (hcur : ∀ j ∈ L, identity (cur j) = some j)
    (hi : i ∈ L) (m n : Nat) :
    (moveItem i m n).apply (.arr (L.map cur)) = .ok (.arr ((pyInsert n i (L.erase i)).map cur)) := by
  obtain ⟨hfind, hidx⟩ := find?_identity hL (fun j hj _ => hcur j hj) hi (hcur i hi)
  rw [moveItem_apply m n hfind, hidx, eraseIdx_idxOf_map, map_pyInsert]

variable {oldIds newIds : List Str}

theorem reaches_moveEdit (hL : L.Nodup)
    (hcur : ∀ j ∈ L, identity (cur j) = some j) (hi : i ∈ L) (hold : i ∈ oldIds)
    (hnew : i ∈ newIds) :
    Reaches (moveEdit oldIds newIds i) (.arr (L.map cur)) r
      ↔ r = .arr ((arrangeStep oldIds newIds L i).map cur) := by
  unfold moveEdit arrangeStep
  by_cases hidx : oldIds.idxOf i = newIds.idxOf i
  · simp [hidx, hold, hnew, Reaches, Replays, eq_comm]
  · simp [hidx, hold, hnew, Reaches, replays_single, move_apply_arr hL hcur hi, eq_comm]

theorem reaches_itemEdits {inner : Json → Json → List Edit}
    {old new : Option Json} (hold : i ∈ oldIds ↔ old ≠ none) (hnew : i ∈ newIds ↔ new ≠ none)
    (hany : i ∈ oldIds ∨ i ∈ newIds) (hL : L.Nodup) (hcur : ∀ j ∈ L, identity (cur j) = some j)
    (hi : i ∈ L ↔ i ∈ oldIds) (hv : ∀ v, old = some v → cur i = v)
    (hin : ∀ v w, old = some v → new = some w → ∀ e ∈ inner v w, e.Inner) :
    Reaches (itemEdits inner oldIds newIds i old new) (.arr (L.map cur)) r ↔ ∃ c, ItemOutcome inner i old new c
          ∧ r = .arr ((arrangeStep oldIds newIds L i).map (Function.update cur i c)) := by
  cases old with
  | none =>
    have hio : i ∉ oldIds := fun h => hold.mp h rfl
    have hiL : i ∉ L := fun h => hio (hi.mp h)
    cases new with
    | none => exact absurd rfl (hnew.mp (hany.resolve_left hio))
    | some w =>
      rw [itemEdits, Reaches, replays_single, add_apply_arr hcur hiL]
      simp [ItemOutcome, arrangeStep, hio, eq_comm]
  | some v =>
    have hio : i ∈ oldIds := hold.mpr (by simp)
    have hiL : i ∈ L := hi.mpr hio
    have hself : Function.update cur i v = cur := by
      rw [← hv v rfl, Function.update_eq_self]
    cases new with
    | none =>
      have hin' : i ∉ newIds := fun h => hnew.mp h rfl
      rw [itemEdits, Reaches, replays_single, remove_apply_arr hL hcur hiL]
      simp [ItemOutcome, arrangeStep, hio, hin', hself, eq_comm]
    | some w =>
      have hin' : i ∈ newIds := hnew.mpr (by simp)
      have hnd : (arrangeStep oldIds newIds L i).Nodup := nodup_arrangeStep hL hi
      have hmem : ∀ j ∈ arrangeStep oldIds newIds L i, j ≠ i → identity (cur j) = some j :=
        fun j hj hji => hcur j ((mem_arrangeStep_of_ne hL hji).mp hj)
      have hmi : i ∈ arrangeStep oldIds newIds L i := by
        unfold arrangeStep
        rw [if_pos hio, if_pos hin']
        split_ifs
        · exact hiL
        · exact mem_pyInsert.mpr (Or.inl rfl)
      rw [itemEdits, Reaches, replays_append]
      have hcuri : cur i = v := hv v rfl
      simp only [reaches_moveEdit hL hcur hiL hio hin', exists_eq_left,
        reaches_under_arr (hin v w rfl rfl) hnd hmem hmi, ItemOutcome, hcuri]

theorem reaches_items {inner : Json → Json → List Edit}
    {old new : Str → Option Json} (hold : ∀ i, i ∈ oldIds ↔ old i ≠ none)
    (hnew : ∀ i, i ∈ newIds ↔ new i ≠ none)
    (hin : ∀ i v w, old i = some v → new i = some w → ∀ e ∈ inner v w, e.Inner)
    (hout : ∀ i c, ItemOutcome inner i (old i) (new i) c → identity c = some i)
    {is : List Str} (his : is.Nodup) (hany : ∀ i ∈ is, i ∈ oldIds ∨ i ∈ newIds)
    (hL : L.Nodup) (hcur : ∀ j ∈ L, identity (cur j) = some j)
    (hmem : ∀ i ∈ is, (i ∈ L ↔ i ∈ oldIds)) (hv : ∀ i ∈ is, ∀ v, old i = some v → cur i = v) :
    Reaches (is.flatMap fun i => itemEdits inner oldIds newIds i (old i) (new i))
        (.arr (L.map cur)) r
      ↔ ∃ cur', (∀ j, j ∉ is → cur' j = cur j) ∧ (∀ i ∈ is, ItemOutcome inner i (old i) (new i) (cur' i))
          ∧ r = .arr ((is.foldl (arrangeStep oldIds newIds) L).map cur') := by
  induction is generalizing L cur with
  | nil =>
    simp only [List.flatMap_nil, Reaches, Replays, List.foldl_nil, List.not_mem_nil,
      false_implies, implies_true, true_and, not_false_eq_true, true_implies]
    constructor
    · rintro rfl
      exact ⟨cur, fun j => rfl, rfl⟩
    · rintro ⟨cur', heq, rfl⟩
      rw [show cur' = cur from funext heq]
  | cons i is ih =>
    rw [List.nodup_cons] at his
    have hi := hmem i (by simp)
    -- the state after the changes of `i` meets the hypotheses for the remaining identities
    have hne : ∀ j ∈ is, j ≠ i := by
      rintro j hj rfl
      exact his.1 hj
    have hcur' : ∀ c, ItemOutcome inner i (old i) (new i) c →
        ∀ j ∈ arrangeStep oldIds newIds L i, identity (Function.update cur i c j) = some j := by
      intro c hc j hj
      by_cases hji : j = i
      · subst hji
        rw [Function.update_self]
        exact hout j c hc
      · rw [Function.update_of_ne hji]
        exact hcur j ((mem_arrangeStep_of_ne hL hji).mp hj)
    have hmem' : ∀ j ∈ is, (j ∈ arrangeStep oldIds newIds L i ↔ j ∈ oldIds) := by
      intro j hj
      rw [mem_arrangeStep_of_ne hL (hne j hj)]
      exact hmem j (by simp [hj])
    have hv' : ∀ c, ∀ j ∈ is, ∀ v, old j = some v → Function.update cur i c j = v := by
      intro c j hj v hjv
      rw [Function.update_of_ne (hne j hj)]
      exact hv j (by simp [hj]) v hjv
    have hnext := fun c hc => @ih (arrangeStep oldIds newIds L i) (Function.update cur i c)
      his.2 (fun j hj => hany j (by simp [hj])) (nodup_arrangeStep hL hi) (hcur' c hc) hmem'
      (hv' c)
    rw [List.flatMap_cons, Reaches, replays_append]
    simp only [List.foldl_cons, reaches_itemEdits (hold i) (hnew i) (hany i (by simp)) hL hcur
      hi (hv i (by simp)) (hin i)]
    constructor
    · rintro ⟨u, ⟨c, hc, rfl⟩, hr⟩
      obtain ⟨cur', hkeep, hitems, rfl⟩ := (hnext c hc).mp hr
      have hself : cur' i = c := by
        rw [hkeep i his.1, Function.update_self]
      refine ⟨cur', fun j hj => ?_, List.forall_mem_cons.mpr ⟨?_, hitems⟩, rfl⟩
      · rw [List.mem_cons, not_or] at hj
        rw [hkeep j hj.2, Function.update_of_ne hj.1]
      · rwa [hself]
    · rintro ⟨cur', hkeep, hitems, rfl⟩
      rw [List.forall_mem_cons] at hitems
      refine ⟨_, ⟨cur' i, hitems.1, rfl⟩, (hnext _ hitems.1).mpr ⟨cur', fun j hj => ?_, hitems.2, rfl⟩⟩
      by_cases hji : j = i
      · rw [hji, Function.update_self]
      · rw [Function.update_of_ne hji]
        exact hkeep j (by simp [hji, hj])

end

end Ai00.Revision
