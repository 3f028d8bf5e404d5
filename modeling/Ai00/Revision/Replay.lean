import Ai00.Revision.Edits

/-! # The edits of a diff and what they do

`edits` is the recursion of `_diff` with relative keys in place of path texts
(`diffAux_eq_edits`). `reaches_fieldEdits` follows the loop over the keys of two objects,
`reaches_itemEdits` the loop over the identities of two arrays: the first says which dictionary
the loop leaves, the second which identities stand where, and both say when the loop gets
through.
-/

namespace Ai00.Revision

open Json

/-! ## The edits of `_diff` -/

def addField (key : Str) (new : Json) : Edit :=
  ⟨[key], { changeType := .add, path := [], after := new }⟩

def removeField (key : Str) (old : Json) : Edit :=
  ⟨[key], { changeType := .remove, path := [], before := old }⟩

def fieldEdits (inner : Json → Json → List Edit) (key : Str) :
    Option Json → Option Json → List Edit
  | none, some new => [addField key new]
  | some old, none => [removeField key old]
  | some old, some new => (inner old new).map (Edit.under key)
  | none, none => []

def addItem (i : Str) (toIndex : Nat) (new : Json) : Edit :=
  ⟨[], { changeType := .add, path := [], after := new, identity := some i,
         toIndex := some toIndex }⟩

def removeItem (i : Str) (fromIndex : Nat) (old : Json) : Edit :=
  ⟨[], { changeType := .remove, path := [], before := old, identity := some i,
         fromIndex := some fromIndex }⟩

def moveItem (i : Str) (fromIndex toIndex : Nat) : Edit :=
  ⟨[], { changeType := .move, path := [], identity := some i, fromIndex := some fromIndex,
         toIndex := some toIndex }⟩

def moveEdit (oldIds newIds : List Str) (i : Str) : List Edit :=
  if oldIds.idxOf i ≠ newIds.idxOf i then [moveItem i (oldIds.idxOf i) (newIds.idxOf i)] else []

def itemEdits (inner : Json → Json → List Edit) (oldIds newIds : List Str) (i : Str) :
    Option Json → Option Json → List Edit
  | none, some new => [addItem i (newIds.idxOf i) new]
  | some old, none => [removeItem i (oldIds.idxOf i) old]
  | some old, some new => moveEdit oldIds newIds i ++ (inner old new).map (Edit.under i)
  | none, none => []

def replaceEdit (before after : Json) : Edit :=
  ⟨[], { changeType := .replace, path := [], before, after }⟩

/-- `_diff`, with every change placed relative to the two values. -/
def edits : Nat → Json → Json → List Edit
  | 0, _, _ => []
  | n + 1, before, after =>
    if pyEq before after then []
    else
      match before, after with
      | .obj fs, .obj gs =>
        (Dict.sortedUnion (Dict.keys fs) (Dict.keys gs)).flatMap fun key =>
          fieldEdits (edits n) key (Dict.get? fs key) (Dict.get? gs key)
      | .arr xs, .arr ys =>
        match identities xs, identities ys with
        | some oldIds, some newIds =>
          if oldIds.Nodup ∧ newIds.Nodup then
            (Dict.sortedUnion oldIds newIds).flatMap fun i =>
              itemEdits (edits n) oldIds newIds i (Dict.get? (oldIds.zip xs) i)
                (Dict.get? (newIds.zip ys) i)
          else [replaceEdit before after]
        | _, _ => [replaceEdit before after]
      | _, _ => [replaceEdit before after]

/-- The change an edit stands for when its value is found at `path`. -/
def Edit.at (path : Str) (e : Edit) : Change :=
  { e.change with
    path := if path ++ renderPath e.keys = [] ∧ e.change.identity = none then ['/']
      else path ++ renderPath e.keys }

theorem Edit.at_under (path : Str) (k : Str) (e : Edit) :
    (e.under k).at path = e.at (path ++ '/' :: escape k) := by
  have h : path ++ renderPath (k :: e.keys) = path ++ '/' :: escape k ++ renderPath e.keys := by
    simp [renderPath_cons]
  simp [Edit.at, h]

theorem at_replaceEdit (before after : Json) (path : Str) :
    [replaceEdit before after].map (Edit.at path) = replaceWhole before after path := by
  simp [replaceEdit, replaceWhole, Edit.at]

theorem map_at_itemEdits {n : Nat} {path : Str}
    (hunder : ∀ (k : Str) (v w : Json), diffAux n v w (path ++ '/' :: escape k)
      = ((edits n v w).map (Edit.under k)).map (Edit.at path))
    (oldIds newIds : List Str) (xs ys : List Json) :
    ((Dict.sortedUnion oldIds newIds).flatMap fun i =>
        match Dict.get? (oldIds.zip xs) i, Dict.get? (newIds.zip ys) i with
        | none, some new =>
          [{ changeType := ChangeType.add, path, after := new, identity := some i,
             toIndex := some (newIds.idxOf i) }]
        | some old, none =>
          [{ changeType := .remove, path, before := old, identity := some i,
             fromIndex := some (oldIds.idxOf i) }]
        | some old, some new =>
          (if oldIds.idxOf i ≠ newIds.idxOf i then
            [{ changeType := .move, path, identity := some i,
               fromIndex := some (oldIds.idxOf i), toIndex := some (newIds.idxOf i) }]
          else []) ++ diffAux n old new (path ++ '/' :: escape i)
        | none, none => [])
      = ((Dict.sortedUnion oldIds newIds).flatMap fun i =>
          itemEdits (edits n) oldIds newIds i (Dict.get? (oldIds.zip xs) i)
            (Dict.get? (newIds.zip ys) i)).map (Edit.at path) := by
  rw [List.map_flatMap]
  refine List.flatMap_congr fun i _ => ?_
  cases hf : Dict.get? (oldIds.zip xs) i with
  | none =>
    cases hg : Dict.get? (newIds.zip ys) i with
    | none => simp [itemEdits]
    | some w => simp [itemEdits, addItem, Edit.at]
  | some v =>
    cases hg : Dict.get? (newIds.zip ys) i with
    | none => simp [itemEdits, removeItem, Edit.at]
    | some w =>
      simp only [itemEdits, hunder, List.map_append]
      congr 1
      unfold moveEdit
      split_ifs with hidx
      · simp [moveItem, Edit.at]
      · rfl

/-- `_diff` records the edits, each at its place. -/
theorem diffAux_eq_edits (n : Nat) (b a : Json) (path : Str) :
    diffAux n b a path = (edits n b a).map (Edit.at path) := by
  induction n generalizing b a path with
  | zero => rfl
  | succ n ih =>
    have hunder : ∀ (k : Str) (v w : Json), diffAux n v w (path ++ '/' :: escape k)
        = ((edits n v w).map (Edit.under k)).map (Edit.at path) := by
      intro k v w
      rw [ih, List.map_map]
      exact List.map_congr_left fun e _ => (Edit.at_under path k e).symm
    unfold diffAux edits
    split_ifs with heq
    · rfl
    · cases b with
      | obj fs =>
        cases a with
        | obj gs =>
          simp only [List.map_flatMap]
          refine List.flatMap_congr fun k _ => ?_
          cases hf : Dict.get? fs k with
          | none =>
            cases hg : Dict.get? gs k with
            | none => simp [fieldEdits]
            | some w => simp [fieldEdits, addField, Edit.at, renderPath_cons]
          | some v =>
            cases hg : Dict.get? gs k with
            | none => simp [fieldEdits, removeField, Edit.at, renderPath_cons]
            | some w => simp only [fieldEdits, hunder]
        | _ => exact (at_replaceEdit _ _ path).symm
      | arr xs =>
        cases a with
        | arr ys =>
          cases hx : identities xs with
          | none =>
            simp only [hx]
            exact (at_replaceEdit _ _ path).symm
          | some oldIds =>
            cases hy : identities ys with
            | none =>
              simp only [hx, hy]
              exact (at_replaceEdit _ _ path).symm
            | some newIds =>
              simp only [hx, hy]
              split_ifs with hnd
              · exact map_at_itemEdits hunder oldIds newIds xs ys
              · exact (at_replaceEdit _ _ path).symm
        | _ => exact (at_replaceEdit _ _ path).symm
      | _ => exact (at_replaceEdit _ _ path).symm

/-! ## The shape of the edits -/

theorem inner_moveEdit {oldIds newIds : List Str} {i : Str} {e : Edit}
    (he : e ∈ moveEdit oldIds newIds i) : e.Inner := by
  unfold moveEdit at he
  split_ifs at he
  · rw [List.mem_singleton] at he
    subst he
    exact Or.inr (by simp [moveItem])
  · cases he

variable {inner : Json → Json → List Edit}

variable {old new : Option Json}

theorem head_fieldEdits {k : Str} {e : Edit} (he : e ∈ fieldEdits inner k old new) : ∃ ks, e.keys = k :: ks := by
  cases old with
  | none =>
    cases new with
    | none => cases he
    | some w =>
      rw [List.mem_singleton.mp he]
      exact ⟨[], rfl⟩
  | some v =>
    cases new with
    | none =>
      rw [List.mem_singleton.mp he]
      exact ⟨[], rfl⟩
    | some w =>
      obtain ⟨x, -, rfl⟩ := List.mem_map.mp he
      exact ⟨x.keys, rfl⟩

theorem inner_fieldEdits {k : Str} {e : Edit} (he : e ∈ fieldEdits inner k old new) : e.Inner := by
  obtain ⟨ks, hks⟩ := head_fieldEdits he
  exact Or.inl (by simp [hks])

theorem inner_itemEdits {oldIds newIds : List Str} {i : Str}
    {e : Edit} (he : e ∈ itemEdits inner oldIds newIds i old new) :
    e.Inner := by
  cases old with
  | none =>
    cases new with
    | none => cases he
    | some w =>
      rw [itemEdits, List.mem_singleton] at he
      subst he
      exact Or.inr (by simp [addItem])
  | some v =>
    cases new with
    | none =>
      rw [itemEdits, List.mem_singleton] at he
      subst he
      exact Or.inr (by simp [removeItem])
    | some w =>
      rw [itemEdits, List.mem_append, List.mem_map] at he
      rcases he with he | ⟨x, -, rfl⟩
      · exact inner_moveEdit he
      · exact x.inner_under i

theorem wellPlaced_replaceEdit (b a : Json) : (replaceEdit b a).WellPlaced := Or.inr rfl

/-- Two values that `_diff` does not descend into are replaced; otherwise every edit is
inside. -/
theorem edits_shape (n : Nat) (b a : Json) : edits n b a = [replaceEdit b a] ∨ edits n b a = []
      ∨ (asStr b = none ∧ ∀ e ∈ edits n b a, e.Inner) := by
  cases n with
  | zero => exact Or.inr (Or.inl rfl)
  | succ n =>
    unfold edits
    split_ifs with heq
    · exact Or.inr (Or.inl rfl)
    · cases b with
      | obj fs =>
        cases a with
        | obj gs =>
          refine Or.inr (Or.inr ⟨rfl, fun e he => ?_⟩)
          obtain ⟨k, -, hk⟩ := List.mem_flatMap.mp he
          exact inner_fieldEdits hk
        | _ => exact Or.inl rfl
      | arr xs =>
        cases a with
        | arr ys =>
          simp only
          split
          · split_ifs
            · refine Or.inr (Or.inr ⟨rfl, fun e he => ?_⟩)
              obtain ⟨k, -, hk⟩ := List.mem_flatMap.mp he
              exact inner_itemEdits hk
            · exact Or.inl rfl
          · exact Or.inl rfl
        | _ => exact Or.inl rfl
      | _ => exact Or.inl rfl

theorem wellPlaced_edits (n : Nat) (b a : Json) : ∀ e ∈ edits n b a, e.WellPlaced := by
  rcases edits_shape n b a with h | h | ⟨-, h⟩
  · rw [h]
    intro e he
    rw [List.mem_singleton] at he
    rw [he]
    exact wellPlaced_replaceEdit b a
  · rw [h]
    intro e he
    cases he
  · exact fun e he => Or.inl (h e he)

theorem steady_edits (n : Nat) (b a : Json) : edits n b a = [] ∨ Steady (edits n b a) b := by
  rcases edits_shape n b a with h | h | h
  · exact Or.inr (Or.inl ⟨_, h⟩)
  · exact Or.inl h
  · exact Or.inr (Or.inr h)

end Ai00.Revision
