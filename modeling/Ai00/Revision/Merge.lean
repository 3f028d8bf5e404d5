import Ai00.Revision.Adapter

/-! # Three-way merge

`three_way_merge` of `revision/merge.py`. A place that a document lacks is the sentinel
`_MISSING` there and `none` here. `copy.deepcopy` makes a new object out of the sentinel, which
is not the sentinel any more (`deepcopy`); the test that keeps a deleted key out of the result
compares with the sentinel itself.
-/

namespace Ai00.Revision

open Json

variable (pf : Platform)

structure MergeConflict where
  path : Str
  kind : Str
  base : Json := .null
  ours : Json := .null
  theirs : Json := .null
  deriving DecidableEq

/-- The field checks of `MergeConflict`. -/
def MergeConflict.validate (c : MergeConflict) : Except PyError MergeConflict :=
  if ¬ isPath c.path then .error (.validationError "path")
  else if c.kind.length < 1 ∨ 64 < c.kind.length then .error (.validationError "kind")
  else .ok c

/-- `copy.deepcopy` on a value or the sentinel. -/
def deepcopy : Option Json → Option Json
  | some v => some v
  | none => some (.other "object")

/-- `_public`. -/
def publicValue : Option Json → Json
  | some v => v
  | none => .null

/-- `value.get(key, _MISSING) if isinstance(value, Mapping) else _MISSING`. -/
def childOf (value : Option Json) (key : Str) : Option Json := value.bind (fieldOf · key)

/-- `value is _MISSING or isinstance(value, Mapping)`. -/
def missingOrMapping : Option Json → Bool
  | none => true
  | some (.obj _) => true
  | some _ => false

def keysOf : Option Json → List Str
  | some (.obj fields) => Dict.keys fields
  | _ => []

/-- `sorted(keys)` over the keys of the three values. -/
def mergeKeys (base ours theirs : Option Json) : List Str :=
  Dict.sortedUnion (keysOf base) (keysOf ours ++ keysOf theirs)

/-- `if child is not _MISSING: merged[key] = child`. -/
def keepChild (key : Str) (child : Option Json) (merged : List (Str × Json)) :
    List (Str × Json) :=
  match child with
  | some v => Dict.insert key v merged
  | none => merged

/-- `merge_value`, with the conflicts it appends. The first argument bounds the nesting. -/
def mergeValue (adapter : DomainRevisionAdapter) : Nat → Option Json → Option Json → Option Json → Str →
    Except PyError (Option Json × List MergeConflict)
  | 0, _, _, _, _ => .ok (none, [])
  | n + 1, base, ours, theirs, path =>
    if optEq ours theirs then .ok (deepcopy ours, [])
    else if optEq ours base then .ok (deepcopy theirs, [])
    else if optEq theirs base then .ok (deepcopy ours, [])
    else if missingOrMapping base ∧ missingOrMapping ours ∧ missingOrMapping theirs then do
      let (merged, conflicts) ← (mergeKeys base ours theirs).foldlM (fun acc key => do
        let (child, more) ← mergeValue adapter n (childOf base key) (childOf ours key)
          (childOf theirs key) (path ++ '/' :: escape key)
        return (keepChild key child acc.1, acc.2 ++ more)) (([], []) : List (Str × Json) × _)
      return (some (.obj merged), conflicts)
    else do
      let conflict ← MergeConflict.validate
        { path := if path = [] then ['/'] else path
          kind := adapter.classifyConflict (if path = [] then ['/'] else path)
            (publicValue base) (publicValue ours) (publicValue theirs)
          base := publicValue base, ours := publicValue ours, theirs := publicValue theirs }
      return (deepcopy ours, [conflict])

def threeWayMerge (base ours theirs : Json) (adapter : DomainRevisionAdapter) :
    Except PyError (Option Json × List MergeConflict) := do
  let b ← adapter.normalize base
  let o ← adapter.normalize ours
  let t ← adapter.normalize theirs
  let (merged, conflicts) ←
    mergeValue adapter (max b.depth (max o.depth t.depth) + 1) (some b) (some o) (some t) []
  return (if conflicts.isEmpty then merged else none, conflicts)

/-! ## Key paths -/

/-- The value at a path of keys. -/
def look : List Str → Option Json → Option Json
  | [], v => v
  | k :: p, v => look p (childOf v k)

theorem look_append (p q : List Str) (v : Option Json) : look (p ++ q) v = look q (look p v) := by
  induction p generalizing v with
  | nil => rfl
  | cons k p ih => exact ih (childOf v k)

@[simp] theorem childOf_none (k : Str) : childOf none k = none := rfl

@[simp] theorem childOf_obj (fs : List (Str × Json)) (k : Str) :
    childOf (some (.obj fs)) k = Dict.get? fs k := rfl

@[simp] theorem look_none (p : List Str) : look p none = none := by
  induction p with
  | nil => rfl
  | cons k p ih => exact ih

/-! ## What a merge has to do -/

/-- `merged` is a document, and at every key path it has what the sides ask for: theirs where
only theirs may have changed, ours where only ours may have changed, and what both have. -/
structure LawfulMerge (same : Option Json → Option Json → Prop)
    (base ours theirs merged : Option Json) : Prop where
  document : ∀ v, merged = some v → Accepted pf v
  theirsUnchanged : ∀ p, same (look p theirs) (look p base) →
    same (look p merged) (look p ours)
  oursUnchanged : ∀ p, same (look p ours) (look p base) →
    same (look p merged) (look p theirs)
  agreed : ∀ p, same (look p ours) (look p theirs) → same (look p merged) (look p ours)

/-! ## When it does -/

/-- The merge has to look inside. -/
def Undecided (base ours theirs : Option Json) : Prop :=
  optEq ours theirs = false ∧ optEq ours base = false ∧ optEq theirs base = false

instance (b o t : Option Json) : Decidable (Undecided b o t) :=
  inferInstanceAs (Decidable (_ ∧ _ ∧ _))

/-- The merge gets to the key path `q`: it is undecided everywhere above. -/
def ReachedAt (base ours theirs : Option Json) (q : List Str) : Prop :=
  ∀ p s, s ≠ [] → p ++ s = q → Undecided (look p base) (look p ours) (look p theirs)

/-- The side a decided merge takes, and the side it drops. -/
def sides (base ours theirs : Option Json) : Option Json × Option Json :=
  if optEq ours theirs = false ∧ optEq ours base = true then (theirs, ours) else (ours, theirs)

/-- No key of the base is deleted where the merge takes a side whole. -/
def NoDeletionTaken (base ours theirs : Option Json) : Prop :=
  ∀ q, ReachedAt base ours theirs q → ¬ Undecided (look q base) (look q ours) (look q theirs) →
    look q base ≠ none → (sides (look q base) (look q ours) (look q theirs)).1 ≠ none

/-- Where the merge takes a side whole, nothing the other side changed gets lost below: a value
of the base that the side taken left alone is in the other side, too. -/
def NoChangeDropped (same : Option Json → Option Json → Prop)
    (base ours theirs : Option Json) : Prop :=
  ∀ q, ReachedAt base ours theirs q → ¬ Undecided (look q base) (look q ours) (look q theirs) →
    ∀ p, same (look (q ++ p) base) (look p (sides (look q base) (look q ours) (look q theirs)).1) →
      same (look p (sides (look q base) (look q ours) (look q theirs)).1)
        (look p (sides (look q base) (look q ours) (look q theirs)).2)

/-! ## The loop over the keys -/

section

variable {n : Nat} {base ours theirs : Option Json} {adapter : DomainRevisionAdapter}

theorem keepChild_get? (key q : Str) (child : Option Json) {merged : List (Str × Json)}
    (hfresh : Dict.get? merged key = none) :
    Dict.get? (keepChild key child merged) q = if q = key then child else Dict.get? merged q := by
  cases child with
  | some v => simp [keepChild, Dict.get?_insert]
  | none =>
    by_cases hq : q = key
    · subst hq
      simp [keepChild, hfresh]
    · simp [keepChild, hq]

theorem sorted_keepChild {merged : List (Str × Json)} (h : Dict.Sorted merged) (key : Str)
    (child : Option Json) : Dict.Sorted (keepChild key child merged) := by
  cases child with
  | some v => exact h.insert key v
  | none => exact h

theorem mergeLoop_spec {path : Str} {ks : List Str} (hks : ks.Nodup)
    {acc res : List (Str × Json) × List MergeConflict} (hs : Dict.Sorted acc.1)
    (hfresh : ∀ k ∈ ks, Dict.get? acc.1 k = none)
    (h : ks.foldlM (fun acc key => do
          let (child, more) ← mergeValue adapter n (childOf base key) (childOf ours key)
            (childOf theirs key) (path ++ '/' :: escape key)
          return (keepChild key child acc.1, acc.2 ++ more)) acc = Except.ok res)
    (hnone : res.2 = []) :
    Dict.Sorted res.1 ∧ (∀ q, q ∉ ks → Dict.get? res.1 q = Dict.get? acc.1 q)
      ∧ ∀ k ∈ ks, mergeValue adapter n (childOf base k) (childOf ours k) (childOf theirs k)
          (path ++ '/' :: escape k) = .ok (Dict.get? res.1 k, []) := by
  have hconf : ∀ {ks : List Str} {acc res : List (Str × Json) × List MergeConflict}, ks.foldlM (fun acc key => do
          let (child, more) ← mergeValue adapter n (childOf base key) (childOf ours key)
            (childOf theirs key) (path ++ '/' :: escape key)
          return (keepChild key child acc.1, acc.2 ++ more)) acc = Except.ok res →
        ∃ more, res.2 = acc.2 ++ more := by
    intro ks
    induction ks with
    | nil =>
      intro acc res h
      cases h
      exact ⟨[], by simp⟩
    | cons k ks ih =>
      intro acc res h
      rw [List.foldlM_cons, bind_eq_ok] at h
      obtain ⟨mid, hmid, hrest⟩ := h
      obtain ⟨⟨child, more⟩, -, heq⟩ := bind_eq_ok.mp hmid
      cases heq
      obtain ⟨more', hmore'⟩ := ih hrest
      exact ⟨more ++ more', by rw [hmore', List.append_assoc]⟩
  induction ks generalizing acc with
  | nil =>
    cases h
    exact ⟨hs, fun q _ => rfl, by simp⟩
  | cons k ks ih =>
    rw [List.nodup_cons] at hks
    rw [List.foldlM_cons, bind_eq_ok] at h
    obtain ⟨mid, hmid, hrest⟩ := h
    obtain ⟨⟨child, more⟩, hchild, heq⟩ := bind_eq_ok.mp hmid
    cases heq
    have hk0 := hfresh k (by simp)
    have hfresh' : ∀ q ∈ ks, Dict.get? (keepChild k child acc.1) q = none := by
      intro q hq
      have hqk : q ≠ k := by
        rintro rfl
        exact hks.1 hq
      rw [keepChild_get? k q child hk0, if_neg hqk]
      exact hfresh q (by simp [hq])
    obtain ⟨hsorted, hkeep, hall⟩ :=
      ih hks.2 (sorted_keepChild hs k child) hfresh' hrest
    have hmore : more = [] := by
      obtain ⟨tail, htail⟩ := hconf hrest
      rw [hnone] at htail
      exact (List.append_eq_nil_iff.mp (List.append_eq_nil_iff.mp htail.symm).1).2
    have hself : Dict.get? res.1 k = child := by
      rw [hkeep k hks.1, keepChild_get? k k child hk0, if_pos rfl]
    refine ⟨hsorted, fun q hq => ?_, List.forall_mem_cons.mpr ⟨?_, hall⟩⟩
    · rw [List.mem_cons, not_or] at hq
      rw [hkeep q hq.2, keepChild_get? k q child hk0, if_neg hq.1]
    · rw [hchild, hself, hmore]

end

/-! ## Decided and undecided merges -/

theorem mergeValue_decided {adapter : DomainRevisionAdapter} {n : Nat} {b o t : Option Json} {path : Str}
    (h : ¬ Undecided b o t) :
    mergeValue adapter (n + 1) b o t path = .ok (deepcopy (sides b o t).1, []) := by
  unfold mergeValue sides
  unfold Undecided at h
  cases hot : optEq o t with
  | true => simp
  | false =>
    cases hob : optEq o b with
    | true => simp
    | false =>
      have htb : optEq t b = true := by
        by_contra htb
        rw [Bool.not_eq_true] at htb
        exact h ⟨hot, hob, htb⟩
      simp [htb]

theorem mergeValue_undecided {adapter : DomainRevisionAdapter} {n : Nat} {b o t m : Option Json} {path : Str}
    (hu : Undecided b o t) (h : mergeValue adapter (n + 1) b o t path = .ok (m, [])) :
    ∃ fs, m = some (.obj fs) ∧ Dict.Sorted fs ∧ (∀ q, q ∉ mergeKeys b o t → Dict.get? fs q = none)
      ∧ ∀ k ∈ mergeKeys b o t, mergeValue adapter n (childOf b k) (childOf o k) (childOf t k)
          (path ++ '/' :: escape k) = .ok (Dict.get? fs k, []) := by
  obtain ⟨hot, hob, htb⟩ := hu
  unfold mergeValue at h
  rw [hot, hob, htb] at h
  simp only [Bool.false_eq_true, if_false] at h
  by_cases hmap : missingOrMapping b ∧ missingOrMapping o ∧ missingOrMapping t
  · rw [if_pos hmap] at h
    obtain ⟨⟨fs, cs⟩, hloop, heq⟩ := bind_eq_ok.mp h
    cases heq
    obtain ⟨hs, hkeep, hall⟩ := mergeLoop_spec
      ((Dict.sortedUnion_pairwise _ _).imp ne_of_lt) Dict.sorted_nil (fun _ _ => rfl) hloop rfl
    exact ⟨fs, rfl, hs, hkeep, hall⟩
  · rw [if_neg hmap] at h
    obtain ⟨c, -, heq⟩ := bind_eq_ok.mp h
    cases heq

/-! ## Normalized values -/

/-- The value, if there is one, is normal. -/
def Normalized (v : Option Json) : Prop := ∀ w, v = some w → Normal (Nfc pf) w

theorem normalized_none : Normalized pf none := fun _ h => by cases h

theorem normalized_some {v : Json} (hv : Normal (Nfc pf) v) : Normalized pf (some v) := by
  intro w hw
  cases hw
  exact hv

variable {pf}

variable {v : Option Json}

theorem Normalized.childOf (hv : Normalized pf v) (k : Str) : Normalized pf (childOf v k) := by
  intro w hw
  cases v with
  | none => cases hw
  | some v =>
    cases v with
    | obj fs => exact (hv _ rfl).get? hw
    | _ => cases hw

theorem Normalized.look (hv : Normalized pf v) (p : List Str) : Normalized pf (look p v) := by
  induction p generalizing v with
  | nil => exact hv
  | cons k p ih => exact ih (hv.childOf k)

theorem optEq_refl (hv : Normalized pf v) : optEq v v = true := by
  cases v with
  | none => rfl
  | some v => exact pyEq_refl (hv v rfl)

theorem optEq_symm {v w : Option Json} (hv : Normalized pf v) (hw : Normalized pf w)
    (h : optEq v w = true) : optEq w v = true := by
  cases v with
  | none => cases w with
    | none => rfl
    | some w => cases h
  | some v => cases w with
    | none => cases h
    | some w => exact pyEq_symm (hv v rfl) (hw w rfl) h

theorem optEq_trans {u v w : Option Json} (hu : Normalized pf u) (hv : Normalized pf v)
    (hw : Normalized pf w) (huv : optEq u v = true) (hvw : optEq v w = true) :
    optEq u w = true := by
  cases u with
  | none => cases v with
    | none => exact hvw
    | some v => cases huv
  | some u => cases v with
    | none => cases huv
    | some v => cases w with
      | none => cases hvw
      | some w => exact pyEq_trans (hu u rfl) (hv v rfl) (hw w rfl) huv hvw

theorem optEq_none_iff : optEq none v = true ↔ v = none := by
  cases v <;> simp

theorem optEq_none_iff' : optEq v none = true ↔ v = none := by
  cases v <;> simp

theorem optEq_childOf {v w : Option Json} (hv : Normalized pf v) (hw : Normalized pf w)
    (h : optEq v w = true) (k : Str) : optEq (Revision.childOf v k) (Revision.childOf w k) = true := by
  cases v with
  | none =>
    rw [optEq_none_iff.mp h]
    rfl
  | some v =>
    cases w with
    | none => cases h
    | some w =>
      have hnv := hv v rfl
      have hnw := hw w rfl
      cases v with
      | obj f =>
        obtain ⟨g, rfl⟩ := pyEq_obj_left h
        exact (pyEq_obj hnv.sorted hnw.sorted).mp h k
      | _ =>
        cases w with
        | obj g =>
          obtain ⟨f, hf⟩ := pyEq_obj_left (pyEq_symm hnv hnw h)
          cases hf
        | _ => rfl

/-- Equal values have equal values at every key path. -/
theorem optEq_look {v w : Option Json} (hv : Normalized pf v) (hw : Normalized pf w)
    (h : optEq v w = true) (p : List Str) : optEq (look p v) (look p w) = true := by
  induction p generalizing v w with
  | nil => exact h
  | cons k p ih => exact ih (hv.childOf k) (hw.childOf k) (optEq_childOf hv hw h k)

theorem childOf_eq_none_iff {k : Str} : childOf v k = none ↔ k ∉ keysOf v := by
  cases v with
  | none => simp [keysOf]
  | some v =>
    cases v with
    | obj fs => exact Dict.get?_eq_none_iff fs k
    | _ => exact iff_of_true rfl (by simp [keysOf])

theorem mem_mergeKeys {b o t : Option Json} {k : Str} :
    k ∈ mergeKeys b o t ↔ childOf b k ≠ none ∨ childOf o k ≠ none ∨ childOf t k ≠ none := by
  unfold mergeKeys
  simp only [Dict.mem_sortedUnion, List.mem_append, ne_eq, childOf_eq_none_iff, not_not]

theorem nfc_keysOf (hv : Normalized pf v) {k : Str} (hk : k ∈ keysOf v) :
    Nfc pf k := by
  cases v with
  | none => cases hk
  | some v =>
    cases v with
    | obj fs => exact (hv _ rfl).key hk
    | _ => cases hk

/-! ## The condition, one level at a time -/

section

variable {b o t : Option Json} {same : Option Json → Option Json → Prop}

theorem reachedAt_nil : ReachedAt b o t [] := by
  intro p s hs hps
  exact absurd (List.append_eq_nil_iff.mp hps).2 hs

theorem reachedAt_cons {k : Str} {q : List Str} : ReachedAt b o t (k :: q)
      ↔ Undecided b o t ∧ ReachedAt (childOf b k) (childOf o k) (childOf t k) q := by
  constructor
  · intro h
    refine ⟨h [] (k :: q) (by simp) rfl, fun p s hs hps => ?_⟩
    exact h (k :: p) s hs (by rw [List.cons_append, hps])
  · rintro ⟨hu, h⟩ p s hs hps
    cases p with
    | nil => exact hu
    | cons j p =>
      rw [List.cons_append, List.cons.injEq] at hps
      obtain ⟨rfl, hps⟩ := hps
      exact h p s hs hps

/-- The condition at one place. -/
def Clean (same : Option Json → Option Json → Prop) (b o t : Option Json) : Prop :=
  (b ≠ none → (sides b o t).1 ≠ none)
    ∧ ∀ p, same (look p b) (look p (sides b o t).1) →
        same (look p (sides b o t).1) (look p (sides b o t).2)

theorem conditions_iff : NoDeletionTaken b o t ∧ NoChangeDropped same b o t
      ↔ ∀ q, ReachedAt b o t q → ¬ Undecided (look q b) (look q o) (look q t) →
          Clean same (look q b) (look q o) (look q t) := by
  unfold NoDeletionTaken NoChangeDropped Clean
  simp only [look_append]
  constructor
  · rintro ⟨hdel, hdrop⟩ q hq hd
    exact ⟨hdel q hq hd, hdrop q hq hd⟩
  · intro h
    exact ⟨fun q hq hd => (h q hq hd).1, fun q hq hd => (h q hq hd).2⟩

theorem conditions_decided (hd : ¬ Undecided b o t) :
    NoDeletionTaken b o t ∧ NoChangeDropped same b o t ↔ Clean same b o t := by
  rw [conditions_iff]
  constructor
  · exact fun h => h [] reachedAt_nil hd
  · intro h q hq _
    cases q with
    | nil => exact h
    | cons k q => exact absurd (reachedAt_cons.mp hq).1 hd

theorem conditions_undecided (hu : Undecided b o t) : NoDeletionTaken b o t ∧ NoChangeDropped same b o t
      ↔ ∀ k, NoDeletionTaken (childOf b k) (childOf o k) (childOf t k)
          ∧ NoChangeDropped same (childOf b k) (childOf o k) (childOf t k) := by
  simp only [conditions_iff]
  constructor
  · intro h k q hq hd
    exact h (k :: q) (reachedAt_cons.mpr ⟨hu, hq⟩) hd
  · intro h q hq hd
    cases q with
    | nil => exact absurd hu hd
    | cons k q => exact h k q (reachedAt_cons.mp hq).2 hd

end

/-! ## The property, one level at a time -/

/-- An equality between documents, or absences, at least as fine as Python's. -/
structure DocumentEquality (pf : Platform) (same : Option Json → Option Json → Prop) : Prop where
  refl : ∀ v, Normalized pf v → same v v
  symm : ∀ v w, Normalized pf v → Normalized pf w → same v w → same w v
  sub : ∀ v w, Normalized pf v → Normalized pf w → same v w → optEq v w = true

section

variable {b o t : Option Json} {same : Option Json → Option Json → Prop}

/-- Taking theirs whole is lawful when ours has no change of its own. -/
theorem lawful_theirs (hsame : DocumentEquality pf same) (hb : Normalized pf b)
    (ho : Normalized pf o) {w : Json} (hw : Normalized pf (some w)) :
    LawfulMerge pf same b o (some w) (some w)
      ↔ ∀ p, same (look p b) (look p (some w)) → same (look p (some w)) (look p o) := by
  constructor
  · intro h p hp
    exact h.theirsUnchanged p (hsame.symm _ _ (hb.look p) (hw.look p) hp)
  · intro h
    refine ⟨fun v hv => ?_, fun p hp => ?_, fun p _ => ?_, fun p hp => ?_⟩
    · cases hv
      exact accepted_of_normal pf (hw w rfl)
    · exact h p (hsame.symm _ _ (hw.look p) (hb.look p) hp)
    · exact hsame.refl _ (hw.look p)
    · exact hsame.symm _ _ (ho.look p) (hw.look p) hp

/-- Taking ours whole is lawful when theirs has no change of its own. -/
theorem lawful_ours (hsame : DocumentEquality pf same) (hb : Normalized pf b) {w : Json}
    (hw : Normalized pf (some w)) :
    LawfulMerge pf same b (some w) t (some w)
      ↔ ∀ p, same (look p b) (look p (some w)) → same (look p (some w)) (look p t) := by
  constructor
  · intro h p hp
    exact h.oursUnchanged p (hsame.symm _ _ (hb.look p) (hw.look p) hp)
  · intro h
    refine ⟨fun v hv => ?_, fun p _ => ?_, fun p hp => ?_, fun p _ => ?_⟩
    · cases hv
      exact accepted_of_normal pf (hw w rfl)
    · exact hsame.refl _ (hw.look p)
    · exact h p (hsame.symm _ _ (hw.look p) (hb.look p) hp)
    · exact hsame.refl _ (hw.look p)

/-- A side is taken that lacks the place: then the base has it, or no document does. -/
theorem all_none_of_sides (hd : ¬ Undecided b o t) (hw : (sides b o t).1 = none)
    (hb : b = none) : o = none ∧ t = none := by
  subst hb
  unfold sides at hw
  split_ifs at hw with hside
  · have ht : t = none := hw
    exact ⟨optEq_none_iff'.mp hside.2, ht⟩
  · have ho : o = none := hw
    subst ho
    refine ⟨rfl, ?_⟩
    by_contra ht
    have hot : optEq none t = false := by
      rw [← Bool.not_eq_true, optEq_none_iff]
      exact ht
    exact hside ⟨hot, rfl⟩

theorem lawful_decided (hsame : DocumentEquality pf same) (hb : Normalized pf b)
    (ho : Normalized pf o) (ht : Normalized pf t) (hd : ¬ Undecided b o t)
    (hany : b ≠ none ∨ o ≠ none ∨ t ≠ none) :
    LawfulMerge pf same b o t (deepcopy (sides b o t).1) ↔ Clean same b o t := by
  cases hw : (sides b o t).1 with
  | none =>
    have hbsome : b ≠ none := by
      intro hbn
      obtain ⟨hon, htn⟩ := all_none_of_sides hd hw hbn
      rcases hany with h | h | h
      · exact h hbn
      · exact h hon
      · exact h htn
    have hclean : ¬ Clean same b o t := fun h => h.1 hbsome hw
    refine iff_of_false (fun h => ?_) hclean
    exact not_accepted_other pf "object" (h.document _ rfl)
  | some w =>
    have hpresent : b ≠ none → (sides b o t).1 ≠ none := by simp [hw]
    unfold Clean
    rw [and_iff_right hpresent]
    unfold sides at hw ⊢
    split_ifs at hw ⊢ with hside
    · have htw : t = some w := hw
      subst htw
      exact lawful_theirs hsame hb ho ht
    · have how : o = some w := hw
      subst how
      exact lawful_ours hsame hb ho

theorem lawful_none (hsame : DocumentEquality pf same) :
    LawfulMerge pf same none none none none := by
  have hrefl : ∀ p, same (look p none) (look p none) :=
    fun p => hsame.refl _ ((normalized_none pf).look p)
  exact ⟨fun v hv => (by cases hv), fun p _ => hrefl p, fun p _ => hrefl p, fun p _ => hrefl p⟩

theorem conditions_none (hsame : DocumentEquality pf same) :
    NoDeletionTaken none none none ∧ NoChangeDropped same none none none := by
  rw [conditions_decided (by simp [Undecided])]
  exact ⟨fun h => absurd rfl h, fun p _ => hsame.refl _ ((normalized_none pf).look p)⟩

theorem lawful_undecided (hsame : DocumentEquality pf same) (hb : Normalized pf b)
    (ho : Normalized pf o) (ht : Normalized pf t) (hu : Undecided b o t)
    {fs : List (Str × Json)} (hs : Dict.Sorted fs)
    (hkeys : ∀ k, k ∉ mergeKeys b o t → Dict.get? fs k = none) :
    LawfulMerge pf same b o t (some (.obj fs))
      ↔ ∀ k, LawfulMerge pf same (childOf b k) (childOf o k) (childOf t k)
          (Dict.get? fs k) := by
  obtain ⟨hot, hob, htb⟩ := hu
  have hnfc : ∀ k ∈ Dict.keys fs, Nfc pf k := by
    intro k hk
    have hmem : k ∈ mergeKeys b o t := by
      by_contra hno
      exact (Dict.get?_eq_none_iff fs k).mp (hkeys k hno) hk
    rcases Dict.mem_sortedUnion.mp hmem with h | h
    · exact nfc_keysOf hb h
    · rcases List.mem_append.mp h with h | h
      · exact nfc_keysOf ho h
      · exact nfc_keysOf ht h
  have hapart : ∀ {v w : Option Json}, Normalized pf v → Normalized pf w → optEq v w = false →
      ¬ same v w := by
    intro v w hv hw hne hvw
    rw [hsame.sub v w hv hw hvw] at hne
    cases hne
  constructor
  · intro h k
    refine ⟨fun v hv => ?_, fun p hp => ?_, fun p hp => ?_, fun p hp => ?_⟩
    · exact (accepted_obj pf hs hnfc).mp (h.document _ rfl) k v hv
    · exact h.theirsUnchanged (k :: p) hp
    · exact h.oursUnchanged (k :: p) hp
    · exact h.agreed (k :: p) hp
  · intro h
    refine ⟨fun v hv => ?_, fun p hp => ?_, fun p hp => ?_, fun p hp => ?_⟩
    · cases hv
      exact (accepted_obj pf hs hnfc).mpr (fun k v hk => (h k).document v hk)
    · cases p with
      | nil => exact absurd hp (hapart ht hb htb)
      | cons k p => exact (h k).theirsUnchanged p hp
    · cases p with
      | nil => exact absurd hp (hapart ho hb hob)
      | cons k p => exact (h k).oursUnchanged p hp
    · cases p with
      | nil => exact absurd hp (hapart ho ht hot)
      | cons k p => exact (h k).agreed p hp

end

/-! ## The merge -/

/-- The nesting is below the bound. -/
def DepthBelow (n : Nat) (v : Option Json) : Prop := ∀ w, v = some w → w.depth < n

theorem DepthBelow.childOf {n : Nat} (h : DepthBelow (n + 1) v) (k : Str) : DepthBelow n (childOf v k) := by
  intro w hw
  cases v with
  | none => cases hw
  | some v =>
    cases v with
    | obj fs =>
      have hdepth := depth_lt_of_mem_obj (Dict.mem_of_get? hw)
      have hbound := h _ rfl
      omega
    | _ => cases hw

/-- **A merge without conflicts is lawful exactly when it takes no deletion and drops no
change.** The induction is on the bound for the nesting; it covers every equality that is at
least as fine as Python's. -/
theorem mergeValue_lawful {adapter : DomainRevisionAdapter} {same : Option Json → Option Json → Prop}
    (hsame : DocumentEquality pf same) {n : Nat} {b o t m : Option Json} {path : Str}
    (hdb : DepthBelow n b) (hdo : DepthBelow n o) (hdt : DepthBelow n t)
    (hb : Normalized pf b) (ho : Normalized pf o) (ht : Normalized pf t)
    (hany : b ≠ none ∨ o ≠ none ∨ t ≠ none)
    (hm : mergeValue adapter n b o t path = .ok (m, [])) :
    LawfulMerge pf same b o t m ↔ NoDeletionTaken b o t ∧ NoChangeDropped same b o t := by
  induction n generalizing b o t m path with
  | zero =>
    rcases hany with h | h | h
    · obtain ⟨v, rfl⟩ := Option.ne_none_iff_exists'.mp h
      exact absurd (hdb v rfl) (by omega)
    · obtain ⟨v, rfl⟩ := Option.ne_none_iff_exists'.mp h
      exact absurd (hdo v rfl) (by omega)
    · obtain ⟨v, rfl⟩ := Option.ne_none_iff_exists'.mp h
      exact absurd (hdt v rfl) (by omega)
  | succ n ih =>
    by_cases hu : Undecided b o t
    · obtain ⟨fs, rfl, hs, hkeys, hall⟩ := mergeValue_undecided hu hm
      rw [lawful_undecided hsame hb ho ht hu hs hkeys, conditions_undecided hu]
      refine forall_congr' fun k => ?_
      by_cases hk : k ∈ mergeKeys b o t
      · exact ih (hdb.childOf k) (hdo.childOf k) (hdt.childOf k) (hb.childOf k)
          (ho.childOf k) (ht.childOf k) (mem_mergeKeys.mp hk) (hall k hk)
      · rw [hkeys k hk]
        rw [mem_mergeKeys, not_or, not_or, not_not, not_not, not_not] at hk
        rw [hk.1, hk.2.1, hk.2.2]
        exact iff_of_true (lawful_none hsame) (conditions_none hsame)
    · rw [mergeValue_decided hu, Except.ok.injEq, Prod.mk.injEq] at hm
      obtain ⟨rfl, -⟩ := hm
      rw [lawful_decided hsame hb ho ht hu hany, conditions_decided hu]

/-! ## The two equalities -/

variable (pf)

theorem documentEquality_eq : DocumentEquality pf (· = ·) where
  refl _ _ := rfl
  symm _ _ _ _ h := h.symm
  sub v w hv _ h := by
    subst h
    exact optEq_refl hv

theorem documentEquality_optEq : DocumentEquality pf (fun v w => optEq v w = true) where
  refl _ hv := optEq_refl hv
  symm _ _ hv hw h := optEq_symm hv hw h
  sub _ _ _ _ h := h

variable {pf}

/-- Up to Python equality a decided merge drops nothing. -/
theorem noChangeDropped_optEq {b o t : Option Json} (hb : Normalized pf b)
    (ho : Normalized pf o) (ht : Normalized pf t) :
    NoChangeDropped (fun v w => optEq v w = true) b o t := by
  intro q _ hd p hp
  have hbq := hb.look q
  have hoq := ho.look q
  have htq := ht.look q
  rw [look_append] at hp
  revert hp hd
  generalize look q b = b at *
  generalize look q o = o at *
  generalize look q t = t at *
  intro hd hp
  unfold sides at hp ⊢
  unfold Undecided at hd
  split_ifs at hp ⊢ with hside
  · -- theirs is taken because ours is as in the base
    have hbt := hp
    have hob := optEq_look hoq hbq hside.2 p
    exact optEq_symm (hoq.look p) (htq.look p)
      (optEq_trans (hoq.look p) (hbq.look p) (htq.look p) hob hbt)
  · cases hot : optEq o t with
    | true => exact optEq_look hoq htq hot p
    | false =>
      -- ours is taken because theirs is as in the base
      have hob : optEq o b = false := by
        rw [← Bool.not_eq_true]
        exact fun h => hside ⟨hot, h⟩
      have htb : optEq t b = true := by
        by_contra htb
        rw [Bool.not_eq_true] at htb
        exact hd ⟨hot, hob, htb⟩
      have htb' := optEq_look htq hbq htb p
      exact optEq_symm (htq.look p) (hoq.look p)
        (optEq_trans (htq.look p) (hbq.look p) (hoq.look p) htb' hp)

variable (pf)

theorem threeWayMerge_eq_ok {base ours theirs b o t : Json}
    (hb : JsonDocumentAdapter.normalize pf base = .ok b)
    (ho : JsonDocumentAdapter.normalize pf ours = .ok o)
    (ht : JsonDocumentAdapter.normalize pf theirs = .ok t) {m : Option Json} :
    threeWayMerge base ours theirs (jsonDocumentAdapter pf) = .ok (m, [])
      ↔ mergeValue (jsonDocumentAdapter pf) (max b.depth (max o.depth t.depth) + 1) (some b) (some o) (some t) []
          = .ok (m, []) := by
  have hb' : (jsonDocumentAdapter pf).normalize base = .ok b := hb
  have ho' : (jsonDocumentAdapter pf).normalize ours = .ok o := ho
  have ht' : (jsonDocumentAdapter pf).normalize theirs = .ok t := ht
  rw [threeWayMerge, hb', ho', ht']
  show (mergeValue _ _ (some b) (some o) (some t) [] >>= fun r =>
    .ok (if r.2.isEmpty then r.1 else none, r.2)) = .ok (m, []) ↔ _
  rw [bind_eq_ok]
  constructor
  · rintro ⟨⟨merged, conflicts⟩, hr, heq⟩
    cases heq
    exact hr
  · intro h
    exact ⟨_, h, rfl⟩

/-- **A three-way merge without conflicts returns a document that has, at every key path, what
the two sides ask for**, exactly when it takes no deletion; and when values that Python takes
for equal are told apart, when it drops no change of one for the other either. -/
theorem threeWayMerge_lawful_iff {base ours theirs b o t : Json}
    (hb : JsonDocumentAdapter.normalize pf base = .ok b)
    (ho : JsonDocumentAdapter.normalize pf ours = .ok o)
    (ht : JsonDocumentAdapter.normalize pf theirs = .ok t) {m : Option Json}
    (hm : threeWayMerge base ours theirs (jsonDocumentAdapter pf) = .ok (m, [])) :
    (LawfulMerge pf (fun v w => optEq v w = true) (some b) (some o) (some t) m
        ↔ NoDeletionTaken (some b) (some o) (some t))
      ∧ (LawfulMerge pf (· = ·) (some b) (some o) (some t) m
        ↔ NoDeletionTaken (some b) (some o) (some t)
          ∧ NoChangeDropped (· = ·) (some b) (some o) (some t)) := by
  have hbn := normalized_some pf (normalize_ok pf hb).1
  have hon := normalized_some pf (normalize_ok pf ho).1
  have htn := normalized_some pf (normalize_ok pf ht).1
  have hdepth : ∀ v : Json, v.depth ≤ max b.depth (max o.depth t.depth) →
      DepthBelow (max b.depth (max o.depth t.depth) + 1) (some v) := by
    intro v hv w hw
    cases hw
    omega
  have hdb := hdepth b (by omega)
  have hdo := hdepth o (by omega)
  have hdt := hdepth t (by omega)
  have hrun := (threeWayMerge_eq_ok pf hb ho ht).mp hm
  have hany : some b ≠ none ∨ some o ≠ none ∨ some t ≠ none := Or.inl (by simp)
  constructor
  · rw [mergeValue_lawful (documentEquality_optEq pf) hdb hdo hdt hbn hon htn hany hrun,
      and_iff_left (noChangeDropped_optEq hbn hon htn)]
  · exact mergeValue_lawful (documentEquality_eq pf) hdb hdo hdt hbn hon htn hany hrun

/-! ## Three documents -/

/-- `{"duration": duration, "name": name}`, with the name left out where it is `none`. -/
def processDocument (name : Option String) (duration : Int) : Json :=
  .obj (("duration".toList, .int duration)
    :: name.toList.map fun n => ("name".toList, .str n.toList))

theorem threeWayMerge_lawful_independent :
    ∃ m, threeWayMerge (processDocument (some "A") 10) (processDocument (some "B") 10)
          (processDocument (some "A") 20) (jsonDocumentAdapter Platform.reference) = .ok (m, [])
      ∧ (LawfulMerge Platform.reference (fun v w => optEq v w = true)
            (some (processDocument (some "A") 10)) (some (processDocument (some "B") 10))
            (some (processDocument (some "A") 20)) m
          ↔ NoDeletionTaken (some (processDocument (some "A") 10))
            (some (processDocument (some "B") 10)) (some (processDocument (some "A") 20))) := by
  have hnormal : ∀ name ∈ ["A", "B"], ∀ n ∈ [10, 20],
      JsonDocumentAdapter.normalize Platform.reference (processDocument (some name) n)
        = .ok (processDocument (some name) n) := by decide
  have hm : threeWayMerge (processDocument (some "A") 10) (processDocument (some "B") 10)
      (processDocument (some "A") 20) (jsonDocumentAdapter Platform.reference)
        = .ok (some (processDocument (some "B") 20), []) := by decide
  exact ⟨_, hm, (threeWayMerge_lawful_iff Platform.reference
    (hnormal "A" (by simp) 10 (by simp)) (hnormal "B" (by simp) 10 (by simp))
    (hnormal "A" (by simp) 20 (by simp)) hm).1⟩

/-- One side deletes a field, the other edits another: the result is not a document. -/
theorem not_lawful_deletion :
    ∃ m, threeWayMerge (processDocument (some "A") 10) (processDocument none 10)
          (processDocument (some "A") 20) (jsonDocumentAdapter Platform.reference)
            = .ok (some m, [])
      ∧ ¬ Accepted Platform.reference m
      ∧ ∀ same, ¬ LawfulMerge Platform.reference same (some (processDocument (some "A") 10))
          (some (processDocument none 10)) (some (processDocument (some "A") 20)) (some m) := by
  have hno : ¬ Accepted Platform.reference
      (.obj [("duration".toList, .int 20), ("name".toList, .other "object")]) := by
    rintro ⟨w, hw⟩
    revert hw
    exact fun hw => by cases hw
  exact ⟨_, by decide, hno, fun same h => hno (h.document _ rfl)⟩

/-! ## One side left alone -/

end Ai00.Revision
