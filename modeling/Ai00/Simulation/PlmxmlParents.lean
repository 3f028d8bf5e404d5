import Ai00.Simulation.PlmxmlProjection
import Ai00.Basic.Lineage

/-! # The parents of projected instances

What an accepted document says of its instances: which one lists which (`Lists`), that the code's
`parents` are exactly these (`resolveParents_up`), and which path it supplies for an instance by an
occurrence (`suppliedPath`). The loop of `parent_path` returns the lineage of an instance and fails
where there is none (`climb_eq_ok_iff`).
-/

namespace Ai00.Simulation

open KeyedRows Lineage

variable {document : PlmxmlDocument} {parents parents' : List (Str × Str)}
  {table table' : OccurrenceTable} {a p : Str} {path : List Str}

/-! ## Documents that were read -/

/-- The ids of the instances, in the order of the document. -/
def PlmxmlDocument.ids (document : PlmxmlDocument) : List Str :=
  document.instances.map ProductInstance.id

theorem nodup_update {q : ProductInstance → Bool} {f : ProductInstance → ProductInstance}
    {rows : List ProductInstance} (h : ∀ i, (f i).id = i.id)
    (hnodup : (rows.map ProductInstance.id).Nodup) :
    ((Rows.update q f rows).map ProductInstance.id).Nodup := by
  have hsame : (Rows.update q f rows).map ProductInstance.id = rows.map ProductInstance.id := by
    rw [Rows.update, List.map_map]
    refine List.map_congr_left fun i _ => ?_
    rw [Function.comp_apply]
    split_ifs
    · exact h i
    · rfl
  rw [hsame]
  exact hnodup

section

variable {limits : PlmxmlLimits} {s s' : ParseState} {name : Str} {attrs : List (Str × Str)}

theorem opened_nodup (hs : s.document.ids.Nodup) (h : opened limits name attrs s = .ok s') :
    s'.document.ids.Nodup := by
  have hself : ∀ t : ParseState, (.ok t : Except PlmxmlError ParseState) = .ok s' →
      t.document.instances = s.document.instances → s'.document.ids.Nodup := by
    intro t heq ht
    obtain rfl := Except.ok.inj heq
    rw [PlmxmlDocument.ids, ht]
    exact hs
  unfold opened at h
  simp only [pure, Except.pure] at h
  split_ifs at h
  · exact hself _ h rfl
  · exact hself _ h rfl
  · obtain ⟨-, -, h⟩ := bind_eq_ok.mp h
    obtain rfl := Except.ok.inj h
    exact nodup_upsert hs
  · exact hself _ h rfl
  · exact hself _ h rfl
  · exact hself _ h rfl
  · split at h
    · exact hself _ h rfl
    · obtain rfl := Except.ok.inj h
      exact nodup_update (fun _ => rfl) hs
  · exact hself _ h rfl
  · split at h
    · exact hself _ h rfl
    · exact hself _ h rfl
  · exact hself _ h rfl
  · exact hself _ h rfl
  · exact hself _ h rfl

theorem closed_nodup (hs : s.document.ids.Nodup) (h : closed name s = .ok s') :
    s'.document.ids.Nodup := by
  unfold closed at h
  simp only [pure, Except.pure] at h
  split_ifs at h
  · split at h
    · obtain ⟨-, -, h⟩ := bind_eq_ok.mp h
      obtain rfl := Except.ok.inj h
      exact nodup_update (fun _ => rfl) hs
    · exact Except.ok.inj h ▸ hs
  all_goals exact Except.ok.inj h ▸ hs

theorem handleEvent_nodup {event : PlmxmlEvent} (hs : s.document.ids.Nodup)
    (h : handleEvent limits s event = .ok s') : s'.document.ids.Nodup := by
  cases event with
  | chunk size elapsed =>
    obtain ⟨-, -, h⟩ := bind_eq_ok.mp h
    obtain ⟨-, -, h⟩ := bind_eq_ok.mp h
    exact Except.ok.inj h ▸ hs
  | notBytes => cases h
  | startElement name attrs elapsed =>
    obtain ⟨-, -, h⟩ := bind_eq_ok.mp h
    obtain ⟨-, -, h⟩ := bind_eq_ok.mp h
    obtain ⟨-, -, h⟩ := bind_eq_ok.mp h
    obtain ⟨-, -, h⟩ := bind_eq_ok.mp h
    obtain ⟨-, -, h⟩ := bind_eq_ok.mp h
    obtain ⟨count, -, h⟩ := bind_eq_ok.mp h
    refine opened_nodup (s := { s with
      depth := s.depth + 1, elementCount := s.elementCount + 1, referenceCount := count
      maximumDepth := max s.maximumDepth (s.depth + 1)
      elementTextLengths := 0 :: s.elementTextLengths }) hs h
  | characterData value =>
    rw [handleEvent, characterData] at h
    split at h
    · exact Except.ok.inj h ▸ hs
    · obtain ⟨-, -, h⟩ := bind_eq_ok.mp h
      exact Except.ok.inj h ▸ hs
  | endElement name =>
    obtain ⟨t, ht, h⟩ := bind_eq_ok.mp h
    have hnodup := closed_nodup hs ht
    split at h
    · cases h
    · exact Except.ok.inj h ▸ hnodup
  | declaration => cases h
  | malformed => cases h

/-- **A document has one instance for each id**, whatever its events were. -/
theorem readEvents_nodup {events : List PlmxmlEvent} (h : readEvents limits events = .ok s) :
    s.document.ids.Nodup := by
  have hrun : ∀ (events : List PlmxmlEvent) (start : ParseState), start.document.ids.Nodup →
      events.foldlM (handleEvent limits) start = .ok s → s.document.ids.Nodup := by
    intro events
    induction events with
    | nil =>
      intro start hstart h
      exact Except.ok.inj h ▸ hstart
    | cons event events ih =>
      intro start hstart h
      rw [List.foldlM_cons] at h
      obtain ⟨t, ht, h⟩ := bind_eq_ok.mp h
      exact ih t (handleEvent_nodup hstart ht) h
  obtain ⟨-, -, h⟩ := bind_eq_ok.mp h
  exact hrun events {} List.nodup_nil h

end

/-! ## Which instance lists which -/

/-- The instance `p` lists `a` among its children. -/
def PlmxmlDocument.Lists (document : PlmxmlDocument) (p a : Str) : Prop :=
  ∃ i ∈ document.instances, i.id = p ∧ ∃ r,
    lookup ProductRevisionView.id i.partRef document.revisions = some r ∧ a ∈ r.instanceRefs

/-- The parent of an instance: the one that lists it, or none. -/
def PlmxmlDocument.Up (document : PlmxmlDocument) (a : Str) : Option Str → Prop
  | none => ∀ p, ¬ document.Lists p a
  | some p => document.Lists p a

theorem PlmxmlDocument.Lists.mem_ids (h : document.Lists p a) : p ∈ document.ids := by
  obtain ⟨i, hi, rfl, -⟩ := h
  exact List.mem_map_of_mem hi

theorem entry_concat {α : Type} {key k : Str} {v : α} {values : List (Str × α)} :
    entry key (values ++ [(k, v)]) = (entry key values).or (if k = key then some v else none) := by
  rw [entry, lookup_append, entry]
  cases lookup Prod.fst key values with
  | some row => rfl
  | none =>
    rw [lookup_cons]
    by_cases hk : k = key <;> simp [hk]

theorem entry_upsert {α : Type} {key k : Str} {v : α} {values : List (Str × α)} :
    entry key (upsert Prod.fst (k, v) values) = if k = key then some v else entry key values := by
  rw [entry, lookup_upsert]
  split_ifs <;> rfl

theorem setParent_ok {parentId childId : Str}
    (h : setParent document parentId parents childId = .ok parents') :
    childId ∈ document.ids ∧ ∀ a p, entry a parents' = some p ↔
      entry a parents = some p ∨ (a = childId ∧ p = parentId) := by
  obtain ⟨_, hmem, h⟩ := bind_eq_ok.mp h
  refine ⟨require_eq_ok.mp hmem, fun a p => ?_⟩
  cases hprior : entry childId parents with
  | none =>
    rw [hprior] at h
    obtain rfl := Except.ok.inj h
    rw [entry_concat]
    by_cases ha : childId = a
    · subst ha
      simp [hprior, eq_comm]
    · have hne : a ≠ childId := Ne.symm ha
      simp [ha, hne]
  | some prior =>
    rw [hprior] at h
    obtain ⟨_, hsame, h⟩ := bind_eq_ok.mp h
    obtain rfl := Except.ok.inj h
    obtain rfl := require_eq_ok.mp hsame
    constructor
    · exact Or.inl
    · rintro (hold | ⟨rfl, rfl⟩)
      · exact hold
      · exact hprior

theorem setParent_loop {parentId : Str} {children : List Str}
    (h : children.foldlM (setParent document parentId) parents = .ok parents') :
    (∀ a ∈ children, a ∈ document.ids) ∧ ∀ a p, entry a parents' = some p ↔
      entry a parents = some p ∨ (a ∈ children ∧ p = parentId) := by
  induction children generalizing parents with
  | nil =>
    obtain rfl := Except.ok.inj h
    simp
  | cons c children ih =>
    rw [List.foldlM_cons] at h
    obtain ⟨next, hnext, h⟩ := bind_eq_ok.mp h
    obtain ⟨hc, hstep⟩ := setParent_ok hnext
    obtain ⟨hin, hrest⟩ := ih h
    refine ⟨fun a ha => ?_, fun a p => ?_⟩
    · rcases List.mem_cons.mp ha with rfl | ha
      · exact hc
      · exact hin a ha
    · rw [hrest, hstep, List.mem_cons]
      tauto

theorem setParents_ok {i : ProductInstance} (h : setParents document parents i = .ok parents') :
    ∃ r, lookup ProductRevisionView.id i.partRef document.revisions = some r
      ∧ (∀ a ∈ r.instanceRefs, a ∈ document.ids)
      ∧ ∀ a p, entry a parents' = some p ↔ entry a parents = some p ∨ (a ∈ r.instanceRefs ∧ p = i.id) := by
  obtain ⟨r, hr, h⟩ := bind_eq_ok.mp h
  exact ⟨r, found_eq_ok.mp hr, setParent_loop h⟩

/-- **The parents that the code resolves** are the instances that list a child. -/
theorem resolveParents_ok (h : resolveParents document = .ok parents) :
    (∀ a p, entry a parents = some p ↔ document.Lists p a)
      ∧ ∀ a p, document.Lists p a → a ∈ document.ids := by
  have hrun : ∀ (rows : List ProductInstance) (start : List (Str × Str)),
      rows.foldlM (setParents document) start = .ok parents →
      (∀ a p, entry a parents = some p ↔ entry a start = some p ∨ ∃ i ∈ rows, i.id = p ∧ ∃ r,
        lookup ProductRevisionView.id i.partRef document.revisions = some r ∧ a ∈ r.instanceRefs)
      ∧ ∀ i ∈ rows, ∀ r, lookup ProductRevisionView.id i.partRef document.revisions = some r →
        ∀ a ∈ r.instanceRefs, a ∈ document.ids := by
    intro rows
    induction rows with
    | nil =>
      intro start h
      obtain rfl := Except.ok.inj h
      simp
    | cons i rows ih =>
      intro start h
      rw [List.foldlM_cons] at h
      obtain ⟨next, hnext, h⟩ := bind_eq_ok.mp h
      obtain ⟨r, hr, hin, hstep⟩ := setParents_ok hnext
      obtain ⟨hrest, hall⟩ := ih next h
      refine ⟨fun a p => ?_, ?_⟩
      · rw [hrest, hstep, or_assoc]
        refine or_congr_right ?_
        constructor
        · rintro (⟨ha, rfl⟩ | ⟨j, hj, hp⟩)
          · exact ⟨i, List.mem_cons_self, rfl, r, hr, ha⟩
          · exact ⟨j, List.mem_cons_of_mem _ hj, hp⟩
        · rintro ⟨j, hj, rfl, r', hr', ha⟩
          rcases List.mem_cons.mp hj with rfl | hj
          · obtain rfl := Option.some.inj (hr.symm.trans hr')
            exact .inl ⟨ha, rfl⟩
          · exact .inr ⟨j, hj, rfl, r', hr', ha⟩
      · intro j hj r' hr'
        rcases List.mem_cons.mp hj with rfl | hj
        · obtain rfl := Option.some.inj (hr.symm.trans hr')
          exact hin
        · exact hall j hj r' hr'
  obtain ⟨hentry, hall⟩ := hrun _ _ h
  refine ⟨fun a p => (hentry a p).trans ?_, ?_⟩
  · simp [entry, PlmxmlDocument.Lists]
  · rintro a p ⟨i, hi, -, r, hr, ha⟩
    exact hall i hi r hr a ha

theorem resolveParents_up (h : resolveParents document = .ok parents) (a : Str) (p : Option Str) :
    document.Up a p ↔ entry a parents = p := by
  have hlists := (resolveParents_ok h).1 a
  cases p with
  | some p => exact (hlists p).symm
  | none =>
    rw [Option.eq_none_iff_forall_ne_some]
    exact forall_congr' fun p => not_congr (hlists p).symm

theorem functional_up (h : resolveParents document = .ok parents) : Functional document.Up := by
  intro a p q hp hq
  rw [resolveParents_up h] at hp hq
  exact hp.symm.trans hq

/-! ## Paths from occurrences -/

/-- The path that a document supplies for an instance: what comes before it in the references of the
last occurrence that ends with it. -/
def PlmxmlDocument.suppliedPath (document : PlmxmlDocument) (id : Str) : Option (List Str) :=
  (document.occurrences.reverse.find? fun o => o.instanceRefs.getLast? = some id).map
    fun o => o.instanceRefs.dropLast

theorem addOccurrence_ok {o : Occurrence} (h : addOccurrence document table o = .ok table') (id : Str) :
    (o.instanceRefs.getLast? = some id → id ∈ document.ids)
      ∧ entry id table'.paths = if o.instanceRefs.getLast? = some id then some o.instanceRefs.dropLast
        else entry id table.paths := by
  unfold addOccurrence at h
  cases hleaf : o.instanceRefs.getLast? with
  | none =>
    rw [hleaf] at h
    obtain rfl := Except.ok.inj h
    simp
  | some leaf =>
    rw [hleaf] at h
    obtain ⟨_, hresolved, h⟩ := bind_eq_ok.mp h
    obtain rfl := Except.ok.inj h
    constructor
    · intro hid
      exact require_eq_ok.mp hresolved id (List.mem_of_getLast? (hleaf.trans hid))
    · simp [entry_upsert]

/-- **The paths that the code collects** are those the document supplies, for instances it has. -/
theorem collectOccurrences_ok (h : collectOccurrences document = .ok table) (id : Str) :
    entry id table.paths = document.suppliedPath id
      ∧ ∀ path, document.suppliedPath id = some path → id ∈ document.ids := by
  have hrun : ∀ (rows : List Occurrence) (start : OccurrenceTable),
      rows.foldlM (addOccurrence document) start = .ok table →
      (entry id table.paths = ((rows.reverse.find? fun o => o.instanceRefs.getLast? = some id).map
        fun o => o.instanceRefs.dropLast).or (entry id start.paths))
      ∧ ∀ o ∈ rows, o.instanceRefs.getLast? = some id → id ∈ document.ids := by
    intro rows
    induction rows with
    | nil =>
      intro start h
      obtain rfl := Except.ok.inj h
      simp
    | cons o rows ih =>
      intro start h
      rw [List.foldlM_cons] at h
      obtain ⟨next, hnext, h⟩ := bind_eq_ok.mp h
      obtain ⟨hleaf, hstep⟩ := addOccurrence_ok hnext id
      obtain ⟨hrest, hleaves⟩ := ih next h
      constructor
      · rw [hrest, hstep, List.reverse_cons, List.find?_append]
        cases rows.reverse.find? fun o => o.instanceRefs.getLast? = some id with
        | some found => rfl
        | none => by_cases ho : o.instanceRefs.getLast? = some id <;> simp [ho]
      · intro o' ho'
        rcases List.mem_cons.mp ho' with rfl | ho'
        · exact hleaf
        · exact hleaves o' ho'
  obtain ⟨hpaths, hleaves⟩ := hrun _ _ h
  constructor
  · rw [hpaths, PlmxmlDocument.suppliedPath]
    simp [entry]
  · intro path hsupplied
    obtain ⟨o, ho, -⟩ := Option.map_eq_some_iff.mp hsupplied
    have hlast := List.find?_some ho
    exact hleaves o (List.mem_reverse.mp (List.mem_of_find?_eq_some ho)) (by simpa using hlast)

/-! ## Walking up -/

theorem lineage_of_climb {fuel : ℕ} {seen result walked : List Str} {current : Str}
    (h : climb parents fuel seen current result = .ok walked) :
    ∃ path, LeadsTo (fun a p => entry a parents = p) path current
      ∧ walked = path ++ result.reverse := by
  induction fuel generalizing seen current result with
  | zero =>
    unfold climb at h
    split at h
    case h_1 hroot => exact ⟨[], .root hroot, (Except.ok.inj h).symm⟩
    case h_2 => split_ifs at h
  | succ fuel ih =>
    unfold climb at h
    split at h
    case h_1 hroot => exact ⟨[], .root hroot, (Except.ok.inj h).symm⟩
    case h_2 parent hparent =>
        split_ifs at h
        obtain ⟨path, hpath, rfl⟩ := ih h
        refine ⟨path ++ [parent], .child hparent hpath, ?_⟩
        rw [List.reverse_append, List.append_assoc]
        rfl

theorem climb_of_lineage {fuel : ℕ} {seen result : List Str} {current : Str}
    (h : LeadsTo (fun a p => entry a parents = p) path current) (hfuel : path.length ≤ fuel)
    (hnodup : path.Nodup) (hseen : ∀ a ∈ path, a ∉ seen) :
    climb parents fuel seen current result = .ok (path ++ result.reverse) := by
  induction h generalizing fuel seen result with
  | root hroot =>
    unfold climb
    rw [hroot]
    rfl
  | @child current parent path hparent hpath ih =>
    rw [List.length_append, List.length_singleton] at hfuel
    obtain ⟨fuel, rfl⟩ : ∃ n, fuel = n + 1 := ⟨fuel - 1, by omega⟩
    obtain ⟨hrest, -, hlast⟩ := List.nodup_append.mp hnodup
    have hnew : parent ∉ seen := hseen parent (by simp)
    have hclear : ∀ a ∈ path, a ∉ parent :: seen := by
      intro a ha
      rw [List.mem_cons, not_or]
      exact ⟨hlast a ha parent (List.mem_singleton_self _), hseen a (List.mem_append_left _ ha)⟩
    unfold climb
    rw [hparent]
    dsimp only
    rw [if_neg hnew, ih (by omega) hrest hclear, List.reverse_append, List.append_assoc]
    rfl

theorem mem_parents_of_leadsTo (h : LeadsTo (fun a p => entry a parents = p) path a) :
    ∀ b ∈ path, b ∈ parents.map Prod.snd := by
  induction h with
  | root => intro b hb; cases hb
  | child hparent _ ih =>
    intro b hb
    rcases List.mem_append.mp hb with hb | hb
    · exact ih b hb
    · rw [List.mem_singleton] at hb
      subst hb
      obtain ⟨row, hrow, rfl⟩ := Option.map_eq_some_iff.mp hparent
      exact List.mem_map_of_mem (mem_of_lookup hrow)

/-- **The walk of `parent_path`** returns the lineage of the instance, where it has one. -/
theorem climb_eq_ok_iff {fuel : ℕ} (hfuel : parents.length ≤ fuel) :
    climb parents fuel [a] a [] = .ok path ↔ LeadsTo (fun a p => entry a parents = p) path a := by
  constructor
  · intro h
    obtain ⟨path', hpath, rfl⟩ := lineage_of_climb h
    simpa using hpath
  · intro h
    have hnodup := h.nodup (fun a p q hp hq => hp.symm.trans hq)
    obtain ⟨hpath, -, hself⟩ := List.nodup_append.mp hnodup
    have hsub : path ⊆ parents.map Prod.snd := mem_parents_of_leadsTo h
    have hlength := (hpath.subperm hsub).length_le
    rw [List.length_map] at hlength
    have hseen : ∀ b ∈ path, b ∉ [a] := fun b hb hba =>
      hself b hb a (List.mem_singleton_self _) (List.mem_singleton.mp hba)
    rw [climb_of_lineage h (hlength.trans hfuel) hpath hseen, List.reverse_nil, List.append_nil]

end Ai00.Simulation
