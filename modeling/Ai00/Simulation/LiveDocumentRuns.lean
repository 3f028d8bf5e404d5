import Ai00.Simulation.LiveDocumentImport

/-! # What the projection of a document session keeps

The loop over the models of one observation keeps every retained insertion and adds one for each
instance that is new (`Tracked`); from it follow what an accepted observation does to the projection
(`projectModelInsertions_ok`) and, by induction over the observations, what a session keeps.
-/

namespace Ai00.Simulation

open KeyedRows Stateful

variable {uuid : ℕ → Str} {observedAt : ℤ} {disappeared seen seen' : List Str}
  {previous retained retained' : List ModelInsertion} {n n' : ℕ} {model : ModelObservation}
  {row row' : ModelInsertion} {id : Str}

/-! ## One insertion -/

/-- What never changes of an insertion. -/
structure SameInsertion (row row' : ModelInsertion) : Prop where
  native : row'.nativeInstanceId = row.nativeInstanceId
  insertion : row'.insertionInstanceId = row.insertionInstanceId
  firstSeen : row'.firstSeenAt = row.firstSeenAt
  kind : row'.sourceKind = row.sourceKind
  source : row'.sourceIdentity = row.sourceIdentity

theorem SameInsertion.rfl : SameInsertion row row := ⟨.refl _, .refl _, .refl _, .refl _, .refl _⟩

theorem SameInsertion.trans {row'' : ModelInsertion} (h : SameInsertion row row')
    (h' : SameInsertion row' row'') : SameInsertion row row'' :=
  ⟨h'.native.trans h.native, h'.insertion.trans h.insertion, h'.firstSeen.trans h.firstSeen,
    h'.kind.trans h.kind, h'.source.trans h.source⟩

theorem same_refreshed (old : ModelInsertion) (insertedAt : Option ℤ) :
    SameInsertion old (old.refreshed model insertedAt) :=
  ⟨.refl _, .refl _, .refl _, .refl _, .refl _⟩

/-- Insertions with native ids and insertion ids of their own, the latter among the drawn ones. -/
structure Registered (uuid : ℕ → Str) (retained : List ModelInsertion) (drawn : ℕ) : Prop where
  natives : (retained.map ModelInsertion.nativeInstanceId).Nodup
  insertions : (retained.map ModelInsertion.insertionInstanceId).Nodup
  drawn : ∀ row ∈ retained, ∃ i < drawn, row.insertionInstanceId = uuid i

theorem Registered.mono (h : Registered uuid retained n) (hle : n ≤ n') : Registered uuid retained n' where
  natives := h.natives
  insertions := h.insertions
  drawn row hrow := by
    obtain ⟨i, hi, heq⟩ := h.drawn row hrow
    exact ⟨i, lt_of_lt_of_le hi hle, heq⟩

theorem Registered.eq_of_native (h : Registered uuid retained n) (hrow : row ∈ retained)
    (hrow' : row' ∈ retained) (heq : row.nativeInstanceId = row'.nativeInstanceId) : row = row' := by
  have hfound := lookup_of_mem h.natives hrow
  rw [heq, lookup_of_mem h.natives hrow'] at hfound
  exact (Option.some.inj hfound).symm

theorem Registered.eq_of_insertion (h : Registered uuid retained n) (hrow : row ∈ retained)
    (hrow' : row' ∈ retained) (heq : row.insertionInstanceId = row'.insertionInstanceId) :
    row = row' := by
  have hfound := lookup_of_mem h.insertions hrow
  rw [heq, lookup_of_mem h.insertions hrow'] at hfound
  exact (Option.some.inj hfound).symm

/-! ## One model -/

/-- What one round of the loop does. -/
inductive Observed (uuid : ℕ → Str) (disappeared : List Str) (retained : List ModelInsertion)
    (n : ℕ) (key : Str) : List ModelInsertion → ℕ → Prop
  | again {old row : ModelInsertion} (hold : old ∈ retained) (hkey : old.nativeInstanceId = key)
      (hthere : old.insertionInstanceId ∉ disappeared) (hsame : SameInsertion old row) :
      Observed uuid disappeared retained n key
        (upsert ModelInsertion.nativeInstanceId row retained) n
  | inserted {row : ModelInsertion} (hnew : ∀ r ∈ retained, r.nativeInstanceId ≠ key)
      (hkey : row.nativeInstanceId = key) (hid : row.insertionInstanceId = uuid n) :
      Observed uuid disappeared retained n key (retained ++ [row]) (n + 1)

theorem observeModel_ok
    (h : observeModel uuid observedAt disappeared (retained, seen) model n = (.ok (retained', seen'), n')) :
    seen' = seen ++ [model.nativeInstanceId]
      ∧ Observed uuid disappeared retained n model.nativeInstanceId retained' n' := by
  obtain ⟨insertedAt, -, hloop⟩ := lift_bind_returns.mp h
  obtain ⟨row, t, hrow, hlast⟩ := bind_returns.mp hloop
  obtain ⟨_, -, hreturn⟩ := lift_bind_returns.mp hlast
  obtain ⟨hresult, rfl⟩ := pure_eq_ok.mp hreturn
  cases hresult
  refine ⟨rfl, ?_⟩
  cases hfound : lookup ModelInsertion.nativeInstanceId model.nativeInstanceId retained with
  | some old =>
    rw [hfound] at hrow
    obtain ⟨_, hthere, hrow⟩ := lift_bind_returns.mp hrow
    obtain ⟨_, -, hrow⟩ := lift_bind_returns.mp hrow
    obtain ⟨_, -, hrow⟩ := lift_bind_returns.mp hrow
    obtain ⟨rfl, rfl⟩ := pure_eq_ok.mp hrow
    exact .again (mem_of_lookup hfound) (key_of_lookup hfound) (require_eq_ok.mp hthere)
      (same_refreshed old insertedAt)
  | none =>
    rw [hfound] at hrow
    have hnew := lookup_eq_none_iff.mp hfound
    cases hrow
    rw [upsert_of_new hnew]
    exact .inserted hnew rfl rfl

/-! ## The loop -/

/-- What holds in the loop over the models, for the insertions of before. -/
structure Tracked (uuid : ℕ → Str) (previous : List ModelInsertion) (disappeared : List Str)
    (seen : List Str) (retained : List ModelInsertion) (n : ℕ) : Prop where
  registered : Registered uuid retained n
  kept : ∀ row ∈ previous, ∃ row' ∈ retained, SameInsertion row row'
  /-- No instance that is seen had disappeared. -/
  there : ∀ row ∈ retained, row.nativeInstanceId ∈ seen → row.insertionInstanceId ∉ disappeared

theorem Tracked.observed (hinj : Function.Injective uuid)
    (hids : ∀ id ∈ disappeared, ∃ row ∈ previous, row.insertionInstanceId = id)
    (h : Tracked uuid previous disappeared seen retained n) {key : Str}
    (hstep : Observed uuid disappeared retained n key retained' n') :
    Tracked uuid previous disappeared (seen ++ [key]) retained' n' := by
  cases hstep with
  | @again old row hold hkey hthere hsame =>
    have hrowkey : old.nativeInstanceId = row.nativeInstanceId := hsame.native.symm
    have honly : ∀ r ∈ retained, r.nativeInstanceId = row.nativeInstanceId → r = old :=
      fun r hr heq => h.registered.eq_of_native hr hold (heq.trans hsame.native)
    refine ⟨⟨nodup_upsert h.registered.natives, ?_, ?_⟩, ?_, ?_⟩
    · have hmap := map_upsert (f := ModelInsertion.insertionInstanceId) hold hrowkey
        fun r hr heq => (honly r hr heq) ▸ hsame.insertion
      rw [hmap]
      exact h.registered.insertions
    · intro r hr
      rcases mem_upsert hr with rfl | hr
      · rw [hsame.insertion]
        exact h.registered.drawn old hold
      · exact h.registered.drawn r hr
    · intro p hp
      obtain ⟨r, hr, hpr⟩ := h.kept p hp
      by_cases heq : r.nativeInstanceId = row.nativeInstanceId
      · obtain rfl := honly r hr heq
        exact ⟨row, mem_upsert_self, hpr.trans hsame⟩
      · exact ⟨r, mem_upsert_of_ne hr heq, hpr⟩
    · intro r hr hseen
      rcases mem_upsert hr with rfl | hr
      · rw [hsame.insertion]
        exact hthere
      · rcases List.mem_append.mp hseen with hseen | hseen
        · exact h.there r hr hseen
        · have hr' : r = old :=
            h.registered.eq_of_native hr hold ((List.mem_singleton.mp hseen).trans hkey.symm)
          exact hr' ▸ hthere
  | @inserted row hnew hkey hid =>
    -- the id is none of those that were drawn before
    have hfresh : ∀ r ∈ retained, r.insertionInstanceId ≠ row.insertionInstanceId := by
      intro r hr heq
      obtain ⟨i, hi, hdrawn⟩ := h.registered.drawn r hr
      have hsame : i = n := hinj (hdrawn.symm.trans (heq.trans hid))
      omega
    refine ⟨⟨?_, ?_, ?_⟩, ?_, ?_⟩
    · rw [List.map_append, List.map_singleton, ← List.concat_eq_append, List.nodup_concat]
      refine ⟨fun hin => ?_, h.registered.natives⟩
      obtain ⟨r, hr, heq⟩ := List.mem_map.mp hin
      exact hnew r hr (heq.trans hkey)
    · rw [List.map_append, List.map_singleton, ← List.concat_eq_append, List.nodup_concat]
      refine ⟨fun hin => ?_, h.registered.insertions⟩
      obtain ⟨r, hr, heq⟩ := List.mem_map.mp hin
      exact hfresh r hr heq
    · intro r hr
      rcases List.mem_append.mp hr with hr | hr
      · obtain ⟨i, hi, heq⟩ := h.registered.drawn r hr
        exact ⟨i, by omega, heq⟩
      · obtain rfl := List.mem_singleton.mp hr
        exact ⟨n, Nat.lt_succ_self n, hid⟩
    · intro p hp
      obtain ⟨r, hr, hpr⟩ := h.kept p hp
      exact ⟨r, List.mem_append_left _ hr, hpr⟩
    · intro r hr hseen
      rcases List.mem_append.mp hr with hr | hr
      · rcases List.mem_append.mp hseen with hseen | hseen
        · exact h.there r hr hseen
        · exact absurd (List.mem_singleton.mp hseen) (hnew r hr)
      · obtain rfl := List.mem_singleton.mp hr
        intro hin
        obtain ⟨p, hp, hpid⟩ := hids _ hin
        obtain ⟨q, hq, hpq⟩ := h.kept p hp
        exact hfresh q hq (hpq.insertion.trans hpid)

theorem foldlM_observeModel (hinj : Function.Injective uuid)
    (hids : ∀ id ∈ disappeared, ∃ row ∈ previous, row.insertionInstanceId = id)
    {models : List ModelObservation} (h : Tracked uuid previous disappeared seen retained n)
    (hrun : models.foldlM (observeModel uuid observedAt disappeared) (retained, seen) n
      = (.ok (retained', seen'), n')) :
    seen' = seen ++ models.map ModelObservation.nativeInstanceId
      ∧ Tracked uuid previous disappeared seen' retained' n' ∧ n ≤ n' := by
  induction models generalizing retained seen n with
  | nil =>
    cases hrun
    exact ⟨(List.append_nil _).symm, h, le_refl _⟩
  | cons model models ih =>
    rw [List.foldlM_cons] at hrun
    obtain ⟨⟨retained₁, seen₁⟩, n₁, hstep, hrun⟩ := bind_returns.mp hrun
    obtain ⟨rfl, hobserved⟩ := observeModel_ok hstep
    have hle : n ≤ n₁ := by
      cases hobserved with
      | again _ _ _ _ => exact le_refl _
      | inserted _ _ _ => exact Nat.le_succ _
    obtain ⟨rfl, htracked, hle'⟩ := ih (h.observed hinj hids hobserved) hrun
    exact ⟨by simp, htracked, le_trans hle hle'⟩

theorem observeModel_leaves (state : List ModelInsertion × List Str) :
    Leaves (· ≤ ·) (observeModel uuid observedAt disappeared state model) := by
  have hrefl : ∀ n : ℕ, n ≤ n := le_refl
  have htrans : ∀ a b c : ℕ, a ≤ b → b ≤ c → a ≤ c := fun _ _ _ => le_trans
  have hrow : ∀ insertedAt found,
      Leaves (· ≤ ·) (modelRow uuid observedAt disappeared model insertedAt found) := by
    intro insertedAt found
    cases found with
    | some old =>
      refine .bind htrans (.lift hrefl _) fun _ => ?_
      refine .bind htrans (.lift hrefl _) fun _ => ?_
      exact .bind htrans (.lift hrefl _) fun _ => .pure hrefl _
    | none => exact .bind htrans (fun n => Nat.le_succ n) fun _ => .pure hrefl _
  obtain ⟨retained, seen⟩ := state
  refine .bind htrans (.lift hrefl _) fun insertedAt => ?_
  refine .bind htrans (hrow insertedAt _) fun row => ?_
  exact .bind htrans (.lift hrefl _) fun _ => .pure hrefl _

theorem projectModelInsertions_leaves (o : DocumentObservation)
    (previous : Option ModelImportProjection) :
    Leaves (· ≤ ·) (projectModelInsertions uuid o previous) := by
  have hrefl : ∀ n : ℕ, n ≤ n := le_refl
  have htrans : ∀ a b c : ℕ, a ≤ b → b ≤ c → a ≤ c := fun _ _ _ => le_trans
  refine .bind htrans (.lift hrefl _) fun observedAt => ?_
  refine .bind htrans (.foldlM hrefl htrans ?_ _ _) fun _ => .pure hrefl _
  exact fun state model => observeModel_leaves state

/-! ## One observation -/

/-- A projection as the observations of a session leave it. -/
structure ModelImportProjection.Sound (uuid : ℕ → Str) (n : ℕ) (p : ModelImportProjection) :
    Prop where
  registered : Registered uuid p.instances n
  missing : ∀ id ∈ p.missingFromCompleteObservation,
    ∃ row ∈ p.instances, row.insertionInstanceId = id

/-- The instance was seen in the observation. -/
def DocumentObservation.Shows (o : DocumentObservation) (native : Str) : Prop :=
  native ∈ o.models.map ModelObservation.nativeInstanceId

/-- What an accepted observation makes of a projection. -/
structure Succeeds (uuid : ℕ → Str) (o : DocumentObservation)
    (previous : Option ModelImportProjection) (p : ModelImportProjection) (n : ℕ) : Prop where
  sound : p.Sound uuid n
  kept : ∀ old ∈ previous, ∀ row ∈ old.instances, ∃ row' ∈ p.instances, SameInsertion row row'
  missing : ∀ id, id ∈ p.missingFromCompleteObservation ↔
    (∃ old ∈ previous, id ∈ old.missingFromCompleteObservation)
      ∨ (o.complete = true ∧ ∃ row ∈ p.instances, row.insertionInstanceId = id
        ∧ ¬ o.Shows row.nativeInstanceId)
  there : ∀ old ∈ previous, ∀ row ∈ old.instances, o.Shows row.nativeInstanceId →
    row.insertionInstanceId ∉ old.missingFromCompleteObservation

/-- A dictionary of rows with keys of their own is the rows. -/
theorem upsertAll_nil (h : (retained.map ModelInsertion.nativeInstanceId).Nodup) :
    upsertAll ModelInsertion.nativeInstanceId retained [] = retained := by
  suffices hfold : ∀ front, ((front ++ retained).map ModelInsertion.nativeInstanceId).Nodup →
      upsertAll ModelInsertion.nativeInstanceId retained front = front ++ retained by
    exact hfold [] h
  clear h
  induction retained with
  | nil => exact fun front _ => (List.append_nil front).symm
  | cons row rest ih =>
    intro front hnodup
    have hnew : ∀ r ∈ front, r.nativeInstanceId ≠ row.nativeInstanceId := by
      intro r hr heq
      rw [List.map_append, List.nodup_append] at hnodup
      exact hnodup.2.2 _ (List.mem_map_of_mem hr) _ (List.mem_map_of_mem List.mem_cons_self) heq
    rw [upsertAll, List.foldl_cons, upsert_of_new hnew, ← upsertAll, ih _ (by simpa using hnodup)]
    simp

theorem mem_missing_projected {o : DocumentObservation} :
    id ∈ (projected o observedAt disappeared (o.models.map ModelObservation.nativeInstanceId)
      retained).missingFromCompleteObservation ↔ (∃ row ∈ retained, row.insertionInstanceId = id)
        ∧ (id ∈ disappeared ∨ (o.complete = true ∧ ∃ row ∈ retained, row.insertionInstanceId = id
          ∧ ¬ o.Shows row.nativeInstanceId)) := by
  let seen := o.models.map ModelObservation.nativeInstanceId
  let gone := (retained.filter (·.nativeInstanceId ∉ seen)).map ModelInsertion.insertionInstanceId
  have hgone : id ∈ gone ↔
      ∃ row ∈ retained, row.insertionInstanceId = id ∧ ¬ o.Shows row.nativeInstanceId := by
    simp only [gone, List.mem_map, List.mem_filter, decide_eq_true_eq]
    exact exists_congr fun row => ⟨fun ⟨⟨hrow, hshown⟩, heq⟩ => ⟨hrow, heq, hshown⟩,
      fun ⟨hrow, heq, hshown⟩ => ⟨⟨hrow, hshown⟩, heq⟩⟩
  have hmarked : id ∈ (if o.complete then disappeared ++ gone else disappeared) ↔
      id ∈ disappeared ∨ (o.complete = true ∧ id ∈ gone) := by
    cases o.complete <;> simp
  rw [← hgone, ← hmarked]
  constructor
  · intro hid
    obtain ⟨row, hrow, rfl⟩ := List.mem_map.mp hid
    obtain ⟨hrow, hin⟩ := List.mem_filter.mp hrow
    exact ⟨⟨row, hrow, rfl⟩, of_decide_eq_true hin⟩
  · rintro ⟨⟨row, hrow, rfl⟩, hin⟩
    exact List.mem_map.mpr ⟨row, List.mem_filter.mpr ⟨hrow, decide_eq_true hin⟩, rfl⟩

theorem projected_succeeds {o : DocumentObservation} {previous : Option ModelImportProjection}
    (hsound : ∀ p ∈ previous, p.Sound uuid n)
    (h : Tracked uuid ((previous.map (·.instances)).getD [])
      ((previous.map (·.missingFromCompleteObservation)).getD [])
      (o.models.map ModelObservation.nativeInstanceId) retained n') :
    Succeeds uuid o previous (projected o observedAt
      ((previous.map (·.missingFromCompleteObservation)).getD [])
      (o.models.map ModelObservation.nativeInstanceId) retained) n' := by
  have hin : ∀ id, id ∈ (previous.map (·.missingFromCompleteObservation)).getD [] ↔
      ∃ old ∈ previous, id ∈ old.missingFromCompleteObservation := by
    intro id
    cases previous <;> simp
  have hkept : ∀ old ∈ previous, ∀ row ∈ old.instances, ∃ row' ∈ retained, SameInsertion row row' := by
    rintro old hold row hrow
    cases hold
    exact h.kept row hrow
  refine ⟨⟨h.registered, ?_⟩, hkept, fun id => ?_, fun old hold row hrow hshown hmissing => ?_⟩
  · intro id hid
    exact (mem_missing_projected.mp hid).1
  · rw [mem_missing_projected, hin]
    constructor
    · exact And.right
    · intro hid
      refine ⟨?_, hid⟩
      rcases hid with ⟨old, hold, hold'⟩ | ⟨-, row, hrow, heq, -⟩
      · obtain ⟨row, hrow, rfl⟩ := (hsound old hold).missing id hold'
        obtain ⟨row', hrow', hsame⟩ := hkept old hold row hrow
        exact ⟨row', hrow', hsame.insertion⟩
      · exact ⟨row, hrow, heq⟩
  · obtain ⟨row', hrow', hsame⟩ := hkept old hold row hrow
    have hnot := h.there row' hrow' (hsame.native ▸ hshown)
    rw [hsame.insertion] at hnot
    exact hnot ((hin _).mpr ⟨old, hold, hmissing⟩)

/-- **An accepted observation.** -/
theorem projectModelInsertions_ok (hinj : Function.Injective uuid) {o : DocumentObservation}
    {previous : Option ModelImportProjection} (hsound : ∀ p ∈ previous, p.Sound uuid n)
    {p : ModelImportProjection} (h : projectModelInsertions uuid o previous n = (.ok p, n')) :
    Succeeds uuid o previous p n' := by
  obtain ⟨observedAt, -, h⟩ := lift_bind_returns.mp h
  obtain ⟨⟨retained, seen⟩, t, hloop, hreturn⟩ := bind_returns.mp h
  obtain ⟨rfl, rfl⟩ := pure_eq_ok.mp hreturn
  have hregistered : Registered uuid ((previous.map (·.instances)).getD []) n := by
    cases previous with
    | none => exact ⟨List.nodup_nil, List.nodup_nil, fun row hrow => by cases hrow⟩
    | some old => exact (hsound old rfl).registered
  rw [upsertAll_nil hregistered.natives] at hloop
  have hids : ∀ id ∈ (previous.map (·.missingFromCompleteObservation)).getD [],
      ∃ row ∈ (previous.map (·.instances)).getD [], row.insertionInstanceId = id := by
    intro id hid
    cases previous with
    | none => cases hid
    | some old => exact (hsound old rfl).missing id hid
  have hstart : Tracked uuid ((previous.map (·.instances)).getD [])
      ((previous.map (·.missingFromCompleteObservation)).getD []) []
      ((previous.map (·.instances)).getD []) n :=
    ⟨hregistered, fun row hrow => ⟨row, hrow, .rfl⟩, fun row _ hseen => by cases hseen⟩
  obtain ⟨rfl, htracked, -⟩ := foldlM_observeModel hinj hids hstart hloop
  rw [List.nil_append] at htracked ⊢
  exact projected_succeeds hsound htracked

/-! ## Sessions -/

variable {w w' : ImportState} {o : DocumentObservation} {p p' : ModelImportProjection}

def ImportState.Sound (uuid : ℕ → Str) (w : ImportState) : Prop :=
  ∀ p ∈ w.projection, p.Sound uuid w.drawn

/-- A session goes on: nothing that is recorded changes, and what is missing stays missing. -/
def ImportState.Extends (w w' : ImportState) : Prop :=
  ∀ p ∈ w.projection, ∃ p' ∈ w'.projection,
    (∀ row ∈ p.instances, ∃ row' ∈ p'.instances, SameInsertion row row')
      ∧ ∀ id ∈ p.missingFromCompleteObservation, id ∈ p'.missingFromCompleteObservation

theorem ImportState.Extends.refl (w : ImportState) : w.Extends w :=
  fun p hp => ⟨p, hp, fun row hrow => ⟨row, hrow, .rfl⟩, fun _ hid => hid⟩

theorem ImportState.Extends.trans {w'' : ImportState} (h : w.Extends w') (h' : w'.Extends w'') :
    w.Extends w'' := by
  intro p hp
  obtain ⟨p', hp', hkept, hmissing⟩ := h p hp
  obtain ⟨p'', hp'', hkept', hmissing'⟩ := h' p' hp'
  refine ⟨p'', hp'', fun row hrow => ?_, fun id hid => hmissing' id (hmissing id hid)⟩
  obtain ⟨row', hrow', hsame⟩ := hkept row hrow
  obtain ⟨row'', hrow'', hsame'⟩ := hkept' row' hrow'
  exact ⟨row'', hrow'', hsame.trans hsame'⟩

theorem ImportState.next_cases (uuid : ℕ → Str) (w : ImportState) (o : DocumentObservation) :
    (∃ p drawn, projectModelInsertions uuid o w.projection w.drawn = (.ok p, drawn)
        ∧ w.next uuid o = ⟨some p, drawn⟩)
      ∨ ∃ drawn, w.drawn ≤ drawn ∧ w.next uuid o = ⟨w.projection, drawn⟩ := by
  unfold ImportState.next
  have hle := @projectModelInsertions_leaves uuid o w.projection w.drawn
  rcases hresult : projectModelInsertions uuid o w.projection w.drawn with ⟨e | p, drawn⟩
  · rw [hresult] at hle
    exact Or.inr ⟨drawn, hle, rfl⟩
  · exact Or.inl ⟨p, drawn, rfl, rfl⟩

theorem ImportState.Sound.next (hinj : Function.Injective uuid) (h : w.Sound uuid)
    (o : DocumentObservation) : (w.next uuid o).Sound uuid ∧ w.Extends (w.next uuid o) := by
  rcases w.next_cases uuid o with ⟨p, drawn, hok, hnext⟩ | ⟨drawn, hle, hnext⟩
  · have hsucceeds := projectModelInsertions_ok hinj h hok
    rw [hnext]
    refine ⟨fun q hq => ?_, fun old hold => ⟨p, rfl, hsucceeds.kept old hold, fun id hid => ?_⟩⟩
    · obtain rfl : p = q := Option.some.inj hq
      exact hsucceeds.sound
    · exact (hsucceeds.missing id).mpr (Or.inl ⟨old, hold, hid⟩)
  · rw [hnext]
    refine ⟨fun q hq => ⟨(h q hq).registered.mono hle, (h q hq).missing⟩, ?_⟩
    exact ImportState.Extends.refl w

theorem ImportState.Sound.after (hinj : Function.Injective uuid) (h : w.Sound uuid)
    (observations : List DocumentObservation) :
    (Successive.after (ImportState.next uuid) w observations).Sound uuid :=
  Successive.after_keeps h fun _ o hw => (hw.next hinj o).1

theorem ImportState.Sound.extends_after (hinj : Function.Injective uuid) (h : w.Sound uuid)
    (more : List DocumentObservation) :
    w.Extends (Successive.after (ImportState.next uuid) w more) :=
  Successive.after_related ImportState.Extends.refl (fun _ _ _ => ImportState.Extends.trans) h
    (fun _ o hw => (hw.next hinj o).1) fun _ o hw => (hw.next hinj o).2

/-- What the projection of a session promises. -/
structure ImportState.KeepsInsertions (uuid : ℕ → Str) (w : ImportState) : Prop where
  /-- One insertion for a native instance, and one native instance for an insertion. -/
  unique : ∀ p ∈ w.projection, (p.instances.map ModelInsertion.nativeInstanceId).Nodup
    ∧ (p.instances.map ModelInsertion.insertionInstanceId).Nodup
  /-- Whatever observations follow, no insertion is dropped, none changes its id, its first-seen time
  or its source, and none loses the mark that it is missing. -/
  kept : ∀ more, w.Extends (Successive.after (ImportState.next uuid) w more)
  /-- Whatever observations follow, an id stays with its native instance. -/
  unshared : ∀ more, ∀ p ∈ w.projection, ∀ row ∈ p.instances,
    ∀ p' ∈ (Successive.after (ImportState.next uuid) w more).projection, ∀ row' ∈ p'.instances,
      row.insertionInstanceId = row'.insertionInstanceId ↔
        row.nativeInstanceId = row'.nativeInstanceId
  /-- What becomes missing is missed by a complete observation. -/
  marked : ∀ o p' drawn, projectModelInsertions uuid o w.projection w.drawn = (.ok p', drawn) →
    ∀ id, id ∈ p'.missingFromCompleteObservation ↔
      (∃ p ∈ w.projection, id ∈ p.missingFromCompleteObservation)
        ∨ (o.complete = true ∧ ∃ row ∈ p'.instances, row.insertionInstanceId = id
          ∧ ¬ o.Shows row.nativeInstanceId)
  /-- An observation with an instance that is missing is refused. -/
  reappeared : ∀ p ∈ w.projection, ∀ row ∈ p.instances,
    row.insertionInstanceId ∈ p.missingFromCompleteObservation → ∀ o : DocumentObservation,
      o.Shows row.nativeInstanceId →
        ∀ p' drawn, projectModelInsertions uuid o w.projection w.drawn ≠ (.ok p', drawn)
  /-- A refused observation leaves the projection. -/
  refused : ∀ o e drawn, projectModelInsertions uuid o w.projection w.drawn = (.error e, drawn) →
    (w.next uuid o).projection = w.projection

/-- **After any observations of a session the projection keeps its promises.** -/
theorem insertions_kept (hinj : Function.Injective uuid) (observations : List DocumentObservation) :
    (Successive.after (ImportState.next uuid) ⟨none, 0⟩ observations).KeepsInsertions uuid := by
  have hsound := ImportState.Sound.after hinj (w := ⟨none, 0⟩) (fun p hp => by cases hp) observations
  generalize Successive.after (ImportState.next uuid) ⟨none, 0⟩ observations = w at hsound
  refine ⟨fun p hp => ?_, hsound.extends_after hinj, ?_, ?_, ?_, fun o e drawn hrefused => ?_⟩
  · exact ⟨(hsound p hp).registered.natives, (hsound p hp).registered.insertions⟩
  · intro more p hp row hrow p' hp' row' hrow'
    obtain ⟨q, hq, hkept, -⟩ := hsound.extends_after hinj more p hp
    obtain rfl : q = p' := Option.some.inj (hq.symm.trans hp')
    obtain ⟨same, hin, hsame⟩ := hkept row hrow
    have hregistered := (hsound.after hinj more q hq).registered
    rw [← hsame.insertion, ← hsame.native]
    constructor
    · exact fun heq => congrArg _ (hregistered.eq_of_insertion hin hrow' heq)
    · exact fun heq => congrArg _ (hregistered.eq_of_native hin hrow' heq)
  · exact fun o p' drawn hok => (projectModelInsertions_ok hinj hsound hok).missing
  · intro p hp row hrow hmissing o hshown p' drawn hok
    exact (projectModelInsertions_ok hinj hsound hok).there p hp row hrow hshown hmissing
  · unfold ImportState.next
    rw [hrefused]

/-! ## A session with the ids 1, 11, 111, … -/

def bodyModel (native : String) : ModelObservation :=
  ⟨native.toList, "local_file".toList, "file:same".toList, "Body".toList, none, none⟩

/-- Two instances of one file, of which one is missed, returns and is refused. -/
def bodyObservations : List DocumentObservation :=
  [⟨"s".toList, .aware 10, [bodyModel "a", bodyModel "b"], true⟩,
    ⟨"s".toList, .aware 20, [bodyModel "a"], true⟩,
    ⟨"s".toList, .aware 30, [bodyModel "b"], true⟩]

theorem insertions_kept_bodies :
    (Successive.after (ImportState.next fun i => List.replicate (i + 1) '1') ⟨none, 0⟩
        bodyObservations).projection.map (·.missingFromCompleteObservation) = some ["11".toList]
      ∧ (Successive.after (ImportState.next fun i => List.replicate (i + 1) '1') ⟨none, 0⟩
          bodyObservations).KeepsInsertions fun i => List.replicate (i + 1) '1' := by
  have hinj : Function.Injective fun i => List.replicate (i + 1) '1' := by
    intro i j h
    simpa using congrArg List.length h
  exact ⟨by decide +kernel, insertions_kept hinj bodyObservations⟩

end Ai00.Simulation
