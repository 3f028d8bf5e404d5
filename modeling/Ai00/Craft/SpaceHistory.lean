import Ai00.Craft.Heads

/-! # Histories of spaces

What a run leaves of a head: its keys, its content hash and every member it ever held stay
(`Continues`), and members that no operation touches are the same (`run_leaves`). From this follow
what a synchronization overwrites and what a content hash says about the members.

Both guards have a gap. A synchronization checks a head version that comes with the call, not the
version that was compared; and of the operations that write members, only those that fill a new
head set its content hash.
-/

namespace Ai00.Craft.CraftWorld

/-! ## Members of a head -/

theorem member?_setMembers_of_not_mem {more members : List Member} {key : MemberKey}
    (h : key ∉ more.map Member.key) : member? key (setMembers more members) = member? key members := by
  rw [member?_setMembers]
  have hnone : member? key more.reverse = none := by
    refine KeyedRows.lookup_eq_none_iff.mpr fun m hm hkey => h ?_
    exact List.mem_map.mpr ⟨m, List.mem_reverse.mp hm, hkey⟩
  rw [hnone, Option.none_or]

theorem member?_perm {l l' : List Member} (h : l.Perm l') (hkeys : (l.map Member.key).Nodup)
    (key : MemberKey) : member? key l = member? key l' := by
  refine Option.ext fun m => ?_
  have hkeys' : (l'.map Member.key).Nodup := (h.map _).nodup_iff.mp hkeys
  exact (KeyedRows.lookup_iff_mem hkeys).trans
    ((and_congr_left' h.mem_iff).trans (KeyedRows.lookup_iff_mem hkeys').symm)

/-! ## One head through a run -/

/-- What a later head still has of an earlier one. -/
structure Continues (h h' : SpaceHead) : Prop where
  gid : h'.gid = h.gid
  spaceGid : h'.spaceGid = h.spaceGid
  tenantGid : h'.tenantGid = h.tenantGid
  contentHash : h'.contentHash = h.contentHash
  keys : ∀ key, (member? key h.members).isSome → (member? key h'.members).isSome

theorem Continues.refl (h : SpaceHead) : Continues h h := ⟨rfl, rfl, rfl, rfl, fun _ hkey => hkey⟩

theorem Continues.trans {h h' h'' : SpaceHead} (a : Continues h h') (b : Continues h' h'') :
    Continues h h'' :=
  ⟨b.gid.trans a.gid, b.spaceGid.trans a.spaceGid, b.tenantGid.trans a.tenantGid,
    b.contentHash.trans a.contentHash, fun key hkey => b.keys key (a.keys key hkey)⟩

theorem continues_edited (h : SpaceHead) (edits : List Member) : Continues h (h.edited edits) := by
  refine ⟨rfl, rfl, rfl, rfl, fun key hkey => ?_⟩
  show (member? key (setMembers edits h.members)).isSome
  rw [member?_setMembers, Option.isSome_or, hkey, Bool.or_true]

section

variable {hash : Json → Str} {w : CraftWorld} {c : Caller × SpaceCall} {h h' : SpaceHead}
  {calls : List (Caller × SpaceCall)}

theorem Keyed.head_inj (hkeyed : w.Keyed) (hh : h ∈ w.db.heads) (hh' : h' ∈ w.db.heads)
    (hspace : h.spaceGid = h'.spaceGid) : h = h' :=
  List.inj_on_of_nodup_map hkeyed.headSpaces hh hh' hspace

variable (hash) in
/-- **One head in one operation** is left as it is or edited. -/
theorem step_head (hkeyed : w.Keyed) (c : Caller × SpaceCall) (hh : h ∈ w.db.heads) :
    ∃ h' ∈ (w.spaceStep hash c).db.heads,
      h' = h ∨ ∃ edits, Edits hash w c.1 c.2 h edits ∧ h' = h.edited edits := by
  cases (spaceStep_stepped hash hkeyed c).written with
  | kept _ hheads _ => exact ⟨h, hheads ▸ hh, Or.inl rfl⟩
  | edited head edits hedits _ hheads _ =>
    rw [hheads]
    by_cases hgid : h.gid = head.gid
    · obtain rfl := List.inj_on_of_nodup_map hkeyed.headGids hh hedits.mem hgid
      refine ⟨h.edited edits, List.mem_map.mpr ⟨h, hh, by simp⟩, Or.inr ⟨edits, hedits, rfl⟩⟩
    · exact ⟨h, Rows.mem_update_of_not hh (beq_eq_false_iff_ne.mpr hgid), Or.inl rfl⟩
  | created _ _ _ _ hheads _ => exact ⟨h, hheads ▸ List.mem_append_left _ hh, Or.inl rfl⟩
  | saved _ _ _ _ hheads _ => exact ⟨h, hheads ▸ hh, Or.inl rfl⟩

/-- The operations of a run leave some members of a space's head as they are. -/
def Leaves (hash : Json → Str) (space : Gid) (kept : MemberKey → Prop) :
    CraftWorld → List (Caller × SpaceCall) → Prop
  | _, [] => True
  | w, c :: calls =>
    (∀ head edits, Edits hash w c.1 c.2 head edits → head.spaceGid = space → ∀ key, kept key →
      member? key (setMembers edits head.members) = member? key head.members) ∧
    Leaves hash space kept (w.spaceStep hash c) calls

/-- **Members that are left** are the same after a run. -/
theorem run_leaves {kept : MemberKey → Prop} (hkeyed : w.Keyed) (hh : h ∈ w.db.heads)
    (hleaves : Leaves hash h.spaceGid kept w calls) :
    ∃ h' ∈ (w.spaceRun hash calls).db.heads, Continues h h' ∧
      ∀ key, kept key → member? key h'.members = member? key h.members := by
  induction calls generalizing w h with
  | nil => exact ⟨h, hh, .refl h, fun _ _ => rfl⟩
  | cons c calls ih =>
    obtain ⟨h₁, hh₁, hcases⟩ := step_head hash hkeyed c hh
    have hone : Continues h h₁ ∧
        ∀ key, kept key → member? key h₁.members = member? key h.members := by
      rcases hcases with rfl | ⟨edits, hedits, rfl⟩
      · exact ⟨.refl h₁, fun _ _ => rfl⟩
      · exact ⟨continues_edited h edits, hleaves.1 h edits hedits rfl⟩
    obtain ⟨h₂, hh₂, hcontinues, hsame⟩ :=
      ih (hkeyed.spaceStep c) hh₁ (hone.1.spaceGid.symm ▸ hleaves.2)
    exact ⟨h₂, hh₂, hone.1.trans hcontinues, fun key hkey =>
      (hsame key hkey).trans (hone.2 key hkey)⟩

/-- The operation writes one of some members of a space's head. -/
def Touches (hash : Json → Str) (w : CraftWorld) (c : Caller × SpaceCall) (space : Gid)
    (keys : List MemberKey) : Prop :=
  ∃ head edits, Edits hash w c.1 c.2 head edits ∧ head.spaceGid = space ∧
    ∃ m ∈ edits, m.key ∈ keys

/-- No operation of a run writes any of them. -/
def Untouched (hash : Json → Str) (space : Gid) (keys : List MemberKey) :
    CraftWorld → List (Caller × SpaceCall) → Prop
  | _, [] => True
  | w, c :: calls =>
    ¬ Touches hash w c space keys ∧ Untouched hash space keys (w.spaceStep hash c) calls

theorem Untouched.leaves {space : Gid} {keys : List MemberKey}
    (h : Untouched hash space keys w calls) : Leaves hash space (· ∈ keys) w calls := by
  induction calls generalizing w with
  | nil => trivial
  | cons c calls ih =>
    refine ⟨fun head edits hedits hspace key hkey => ?_, ih h.2⟩
    refine member?_setMembers_of_not_mem fun hin => h.1 ?_
    obtain ⟨m, hm, rfl⟩ := List.mem_map.mp hin
    exact ⟨head, edits, hedits, hspace, m, hm, hkey⟩

variable (hash) in
theorem step_versions (hkeyed : w.Keyed) (c : Caller × SpaceCall) :
    w.db.versions <+: (w.spaceStep hash c).db.versions := by
  cases (spaceStep_stepped hash hkeyed c).written with
  | kept _ _ hversions => exact hversions ▸ List.prefix_refl _
  | edited _ _ _ _ _ hversions => exact hversions ▸ List.prefix_refl _
  | created _ _ _ _ _ hversions => exact hversions ▸ List.prefix_refl _
  | saved _ _ _ _ _ hversions => exact hversions ▸ List.prefix_append _ _

variable (hash) in
theorem step_ledger (hkeyed : w.Keyed) (c : Caller × SpaceCall) :
    w.db.ledger <+: (w.spaceStep hash c).db.ledger := by
  rcases (spaceStep_stepped hash hkeyed c).ledger with hsame | ⟨row, hrow, -⟩
  · exact hsame ▸ List.prefix_refl _
  · exact hrow ▸ List.prefix_append _ _

variable (hash) in
theorem run_versions (hkeyed : w.Keyed) (calls : List (Caller × SpaceCall)) :
    w.db.versions <+: (w.spaceRun hash calls).db.versions := by
  induction calls generalizing w with
  | nil => exact List.prefix_refl _
  | cons c calls ih => exact (step_versions hash hkeyed c).trans (ih (hkeyed.spaceStep c))

variable (hash) in
theorem run_ledger (hkeyed : w.Keyed) (calls : List (Caller × SpaceCall)) :
    w.db.ledger <+: (w.spaceRun hash calls).db.ledger := by
  induction calls generalizing w with
  | nil => exact List.prefix_refl _
  | cons c calls ih => exact (step_ledger hash hkeyed c).trans (ih (hkeyed.spaceStep c))

theorem spaceRun_append (w : CraftWorld) (calls more : List (Caller × SpaceCall)) :
    w.spaceRun hash (calls ++ more) = (w.spaceRun hash calls).spaceRun hash more :=
  List.foldl_append

variable {version : SpaceVersion}

theorem added_version (hkeyed : w.Keyed)
    (hin : version ∈ (w.spaceStep hash c).db.versions) (hnew : version ∉ w.db.versions) :
    ∃ head ∈ (w.spaceStep hash c).db.heads, head.spaceGid = version.spaceGid ∧
      head.tenantGid = version.tenantGid ∧
      ∀ key, member? key version.members = member? key head.members := by
  cases (spaceStep_stepped hash hkeyed c).written with
  | kept _ _ hversions => exact absurd (hversions ▸ hin) hnew
  | edited _ _ _ _ _ hversions => exact absurd (hversions ▸ hin) hnew
  | created _ _ _ _ _ hversions => exact absurd (hversions ▸ hin) hnew
  | saved head saved hsaves _ hheads hversions =>
    rw [hversions, List.mem_append, List.mem_singleton] at hin
    obtain rfl := hin.resolve_left hnew
    have hhead := List.mem_of_find?_eq_some hsaves.headOf
    have hspace : head.spaceGid = version.spaceGid := by simpa using List.find?_some hsaves.headOf
    refine ⟨head, hheads ▸ hhead, hspace, hsaves.tenant.symm, fun key => ?_⟩
    rw [hsaves.members]
    exact (member?_perm (List.perm_insertionSort _ _).symm (hkeyed.headMembers head hhead) key).symm

theorem versionMembers_of_mem (hkeyed : w.Keyed)
    (hin : version ∈ w.db.versions) : w.db.versionMembers version.gid = version.members := by
  have hfind : w.db.versions.find? (·.gid == version.gid) = some version :=
    KeyedRows.lookup_of_mem hkeyed.versionGids hin
  unfold Store.versionMembers
  rw [hfind]

theorem tenantMembers_of_mem (hkeyed : w.Keyed)
    (hin : version ∈ w.db.versions) :
    tenantMembers w.db.toStore version.tenantGid version.gid = version.members := by
  unfold tenantMembers
  rw [if_pos, versionMembers_of_mem hkeyed hin]
  exact List.any_eq_true.mpr ⟨version, hin, by simp⟩

end

/-! ## Synchronizing -/

section

variable {hash : Json → Str} {w w' : CraftWorld} {caller : Caller} {operation space : Gid}
  {keys : List MemberKey} {head : SpaceHead}

/-- A version of the space was saved and compared as ours, and since it was saved no operation has
written any of the selected members of the space's head. -/
def Compared (hash : Json → Str) (start : CraftWorld) (calls : List (Caller × SpaceCall))
    (operation space : Gid) (keys : List MemberKey) : Prop :=
  ∃ before save between diff after, calls = before ++ save :: (between ++ diff :: after) ∧
    ∃ version row base theirs,
      (version ∈ (start.spaceRun hash (before ++ [save])).db.versions ∧
        version ∉ (start.spaceRun hash before).db.versions ∧ version.spaceGid = space) ∧
      diff.2 = SpaceCall.startDiff base version.gid theirs ∧
      (row ∈ (start.spaceRun hash (before ++ save :: (between ++ [diff]))).db.ledger ∧
        row ∉ (start.spaceRun hash (before ++ save :: between)).db.ledger ∧ row.gid = operation) ∧
      Untouched hash space keys (start.spaceRun hash (before ++ [save])) (between ++ diff :: after)

theorem ours_of_mem_diffItems {base ours theirs : List Member} {item : DiffItem}
    (h : item ∈ diffItems base ours theirs) : item.ours = member? item.key ours := by
  obtain ⟨key, -, rfl⟩ := List.mem_map.mp h
  rfl

theorem added_diff {c : Caller × SpaceCall} {base ours theirs : Gid}
    (hcall : c.2 = .startDiff base ours theirs) {row : LedgerRow}
    (hin : row ∈ (w.spaceStep hash c).db.ledger) (hnew : row ∉ w.db.ledger) :
    row.tenantGid = c.1.tenantGid ∧ ∃ gid text items, row.outcome = some (.diff gid text items) ∧
      ∀ item ∈ items, item.ours = member? item.key (tenantMembers w.db.toStore c.1.tenantGid ours) := by
  obtain ⟨caller, call⟩ := c
  dsimp only at hcall
  subst hcall
  unfold spaceStep commits at hin
  dsimp only at hin
  cases hdiff : startDiff hash w caller base ours theirs with
  | error e =>
    rw [hdiff] at hin
    exact absurd hin hnew
  | ok r =>
    obtain ⟨outcome, u⟩ := r
    rw [hdiff] at hin
    rcases startDiff_cases hdiff with rfl | ⟨items, rfl, added, -, htenant, -, houtcome, rfl⟩
    · exact absurd hin hnew
    · obtain rfl : row = added := by
        have hcases : row ∈ w.db.ledger ∨ row = added := by
          simpa [committed] using hin
        exact hcases.resolve_left hnew
      exact ⟨htenant, _, _, _, houtcome, fun item hitem => ours_of_mem_diffItems hitem⟩

theorem items_of_row (hkeyed : w.Keyed) {row : LedgerRow} {tenantGid gid : Gid} {text : Str}
    {items recorded : List DiffItem} (hrow : row ∈ w.db.ledger)
    (houtcome : row.outcome = some (.diff gid text recorded))
    (hitems : w.diffItems? tenantGid row.gid = some items) :
    items = recorded ∧ row.tenantGid = tenantGid := by
  obtain ⟨found, hfound, houtcomes⟩ := Option.bind_eq_some_iff.mp hitems
  have hin := List.mem_of_find?_eq_some hfound
  have hfor := List.find?_some hfound
  simp only [Bool.and_eq_true, beq_iff_eq] at hfor
  obtain rfl := List.inj_on_of_nodup_map hkeyed.ledgerGids hin hrow hfor.1.1
  rw [houtcome] at houtcomes
  cases houtcomes
  exact ⟨rfl, hfor.1.2⟩

theorem personalHead?_spec (hkeyed : w.Keyed)
    (h : personalHead? w.db.toStore space caller.tenantGid caller.actorGid = some head) :
    head ∈ w.db.heads ∧ head.spaceGid = space ∧ head.tenantGid = caller.tenantGid := by
  unfold personalHead? at h
  split_ifs at h with hspace
  have hin := List.mem_of_find?_eq_some h
  have hgid : head.spaceGid = space := by simpa using List.find?_some h
  obtain ⟨s, hs, hboth⟩ := List.any_eq_true.mp hspace
  simp only [Bool.and_eq_true, beq_iff_eq] at hboth
  have htenant := hkeyed.headTenants head hin s hs (hboth.1.1.1.1.trans hgid.symm)
  exact ⟨hin, hgid, htenant.symm.trans hboth.1.1.1.2⟩

/-- **What was compared is what is overwritten**: where no operation has touched the selected
members since the compared version was saved, they still have the values that the diff recorded. -/
theorem compared_ours {start : CraftWorld} {calls : List (Caller × SpaceCall)}
    {items : List DiffItem} (hstart : start.Keyed)
    (hcompared : Compared hash start calls operation space keys)
    (hitems : (start.spaceRun hash calls).diffItems? caller.tenantGid operation = some items)
    (hhead : personalHead? (start.spaceRun hash calls).db.toStore space caller.tenantGid
      caller.actorGid = some head) :
    ∀ item ∈ items, item.key ∈ keys → member? item.key head.members = item.ours := by
  obtain ⟨before, save, between, diff, after, rfl, version, row, base, theirs,
    ⟨hversion, hversionNew, rfl⟩, hdiff, ⟨hrow, hrowNew, rfl⟩, huntouched⟩ := hcompared
  -- the worlds before and after the save, and before and after the comparison
  have hkeyed₁ : (start.spaceRun hash before).Keyed := hstart.spaceRun before
  have hsave : start.spaceRun hash (before ++ [save])
      = (start.spaceRun hash before).spaceStep hash save := spaceRun_append _ _ _
  have hbetween : start.spaceRun hash (before ++ save :: between)
      = (start.spaceRun hash (before ++ [save])).spaceRun hash between := by
    rw [← spaceRun_append, List.append_assoc, List.singleton_append]
  have hcompare : start.spaceRun hash (before ++ save :: (between ++ [diff]))
      = (start.spaceRun hash (before ++ save :: between)).spaceStep hash diff := by
    have hlist : before ++ save :: (between ++ [diff]) = before ++ save :: between ++ [diff] := by
      simp
    rw [hlist]
    exact spaceRun_append _ _ _
  have hend : start.spaceRun hash (before ++ save :: (between ++ diff :: after))
      = (start.spaceRun hash (before ++ [save])).spaceRun hash (between ++ diff :: after) := by
    rw [← spaceRun_append, List.append_assoc, List.singleton_append]
  have hend' : start.spaceRun hash (before ++ save :: (between ++ diff :: after))
      = (start.spaceRun hash (before ++ save :: (between ++ [diff]))).spaceRun hash after := by
    rw [← spaceRun_append]
    simp
  have hkeyed : (start.spaceRun hash (before ++ save :: (between ++ diff :: after))).Keyed :=
    hstart.spaceRun _
  -- the head of the space has kept the selected members since the save
  rw [hsave] at hversion
  obtain ⟨saved, hsaved, hspace, htenant, hmembers⟩ := added_version hkeyed₁ hversion hversionNew
  rw [← hsave] at hsaved hversion
  rw [← hspace] at huntouched hhead
  obtain ⟨later, hlater, hcontinues, hsame⟩ :=
    run_leaves (hstart.spaceRun (before ++ [save])) hsaved huntouched.leaves
  rw [← hend] at hlater
  obtain ⟨hin, hheadSpace, hheadTenant⟩ := personalHead?_spec hkeyed hhead
  obtain rfl := hkeyed.head_inj hin hlater (hheadSpace.trans hcontinues.spaceGid.symm)
  -- the diff on record compared the version
  rw [hcompare] at hrow
  obtain ⟨hrowTenant, gid, text, recorded, houtcome, hours⟩ := added_diff hdiff hrow hrowNew
  rw [← hcompare] at hrow
  have hrowLater := (run_ledger hash (hstart.spaceRun _) after).subset hrow
  rw [← hend'] at hrowLater
  obtain ⟨rfl, hitemsTenant⟩ := items_of_row hkeyed hrowLater houtcome hitems
  have hversionLater := (run_versions hash (hstart.spaceRun _) between).subset hversion
  rw [← hbetween] at hversionLater
  have hcompared : tenantMembers (start.spaceRun hash (before ++ save :: between)).db.toStore
      diff.1.tenantGid version.gid = version.members := by
    have htenants : diff.1.tenantGid = version.tenantGid := by
      calc diff.1.tenantGid = caller.tenantGid := hrowTenant.symm.trans hitemsTenant
        _ = head.tenantGid := hheadTenant.symm
        _ = saved.tenantGid := hcontinues.tenantGid
        _ = version.tenantGid := htenant
    rw [htenants]
    exact tenantMembers_of_mem (hstart.spaceRun _) hversionLater
  intro item hitem hkey
  calc member? item.key head.members = member? item.key saved.members := hsame _ hkey
    _ = member? item.key version.members := (hmembers _).symm
    _ = item.ours := by rw [hours item hitem, hcompared]

theorem key_of_mem_syncEdits {items : List DiffItem} {m : Member} (h : m ∈ syncEdits items keys) :
    m.key ∈ keys := by
  obtain ⟨key, hkey, hmap⟩ := List.mem_filterMap.mp h
  obtain ⟨item, hitem, rfl⟩ := Option.map_eq_some_iff.mp hmap
  have hfound : item.key = key := by simpa using List.find?_some hitem
  exact (hfound ▸ hkey : item.key ∈ keys)

/-- **Synchronizing.** A synchronization that succeeds after any operations was on record and
writes nothing, or it writes only the selected members of the one personal head. Where no operation
has touched these since the version compared as ours was saved from that space, each had the value
that the diff recorded as ours. -/
theorem sync_overwrites_ours (hash : Json → Str) (start : CraftWorld) (hstart : start.Keyed)
    (calls : List (Caller × SpaceCall)) (caller : Caller) (operation space : Gid)
    (keys : List MemberKey) (expected : Nat) (outcome : Outcome) (w' : CraftWorld)
    (h : applySync hash (start.spaceRun hash calls) caller operation space keys expected
      = .ok (outcome, w')) :
    let w := start.spaceRun hash calls
    ((w.record? caller.tenantGid "personal.sync".toList caller.idempotencyKey).isSome ∧ w' = w) ∨
    ∃ items head after, w.diffItems? caller.tenantGid operation = some items ∧
      personalHead? w.db.toStore space caller.tenantGid caller.actorGid = some head ∧
      after ∈ w'.db.heads ∧ after.gid = head.gid ∧
      (∀ other ∈ w.db.heads, other.gid ≠ head.gid → other ∈ w'.db.heads) ∧
      (∀ key, key ∉ keys → member? key after.members = member? key head.members) ∧
      (Compared hash start calls operation space keys →
        ∀ item ∈ items, item.key ∈ keys → member? item.key head.members = item.ours) := by
  intro w
  have hkeyed : w.Keyed := hstart.spaceRun calls
  rcases applySync_new hkeyed.ledger h with
    hreplay | ⟨items, head, -, -, hitems, -, hhead, hstore, -, -⟩
  · exact Or.inl hreplay
  have hin := (personalHead?_spec hkeyed hhead).1
  have hheads : w'.db.heads
      = Rows.update (·.gid == head.gid) (SpaceHead.edited (syncEdits items keys)) w.db.heads :=
    congrArg Store.heads hstore
  refine Or.inr ⟨items, head, head.edited (syncEdits items keys), hitems, hhead, ?_, rfl, ?_, ?_, ?_⟩
  · rw [hheads]
    exact List.mem_map.mpr ⟨head, hin, by simp⟩
  · intro other hother hgid
    rw [hheads]
    exact Rows.mem_update_of_not hother (beq_eq_false_iff_ne.mpr hgid)
  · intro key hkey
    refine member?_setMembers_of_not_mem fun hmem => hkey ?_
    obtain ⟨m, hm, rfl⟩ := List.mem_map.mp hmem
    exact key_of_mem_syncEdits hm
  · exact fun hcompared => compared_ours hstart hcompared hitems hhead

end

/-- A team head that has moved on, and a personal space forked from its first version. -/
def twoSpaces : CraftWorld where
  db :=
    { repositories := [⟨1, 9, 5, false⟩]
      spaces := [⟨2, 1, 9, .team, none, none, false⟩,
        ⟨3, 1, 9, .managedPersonal, some 8, some 20, false⟩]
      heads := [⟨4, 2, 9, 3, "sha256:t".toList, [⟨.node, 10, some 32, none, none, false⟩]⟩,
        ⟨6, 3, 9, 1, "sha256:p".toList, [⟨.node, 10, some 30, none, none, false⟩]⟩]
      versions := [⟨20, 2, 9, "saved".toList, .null, .null, "a".toList,
          [⟨.node, 10, some 30, none, none, false⟩]⟩,
        ⟨21, 2, 9, "saved".toList, .null, .null, "b".toList,
          [⟨.node, 10, some 31, none, none, false⟩]⟩,
        ⟨22, 2, 9, "saved".toList, .null, .null, "c".toList,
          [⟨.node, 10, some 32, none, none, false⟩]⟩] }
  issued := 100

theorem twoSpaces_keyed : twoSpaces.Keyed := by
  refine ⟨⟨by decide, by decide⟩, ?_, ?_, ?_, ?_, ?_, ?_, ?_, ?_, ?_, ?_, ?_, ?_⟩ <;> decide

/-- The personal space is saved and the version is compared with the second team version. -/
def compareCalls : List (Caller × SpaceCall) :=
  [(⟨9, 8, "a".toList⟩, .saveSpaceVersion 3 1 "saved".toList .null .null),
    (⟨9, 8, "b".toList⟩, .startDiff 20 102 21)]

/-- The personal head takes over the third team version in between. -/
def overtakingCalls : List (Caller × SpaceCall) :=
  compareCalls ++ [(⟨9, 8, "c".toList⟩, .startDiff 20 102 22),
    (⟨9, 8, "d".toList⟩, .applySync 104 3 [⟨.node, 10⟩] 1)]

/-- **A synchronization overwrites what was never compared**: it is let through with the new head
version, although the diff recorded another value as ours. -/
theorem sync_overwrites_newer :
    let hash := Json.dumps (fun _ => [])
    let w := twoSpaces.spaceRun hash overtakingCalls
    let node := fun w : CraftWorld => (w.db.head? 3).bind fun h =>
      (member? ⟨.node, 10⟩ h.members).bind Member.nodeRevisionGid
    let ours := (w.diffItems? 9 103).map fun items =>
      items.map fun i => (i.key, i.ours.bind Member.nodeRevisionGid)
    ours = some [(⟨.node, 10⟩, some 30)] ∧ node w = some 32 ∧
      node (w.spaceStep hash (⟨9, 8, "e".toList⟩, .applySync 103 3 [⟨.node, 10⟩] 2)) = some 31 := by
  decide +kernel

theorem sync_overwrites_ours_first :
    let hash := Json.dumps (fun _ => [])
    let w := twoSpaces.spaceRun hash compareCalls
    ∃ items head, w.diffItems? 9 103 = some items ∧ w.db.head? 3 = some head ∧
      ∀ item ∈ items, item.key ∈ [⟨.node, 10⟩] → member? item.key head.members = item.ours := by
  intro hash w
  have hsync : ∃ outcome w', applySync hash w ⟨9, 8, "e".toList⟩ 103 3 [⟨.node, 10⟩] 1
      = .ok (outcome, w') := by
    cases h : applySync hash w ⟨9, 8, "e".toList⟩ 103 3 [⟨.node, 10⟩] 1 with
    | ok r => exact ⟨r.1, r.2, rfl⟩
    | error e =>
      have hseen : (applySync hash w ⟨9, 8, "e".toList⟩ 103 3 [⟨.node, 10⟩] 1).toOption.isSome
          = true := by decide +kernel
      rw [h] at hseen
      cases hseen
  obtain ⟨outcome, w', hok⟩ := hsync
  rcases sync_overwrites_ours hash twoSpaces twoSpaces_keyed compareCalls _ _ _ _ _ _ _ hok with
    ⟨hrecord, -⟩ | ⟨items, head, after, hitems, hhead, -, -, -, -, hours⟩
  · have hnone : (w.record? 9 "personal.sync".toList "e".toList).isSome = false := by decide +kernel
    exact absurd hrecord (by rw [hnone]; decide)
  · refine ⟨items, head, hitems, ?_, hours ?_⟩
    · unfold personalHead? at hhead
      split_ifs at hhead
      exact hhead
    · refine ⟨[], _, [], _, [], rfl, ⟨102, 3, 9, "saved".toList, .null, .null,
        manifestHash hash "sha256:p".toList .null .null, [⟨.node, 10, some 30, none, none, false⟩]⟩,
        ⟨103, 9, diffKind, "b".toList, (hash (.obj [("base".toList, gidJson 20),
            ("ours".toList, gidJson 102), ("theirs".toList, gidJson 21)])).drop 7,
          some (.diff 103 (hash (.arr ([⟨⟨.node, 10⟩, some ⟨.node, 10, some 30, none, none, false⟩,
            some ⟨.node, 10, some 30, none, none, false⟩,
            some ⟨.node, 10, some 31, none, none, false⟩, false⟩].map DiffItem.json)))
          [⟨⟨.node, 10⟩, some ⟨.node, 10, some 30, none, none, false⟩,
            some ⟨.node, 10, some 30, none, none, false⟩,
            some ⟨.node, 10, some 31, none, none, false⟩, false⟩])⟩,
        20, 21, ⟨?_, ?_, rfl⟩, rfl, ⟨?_, ?_, rfl⟩, ?_, trivial⟩
      · decide +kernel
      · decide +kernel
      · decide +kernel
      · decide +kernel
      · rintro ⟨_, _, hedits, -⟩
        cases hedits

/-! ## Content hashes -/

section

variable {hash : Json → Str} {w start : CraftWorld} {calls : List (Caller × SpaceCall)}

/-- In all states of a run, heads of one space with one content hash have the same members. -/
def Identifies (hash : Json → Str) (start : CraftWorld) (calls : List (Caller × SpaceCall)) : Prop :=
  ∀ a b, a <+: calls → b <+: calls → ∀ h ∈ (start.spaceRun hash a).db.heads,
    ∀ h' ∈ (start.spaceRun hash b).db.heads, h.spaceGid = h'.spaceGid →
      h.contentHash = h'.contentHash → ∀ key, member? key h.members = member? key h'.members

/-- The operation writes to a head that exists a member whose value the head does not hold. -/
def Rewrites (hash : Json → Str) (w : CraftWorld) (c : Caller × SpaceCall) : Prop :=
  ∃ head edits key m, Edits hash w c.1 c.2 head edits ∧ member? key edits.reverse = some m ∧
    member? key head.members ≠ some m

/-- No operation of a run does so. -/
def Quiet (hash : Json → Str) (start : CraftWorld) (calls : List (Caller × SpaceCall)) : Prop :=
  ∀ before c, before ++ [c] <+: calls → ¬ Rewrites hash (start.spaceRun hash before) c

theorem leaves_of_not_rewrites {c : Caller × SpaceCall} (h : ¬ Rewrites hash w c) {head : SpaceHead}
    {edits : List Member} (hedits : Edits hash w c.1 c.2 head edits) (key : MemberKey) :
    member? key (setMembers edits head.members) = member? key head.members := by
  rw [member?_setMembers]
  cases hlast : member? key edits.reverse with
  | none => exact Option.none_or
  | some m =>
    rw [Option.some_or]
    by_contra hne
    exact h ⟨head, edits, key, m, hedits, hlast, fun heq => hne heq.symm⟩

theorem Quiet.leaves {before more : List (Caller × SpaceCall)} (space : Gid)
    (h : Quiet hash start (before ++ more)) :
    Leaves hash space (fun _ => True) (start.spaceRun hash before) more := by
  induction more generalizing before with
  | nil => trivial
  | cons c more ih =>
    have hlist : before ++ c :: more = before ++ [c] ++ more := by simp
    constructor
    · intro head edits hedits _ key _
      refine leaves_of_not_rewrites (h before c ?_) hedits key
      exact hlist ▸ List.prefix_append _ _
    · have hstep : start.spaceRun hash (before ++ [c])
          = (start.spaceRun hash before).spaceStep hash c := spaceRun_append _ _ _
      rw [← hstep]
      exact ih (hlist ▸ h)

theorem Quiet.same (hstart : start.Keyed) (hquiet : Quiet hash start calls)
    {a b : List (Caller × SpaceCall)} (hab : a <+: b) (hb : b <+: calls) {h h' : SpaceHead}
    (hh : h ∈ (start.spaceRun hash a).db.heads) (hh' : h' ∈ (start.spaceRun hash b).db.heads)
    (hspace : h.spaceGid = h'.spaceGid) (key : MemberKey) :
    member? key h.members = member? key h'.members := by
  obtain ⟨more, rfl⟩ := hab
  have hleaves : Leaves hash h.spaceGid (fun _ => True) (start.spaceRun hash a) more :=
    Quiet.leaves h.spaceGid fun before c hprefixed => hquiet before c (hprefixed.trans hb)
  obtain ⟨later, hlater, hcontinues, hsame⟩ := run_leaves (hstart.spaceRun a) hh hleaves
  rw [← spaceRun_append] at hlater
  obtain rfl := (hstart.spaceRun _).head_inj hlater hh' (hcontinues.spaceGid.trans hspace)
  exact (hsame key trivial).symm

/-- **Content hashes.** Versions of one space under one manifest hash have the same members. The
content hash of a head identifies its members in all states of a run exactly if no operation of
the run writes to a head that exists a member whose value it does not hold. -/
theorem content_hash_identifies (hash : Json → Str) (start : CraftWorld) (hstart : start.Keyed)
    (calls : List (Caller × SpaceCall)) :
    (∀ v ∈ (start.spaceRun hash calls).db.versions, ∀ v' ∈ (start.spaceRun hash calls).db.versions,
      v.spaceGid = v'.spaceGid → v.manifestHash = v'.manifestHash → v.members = v'.members) ∧
    (Identifies hash start calls ↔ Quiet hash start calls) := by
  refine ⟨fun v hv v' hv' hspace hmanifest => ?_, fun hidentifies => ?_, fun hquiet => ?_⟩
  · rw [(hstart.spaceRun calls).manifests v hv v' hv' hspace hmanifest]
  · rintro before c hprefixed ⟨head, edits, key, m, hedits, hlast, hne⟩
    have hin := hedits.mem
    have hstep : start.spaceRun hash (before ++ [c])
        = (start.spaceRun hash before).spaceStep hash c := spaceRun_append _ _ _
    have hafter : head.edited edits ∈ (start.spaceRun hash (before ++ [c])).db.heads := by
      rw [hstep, hedits.spaceStep_heads]
      exact List.mem_map.mpr ⟨head, hin, by simp⟩
    have hbefore : before <+: calls := (List.prefix_append _ _).trans hprefixed
    have hsame := hidentifies _ _ hbefore hprefixed head hin _ hafter rfl rfl key
    refine hne (hsame.trans ?_)
    show member? key (setMembers edits head.members) = some m
    rw [member?_setMembers, hlast, Option.some_or]
  · intro a b ha hb h hh h' hh' hspace _ key
    rcases List.prefix_or_prefix_of_prefix ha hb with hab | hba
    · exact hquiet.same hstart hab hb hh hh' hspace key
    · exact (hquiet.same hstart hba ha hh' hh hspace.symm key).symm

end

/-- **A synchronization keeps the content hash** of the head whose members it changes. -/
theorem content_hash_is_stale :
    let hash := Json.dumps (fun _ => [])
    let seen := fun w : CraftWorld => (w.db.head? 3).map fun h =>
      (h.contentHash, (member? ⟨.node, 10⟩ h.members).bind Member.nodeRevisionGid)
    seen (twoSpaces.spaceRun hash compareCalls) = some ("sha256:p".toList, some 30) ∧
      seen (twoSpaces.spaceRun hash overtakingCalls) = some ("sha256:p".toList, some 32) := by
  decide +kernel

theorem content_hash_identifies_quiet :
    Identifies (Json.dumps (fun _ => [])) twoSpaces compareCalls := by
  refine (content_hash_identifies _ twoSpaces twoSpaces_keyed compareCalls).2.mpr ?_
  rintro before c hprefixed ⟨head, edits, key, m, hedits, -, -⟩
  have hin : c ∈ compareCalls := hprefixed.subset (by simp)
  simp only [compareCalls, List.mem_cons, List.not_mem_nil, or_false] at hin
  rcases hin with rfl | rfl
  · cases hedits
  · cases hedits

end Ai00.Craft.CraftWorld
