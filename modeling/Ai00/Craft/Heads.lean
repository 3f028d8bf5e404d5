import Ai00.Basic.Numbering
import Ai00.Craft.ProposalLifecycle

/-! # How heads and versions change

An operation does one of four things to the tables of spaces, heads and versions (`Written`): it
leaves them, it edits one head, it adds a space with its head, or it adds a version. `Edits` says
which members an operation writes to a head that exists, and when it is let through;
`Keyed` are the keys of the tables, which every operation keeps.
-/

namespace Ai00.Craft

/-- A head after some members are written to it. -/
def SpaceHead.edited (edits : List Member) (h : SpaceHead) : SpaceHead :=
  { h with members := setMembers edits h.members, rowVersion := h.rowVersion + 1 }

@[simp] theorem SpaceHead.edited_gid (edits : List Member) (h : SpaceHead) :
    (h.edited edits).gid = h.gid := rfl

@[simp] theorem SpaceHead.edited_spaceGid (edits : List Member) (h : SpaceHead) :
    (h.edited edits).spaceGid = h.spaceGid := rfl

@[simp] theorem SpaceHead.edited_tenantGid (edits : List Member) (h : SpaceHead) :
    (h.edited edits).tenantGid = h.tenantGid := rfl

@[simp] theorem SpaceHead.edited_contentHash (edits : List Member) (h : SpaceHead) :
    (h.edited edits).contentHash = h.contentHash := rfl

namespace CraftWorld

/-! ## What is written to a head -/

/-- The members a synchronization writes for its selected keys. -/
def syncEdits (items : List DiffItem) (selectedKeys : List MemberKey) : List Member :=
  selectedKeys.filterMap (fun key => (items.find? (·.key == key)).map DiffItem.written)

def importTarget? (w : CraftWorld) (caller : Caller) (personalSpaceGid : Gid) :
    Option (Gid × SpaceHead) :=
  (w.db.spaces.find? (fun s => s.gid == personalSpaceGid && s.tenantGid == caller.tenantGid &&
    s.ownerUserGid == some caller.actorGid && !s.deleted)).bind
      (fun s => (w.db.head? s.gid).map (s.repositoryGid, ·))

def selectedSources (units : List ImportUnit) (selectedUnits : List Str) : List ImportSource :=
  (units.filter (fun u => decide (u.unitKey ∈ selectedUnits))).map ImportUnit.source

/-- An operation that is let through and writes members to a head that exists. -/
inductive Edits (hash : Json → Str) (w : CraftWorld) (caller : Caller) :
    SpaceCall → SpaceHead → List Member → Prop
  | component (gid componentGid : Gid) (p : Proposal) (unit : ProposalUnit) (head : SpaceHead)
      (howns : w.owns gid caller.tenantGid = true)
      (hnew : w.onRecord caller (.applyComponent gid componentGid) = none)
      (hp : w.load gid = .ok p)
      (hunit : p.units.find? (·.componentGid == componentGid) = some unit)
      (hfrom : p.reviewStatus ∈ [ReviewStatus.accepted, .partiallyAccepted])
      (haccepted : unit.reviewDecision = some .accepted)
      (hdeps : ∀ dep ∈ unit.dependencies, (p.outcomeOf dep).isSome)
      (hfirst : unit.applyOutcome = none)
      (hhead : w.db.teamHead? p.repositoryGid = some head)
      (htheirs : member? unit.key head.members = unit.payload.theirs) :
      Edits hash w caller (.proposal (.applyComponent gid componentGid)) head [writtenMember unit]
  | sync (operation space : Gid) (keys : List MemberKey) (items : List DiffItem) (head : SpaceHead)
      (hnew : w.record? caller.tenantGid "personal.sync".toList caller.idempotencyKey = none)
      (hitems : w.diffItems? caller.tenantGid operation = some items)
      (hkeys : ∀ key ∈ keys, key ∈ items.map DiffItem.key)
      (hhead : personalHead? w.db.toStore space caller.tenantGid caller.actorGid = some head) :
      Edits hash w caller (.applySync operation space keys head.rowVersion) head
        (syncEdits items keys)
  | imported (preview : Gid) (ref : Str) (claims : Option ExportClaims) (space repository : Gid)
      (selected : List Str) (checked : ExportClaims) (row : PersonalImport)
      (units : List ImportUnit) (head : SpaceHead) (i : Imported)
      (hclaims : checkClaims claims caller space repository = .ok checked)
      (hrow : w.db.imports.find? (fun r => r.gid == preview && r.personalSpaceGid == space)
        = some row)
      (href : row.sourceExportRefHash = hash (.str ref) ∧
        row.sourceContentHash = checked.contentHash)
      (hunits : row.outcome = .previewed head.rowVersion units)
      (hselected : ∀ key ∈ selected, (unit? units key).any (fun u =>
        u.dependencies.all (· ∈ selected)))
      (htarget : w.importTarget? caller space = some (repository, head))
      (himport : importUnits hash repository (selectedSources units selected) (w.issued + 1)
        = .ok i) :
      Edits hash w caller
        (.applyPrivateImport preview ref claims space repository selected head.rowVersion) head
        i.members

/-- A space that is new, with its head. -/
structure NewSpace (w w' : CraftWorld) (space : Space) (head : SpaceHead) : Prop where
  spaceGid : w.issued < space.gid ∧ space.gid ≤ w'.issued
  headGid : w.issued < head.gid ∧ head.gid ≤ w'.issued
  spaceOf : head.spaceGid = space.gid
  tenant : head.tenantGid = space.tenantGid
  members : (head.members.map Member.key).Nodup

/-- A version that is saved from a head. -/
structure Saves (hash : Json → Str) (w w' : CraftWorld) (head : SpaceHead)
    (version : SpaceVersion) : Prop where
  headOf : w.db.head? version.spaceGid = some head
  gid : w.issued < version.gid ∧ version.gid ≤ w'.issued
  tenant : version.tenantGid = head.tenantGid
  manifest : version.manifestHash
    = manifestHash hash head.contentHash version.sourceRefs version.algorithmVersions
  new : ∀ v ∈ w.db.versions,
    ¬ (v.spaceGid = version.spaceGid ∧ v.manifestHash = version.manifestHash)
  members : version.members = head.members.insertionSort (fun a b => a.before b = true)

/-- What an operation does to the spaces, heads and versions. -/
inductive Written (hash : Json → Str) (w w' : CraftWorld) (c : Caller × SpaceCall) : Prop
  | kept (hspaces : w'.db.spaces = w.db.spaces) (hheads : w'.db.heads = w.db.heads)
      (hversions : w'.db.versions = w.db.versions)
  | edited (head : SpaceHead) (edits : List Member) (hedits : Edits hash w c.1 c.2 head edits)
      (hspaces : w'.db.spaces = w.db.spaces)
      (hheads : w'.db.heads
        = Rows.update (·.gid == head.gid) (SpaceHead.edited edits) w.db.heads)
      (hversions : w'.db.versions = w.db.versions)
  | created (space : Space) (head : SpaceHead) (hnew : NewSpace w w' space head)
      (hspaces : w'.db.spaces = w.db.spaces ++ [space])
      (hheads : w'.db.heads = w.db.heads ++ [head])
      (hversions : w'.db.versions = w.db.versions)
  | saved (head : SpaceHead) (version : SpaceVersion) (hsaves : Saves hash w w' head version)
      (hspaces : w'.db.spaces = w.db.spaces) (hheads : w'.db.heads = w.db.heads)
      (hversions : w'.db.versions = w.db.versions ++ [version])

/-- What an operation does to the ledger: at most one complete row is added. -/
def LedgerGrows (w w' : CraftWorld) : Prop :=
  w'.db.ledger = w.db.ledger ∨ ∃ row : LedgerRow, w'.db.ledger = w.db.ledger ++ [row] ∧
    (w.issued < row.gid ∧ row.gid ≤ w'.issued) ∧ row.outcome.isSome

structure Stepped (hash : Json → Str) (w w' : CraftWorld) (c : Caller × SpaceCall) : Prop where
  issued : w.issued ≤ w'.issued
  ledger : LedgerGrows w w'
  written : Written hash w w' c

/-! ## Keys -/

/-- The keys of the tables; every gid was given out. -/
structure Keyed (w : CraftWorld) : Prop where
  ledger : w.LedgerSafe
  ledgerGids : (w.db.ledger.map LedgerRow.gid).Nodup
  spaceGids : (w.db.spaces.map Space.gid).Nodup
  spaceIssued : ∀ s ∈ w.db.spaces, s.gid ≤ w.issued
  headGids : (w.db.heads.map SpaceHead.gid).Nodup
  headSpaces : (w.db.heads.map SpaceHead.spaceGid).Nodup
  headIssued : ∀ h ∈ w.db.heads, h.gid ≤ w.issued ∧ h.spaceGid ≤ w.issued
  headTenants : ∀ h ∈ w.db.heads, ∀ s ∈ w.db.spaces, s.gid = h.spaceGid → s.tenantGid = h.tenantGid
  headMembers : ∀ h ∈ w.db.heads, (h.members.map Member.key).Nodup
  versionGids : (w.db.versions.map SpaceVersion.gid).Nodup
  versionIssued : ∀ v ∈ w.db.versions, v.gid ≤ w.issued ∧ v.spaceGid ≤ w.issued
  manifests : ∀ v ∈ w.db.versions, ∀ v' ∈ w.db.versions, v.spaceGid = v'.spaceGid →
    v.manifestHash = v'.manifestHash → v = v'
  versionMembers : ∀ v ∈ w.db.versions, (v.members.map Member.key).Nodup

section

variable {hash : Json → Str} {w w' : CraftWorld} {c : Caller × SpaceCall}

theorem Edits.mem {caller : Caller} {call : SpaceCall} {head : SpaceHead} {edits : List Member}
    (h : Edits hash w caller call head edits) : head ∈ w.db.heads := by
  cases h with
  | component _ _ p unit _ _ _ _ _ _ _ _ _ hhead =>
    unfold Store.teamHead? at hhead
    obtain ⟨space, -, hfind⟩ := Option.bind_eq_some_iff.mp hhead
    exact List.mem_of_find?_eq_some hfind
  | sync _ _ _ _ _ _ _ _ hhead =>
    unfold personalHead? at hhead
    split_ifs at hhead
    exact List.mem_of_find?_eq_some hhead
  | imported _ _ _ _ _ _ _ _ _ _ _ _ _ _ _ _ htarget =>
    obtain ⟨space, -, hmap⟩ := Option.bind_eq_some_iff.mp htarget
    obtain ⟨head, hfind, heq⟩ := Option.map_eq_some_iff.mp hmap
    cases heq
    exact List.mem_of_find?_eq_some hfind

theorem nodup_map_append_of_fresh {ρ : Type} {key : ρ → Gid} {rows : List ρ} {row : ρ} {n : Nat}
    (h : (rows.map key).Nodup) (hle : ∀ r ∈ rows, key r ≤ n) (hlt : n < key row) :
    ((rows ++ [row]).map key).Nodup := by
  refine Rows.nodup_map_concat h fun hin => ?_
  obtain ⟨r, hr, heq⟩ := List.mem_map.mp hin
  exact absurd heq (ne_of_lt (lt_of_le_of_lt (hle r hr) hlt))

theorem forall_mem_append_singleton {ρ : Type} {p : ρ → Prop} {rows : List ρ} {row : ρ}
    (h : ∀ r ∈ rows, p r) (hrow : p row) : ∀ r ∈ rows ++ [row], p r := by
  intro r hr
  rcases List.mem_append.mp hr with hr | hr
  · exact h r hr
  · rw [List.mem_singleton.mp hr]
    exact hrow

theorem map_update {ρ κ : Type} {key : ρ → κ} {p : ρ → Bool} {f : ρ → ρ} {rows : List ρ}
    (h : ∀ r, key (f r) = key r) : (Rows.update p f rows).map key = rows.map key := by
  unfold Rows.update
  rw [List.map_map]
  refine List.map_congr_left fun r _ => ?_
  rw [Function.comp_apply]
  split_ifs
  · exact h r
  · rfl

theorem Keyed.head_ne (hkeyed : w.Keyed) {k : ℕ} (hk : 0 < k) : ∀ r ∈ w.db.heads, r.gid ≠ w.issued + k :=
  fun r hr => ne_of_lt (lt_of_le_of_lt (hkeyed.headIssued r hr).1 (Nat.lt_add_of_pos_right hk))

theorem forall_mem_update {ρ : Type} {P : ρ → Prop} {p : ρ → Bool} {f : ρ → ρ} {rows : List ρ}
    (h : ∀ r ∈ rows, P r) (hf : ∀ r ∈ rows, P r → P (f r)) : ∀ r ∈ Rows.update p f rows, P r := by
  intro r hr
  obtain ⟨s, hs, rfl⟩ := List.mem_map.mp hr
  split_ifs
  · exact hf s hs (h s hs)
  · exact h s hs

theorem Keyed.step (h : w.Keyed) (hstep : Stepped hash w w' c) : w'.Keyed := by
  have hissued := hstep.issued
  have hledger : w'.LedgerSafe ∧ (w'.db.ledger.map LedgerRow.gid).Nodup := by
    rcases hstep.ledger with hsame | ⟨row, hrow, ⟨hlt, hle⟩, houtcome⟩
    · exact ⟨h.ledger.same hsame hissued, hsame ▸ h.ledgerGids⟩
    · refine ⟨h.ledger.append hrow hissued hle houtcome, ?_⟩
      rw [hrow]
      exact nodup_map_append_of_fresh h.ledgerGids h.ledger.gids hlt
  have hspaceIssued : ∀ s ∈ w.db.spaces, s.gid ≤ w'.issued :=
    fun s hs => le_trans (h.spaceIssued s hs) hissued
  have hheadIssued : ∀ r ∈ w.db.heads, r.gid ≤ w'.issued ∧ r.spaceGid ≤ w'.issued :=
    fun r hr => ⟨le_trans (h.headIssued r hr).1 hissued, le_trans (h.headIssued r hr).2 hissued⟩
  have hversionIssued : ∀ v ∈ w.db.versions, v.gid ≤ w'.issued ∧ v.spaceGid ≤ w'.issued :=
    fun v hv =>
      ⟨le_trans (h.versionIssued v hv).1 hissued, le_trans (h.versionIssued v hv).2 hissued⟩
  cases hstep.written with
  | kept hspaces hheads hversions =>
    refine ⟨hledger.1, hledger.2, ?_, ?_, ?_, ?_, ?_, ?_, ?_, ?_, ?_, ?_, ?_⟩ <;>
      simp only [hspaces, hheads, hversions]
    exacts [h.spaceGids, hspaceIssued, h.headGids, h.headSpaces,
      hheadIssued, h.headTenants, h.headMembers, h.versionGids, hversionIssued, h.manifests,
      h.versionMembers]
  | edited head edits hedits hspaces hheads hversions =>
    refine ⟨hledger.1, hledger.2, ?_, ?_, ?_, ?_, ?_, ?_, ?_, ?_, ?_, ?_, ?_⟩ <;>
      simp only [hspaces, hheads, hversions]
    · exact h.spaceGids
    · exact hspaceIssued
    · rw [map_update (SpaceHead.edited_gid edits)]
      exact h.headGids
    · rw [map_update (SpaceHead.edited_spaceGid edits)]
      exact h.headSpaces
    · exact forall_mem_update hheadIssued fun r _ hr => hr
    · exact forall_mem_update h.headTenants fun r _ hr => hr
    · exact forall_mem_update h.headMembers fun r _ hr => KeyedRows.nodup_upsertAll hr
    · exact h.versionGids
    · exact hversionIssued
    · exact h.manifests
    · exact h.versionMembers
  | created space head hnew hspaces hheads hversions =>
    refine ⟨hledger.1, hledger.2, ?_, ?_, ?_, ?_, ?_, ?_, ?_, ?_, ?_, ?_, ?_⟩ <;>
      simp only [hspaces, hheads, hversions]
    · exact nodup_map_append_of_fresh h.spaceGids h.spaceIssued hnew.spaceGid.1
    · exact forall_mem_append_singleton hspaceIssued hnew.spaceGid.2
    · exact nodup_map_append_of_fresh h.headGids (fun r hr => (h.headIssued r hr).1) hnew.headGid.1
    · exact nodup_map_append_of_fresh h.headSpaces (fun r hr => (h.headIssued r hr).2)
        (hnew.spaceOf ▸ hnew.spaceGid.1)
    · exact forall_mem_append_singleton hheadIssued ⟨hnew.headGid.2, hnew.spaceOf ▸ hnew.spaceGid.2⟩
    · refine forall_mem_append_singleton (fun r hr => ?_) ?_
      · refine forall_mem_append_singleton (h.headTenants r hr) fun hgid => ?_
        have hlt := lt_of_le_of_lt (h.headIssued r hr).2 hnew.spaceGid.1
        exact absurd hgid.symm (ne_of_lt hlt)
      · refine forall_mem_append_singleton (fun s hs hgid => ?_) fun _ => hnew.tenant.symm
        have hlt := lt_of_le_of_lt (h.spaceIssued s hs) hnew.spaceGid.1
        exact absurd (hgid.trans hnew.spaceOf) (ne_of_lt hlt)
    · exact forall_mem_append_singleton h.headMembers hnew.members
    · exact h.versionGids
    · exact hversionIssued
    · exact h.manifests
    · exact h.versionMembers
  | saved head version hsaves hspaces hheads hversions =>
    have hhead := List.mem_of_find?_eq_some hsaves.headOf
    refine ⟨hledger.1, hledger.2, ?_, ?_, ?_, ?_, ?_, ?_, ?_, ?_, ?_, ?_, ?_⟩ <;>
      simp only [hspaces, hheads, hversions]
    · exact h.spaceGids
    · exact hspaceIssued
    · exact h.headGids
    · exact h.headSpaces
    · exact hheadIssued
    · exact h.headTenants
    · exact h.headMembers
    · exact nodup_map_append_of_fresh h.versionGids (fun v hv => (h.versionIssued v hv).1) hsaves.gid.1
    · have hspace : head.spaceGid = version.spaceGid := by
        simpa using List.find?_some hsaves.headOf
      exact forall_mem_append_singleton hversionIssued ⟨hsaves.gid.2, hspace ▸ (hheadIssued head hhead).2⟩
    · refine forall_mem_append_singleton (fun v hv => ?_) ?_
      · refine forall_mem_append_singleton (h.manifests v hv) fun hspace hmanifest => ?_
        exact absurd ⟨hspace, hmanifest⟩ (hsaves.new v hv)
      · refine forall_mem_append_singleton (fun v hv hspace hmanifest => ?_) fun _ _ => rfl
        exact absurd ⟨hspace.symm, hmanifest.symm⟩ (hsaves.new v hv)
    · refine forall_mem_append_singleton h.versionMembers ?_
      rw [hsaves.members]
      exact ((List.perm_insertionSort _ _).map _).nodup_iff.mpr (h.headMembers head hhead)

end

/-! ## Through the ledger -/

section

variable {hash : Json → Str} {w u : CraftWorld} {kind key : Str} {request : Json} {tenantGid : Gid}
  {outcome : Outcome}

@[simp] theorem complete_toStore (w : CraftWorld) (gid : Option Gid) (outcome : Outcome) :
    (w.complete gid outcome).db.toStore = w.db.toStore := rfl

@[simp] theorem complete_issued (w : CraftWorld) (gid : Option Gid) (outcome : Outcome) :
    (w.complete gid outcome).issued = w.issued := rfl

@[simp] theorem running_toStore : (w.running hash tenantGid kind key request).db.toStore
    = w.db.toStore := rfl

@[simp] theorem running_issued : (w.running hash tenantGid kind key request).issued
    = w.issued + 1 := rfl

/-- An effect that leaves the ledger to `_begin` and `_complete` adds one row. -/
theorem ledgerGrows_complete (hsafe : w.LedgerSafe)
    (hledger : u.db.ledger = (w.running hash tenantGid kind key request).db.ledger)
    (hissued : w.issued + 1 ≤ u.issued) :
    LedgerGrows w (u.complete (some (w.issued + 1)) outcome) := by
  refine Or.inr ⟨_, ledger_complete hsafe hledger, ⟨Nat.lt_succ_self _, ?_⟩, rfl⟩
  exact hissued

theorem Stepped.refl (hash : Json → Str) (w : CraftWorld) (c : Caller × SpaceCall) :
    Stepped hash w w c := ⟨le_rfl, Or.inl rfl, .kept rfl rfl rfl⟩

end

/-! ## Heads that a fork fills -/

section

variable {hash : Json → Str} {t t' : Store} {space : Space} {head : SpaceHead} {copy : VersionCopy}

theorem nodup_copy_members (t : Store) (version repository space : Gid) (depth : ForkDepth)
    (first : Gid) :
    ((versionCopy t version repository space depth first).members.map Member.key).Nodup := by
  unfold versionCopy
  simp only [List.map_append, List.map_map]
  have hkinds : ∀ {α β : Type} (f : α → Member) (g : β → Member) (l : List α) (m : List β),
      (∀ a b, (f a).kind ≠ (g b).kind) →
      (l.map (Member.key ∘ f)).Disjoint (m.map (Member.key ∘ g)) := by
    intro α β f g l m hne key hf hg
    obtain ⟨a, -, rfl⟩ := List.mem_map.mp hf
    obtain ⟨b, -, heq⟩ := List.mem_map.mp hg
    exact hne a b (congrArg MemberKey.kind heq).symm
  refine List.Nodup.append (List.Nodup.append ?_ ?_ ?_) ?_ ?_
  · exact Numbering.nodup_map_zipIdx _ _ fun a b h => congrArg MemberKey.logicalGid h
  · split_ifs
    · exact Numbering.nodup_map_zipIdx _ _ fun a b h => congrArg MemberKey.logicalGid h
    · exact List.nodup_nil
  · refine hkinds _ _ _ _ fun a b h => ?_
    cases h
  · exact Numbering.nodup_map_zipIdx _ _ fun a b h => congrArg MemberKey.logicalGid h
  · rw [List.disjoint_append_left]
    constructor <;>
    · refine hkinds _ _ _ _ fun a b h => ?_
      cases h

theorem update_newest {heads : List SpaceHead} {f : SpaceHead → SpaceHead}
    (h : ∀ r ∈ heads, r.gid ≠ head.gid) :
    Rows.update (·.gid == head.gid) f (heads ++ [head]) = heads ++ [f head] := by
  rw [Rows.update_append, Rows.update_of_none fun r hr => beq_eq_false_iff_ne.mpr (h r hr)]
  simp [Rows.update]

variable {depth : ForkDepth}

theorem copyVersion_eq_ok {version repository spaceGid headGid first : Gid} :
    copyVersion hash t version repository spaceGid headGid depth first = .ok (t', copy) ↔
      (t.versionRepository? version).isSome ∧
        copy = versionCopy t version repository spaceGid depth first ∧ copy.Unique ∧
        t' = t.insertCopy hash headGid copy := by
  unfold copyVersion
  cases t.versionRepository? version with
  | none => simp
  | some source =>
    dsimp only
    split_ifs with hunique
    · constructor
      · intro h
        cases h
        exact ⟨rfl, rfl, hunique, rfl⟩
      · rintro ⟨-, rfl, -, rfl⟩
        rfl
    · refine iff_of_false (fun h => by cases h) ?_
      rintro ⟨-, rfl, hcopy, -⟩
      exact hunique hcopy

theorem reuseVersion_eq_some {version repository tenant headGid : Gid} {members : List Member} :
    reuseVersion hash t version repository tenant headGid depth = .ok (some (t', members)) ↔
      t.versionRepository? version = some repository ∧
        t.versions.any (fun v => v.gid == version && v.tenantGid == tenant) = true ∧
        members = reusedMembers t version depth ∧
        t' = t.updateHead headGid (fun h => { h with
          members := h.members ++ members
          contentHash := membersHash hash (members.map Member.ref) }) := by
  unfold reuseVersion
  cases t.versionRepository? version with
  | none => simp
  | some source =>
    dsimp only
    split_ifs with htenant hsource
    · simp [htenant]
    · simp [hsource]
    · rw [Bool.not_eq_false] at htenant
      rw [not_not] at hsource
      subst hsource
      constructor
      · intro h
        cases h
        exact ⟨rfl, htenant, rfl, rfl⟩
      · rintro ⟨-, -, rfl, rfl⟩
        rfl

theorem nodup_reusedMembers {version : Gid}
    (h : ∀ v ∈ t.versions, (v.members.map Member.key).Nodup) :
    ((reusedMembers t version depth).map Member.key).Nodup := by
  have hmembers : ((t.versionMembers version).map Member.key).Nodup := by
    unfold Store.versionMembers
    split
    · exact List.nodup_nil
    · rename_i v hfind
      exact h v (List.mem_of_find?_eq_some hfind)
  refine List.Nodup.sublist (List.filter_sublist.map _) ?_
  exact ((List.perm_insertionSort _ _).map _).nodup_iff.mpr hmembers

/-- The newest head after a fork wrote its members. -/
def filled (hash : Json → Str) (head : SpaceHead) (members : List Member) : SpaceHead :=
  { head with
    members
    contentHash := membersHash hash (members.map Member.ref) }

/-- The store after a fork filled the head of a new space. -/
structure Filled (hash : Json → Str) (t t' : Store) (space : Space) (head : SpaceHead)
    (members : List Member) : Prop where
  spaces : t'.spaces = t.spaces ++ [space]
  heads : t'.heads = t.heads ++ [filled hash head members]
  versions : t'.versions = t.versions
  keys : (members.map Member.key).Nodup

theorem update_filled (hfresh : ∀ r ∈ t.heads, r.gid ≠ head.gid) (hempty : head.members = [])
    (members : List Member) :
    Rows.update (·.gid == head.gid) (fun r : SpaceHead => { r with
      members := r.members ++ members
      contentHash := membersHash hash (members.map Member.ref) }) (t.heads ++ [head])
        = t.heads ++ [filled hash head members] := by
  rw [update_newest hfresh, hempty, List.nil_append]
  rfl

theorem copyVersion_filled {version repository first : Gid}
    (hfresh : ∀ r ∈ t.heads, r.gid ≠ head.gid) (hempty : head.members = [])
    (h : copyVersion hash (withSpace t space head) version repository space.gid head.gid depth first
      = .ok (t', copy)) : Filled hash t t' space head copy.members := by
  obtain ⟨-, rfl, -, rfl⟩ := copyVersion_eq_ok.mp h
  exact ⟨rfl, update_filled hfresh hempty _, rfl, nodup_copy_members _ _ _ _ _ _⟩

/-- **A filled head**: whether members are reused or copied, the newest head gets them, and the
other heads, the spaces and the versions stay. -/
theorem fillPersonal_filled {p : ForkPlan} {repository : Gid} {members : List Member} {gids : Nat}
    (hfresh : ∀ r ∈ t.heads, r.gid ≠ head.gid) (hempty : head.members = [])
    (hversions : ∀ v ∈ t.versions, (v.members.map Member.key).Nodup)
    (h : fillPersonal hash (withSpace t space head) p repository space.gid head.gid
      = .ok (t', members, gids)) : Filled hash t t' space head members := by
  obtain ⟨reused, hreuse, h⟩ := bind_eq_ok.mp h
  cases reused with
  | some pair =>
    obtain ⟨t₁, reused⟩ := pair
    cases h
    obtain ⟨-, -, rfl, rfl⟩ := reuseVersion_eq_some.mp hreuse
    exact ⟨rfl, update_filled hfresh hempty _, rfl, nodup_reusedMembers hversions⟩
  | none =>
    obtain ⟨⟨t₁, copy⟩, hcopy, h⟩ := bind_eq_ok.mp h
    cases h
    exact copyVersion_filled hfresh hempty hcopy

end

/-! ## One operation -/

section

variable {hash : Json → Str} {w w' v : CraftWorld} {caller : Caller} {outcome : Outcome}

theorem createRepository_stepped {project : Gid} {c : Caller × SpaceCall} (hkeyed : w.Keyed)
    (h : createRepository hash w caller project = .ok (outcome, w')) : Stepped hash w w' c := by
  rcases write_cases h with rfl | ⟨u, heffect, rfl⟩
  · exact .refl hash _ c
  unfold createRepositoryEffect at heffect
  obtain ⟨_, -, heffect⟩ := bind_eq_ok.mp heffect
  cases heffect
  refine ⟨?_, ?_, ?_⟩
  · exact le_trans (Nat.le_succ _) (Nat.le_add_right _ 3)
  · exact ledgerGrows_complete hkeyed.ledger rfl (Nat.le_add_right _ 3)
  · refine .created _ _ ?_ rfl rfl rfl
    refine ⟨⟨?_, ?_⟩, ⟨?_, ?_⟩, rfl, rfl, List.nodup_nil⟩
    · exact lt_of_lt_of_le (Nat.lt_succ_self _) (Nat.le_add_right _ 2)
    · exact Nat.le_succ _
    · exact lt_of_lt_of_le (Nat.lt_succ_self _) (Nat.le_add_right _ 3)
    · exact le_rfl

variable {expected : Nat}

theorem saveSpaceVersion_stepped {space : Gid} {kind : Str} {refs algorithms : Json}
    {c : Caller × SpaceCall} (hkeyed : w.Keyed)
    (h : saveSpaceVersion hash w caller space expected kind refs algorithms = .ok (outcome, w')) :
    Stepped hash w w' c := by
  obtain ⟨_, -, h⟩ := bind_eq_ok.mp h
  rcases write_cases h with rfl | ⟨u, heffect, rfl⟩
  · exact .refl hash _ c
  unfold saveSpaceVersionEffect at heffect
  dsimp only at heffect
  split at heffect
  · cases heffect
  · rename_i head hhead
    split_ifs at hhead
    obtain ⟨_, -, heffect⟩ := bind_eq_ok.mp heffect
    obtain ⟨_, hnew, heffect⟩ := bind_eq_ok.mp heffect
    cases heffect
    refine ⟨le_trans (Nat.le_succ _) (Nat.le_succ _), ?_, ?_⟩
    · exact ledgerGrows_complete hkeyed.ledger rfl (Nat.le_succ _)
    · refine .saved head _ ?_ rfl rfl rfl
      refine ⟨hhead, ⟨?_, le_rfl⟩, rfl, rfl, orFail_eq_ok.mp hnew, rfl⟩
      exact lt_of_lt_of_le (Nat.lt_succ_self _) (Nat.le_succ _)

variable {run : ForkRun}

theorem applyRepository_stepped {request : ForkRequest} {c : Caller × SpaceCall}
    (hkeyed : w.Keyed) (h : applyRepository hash w caller request = .ok (run, w')) :
    Stepped hash w w' c := by
  unfold applyRepository at h
  split at h
  · cases h
  · rename_i p _
    obtain ⟨_, -, h⟩ := bind_eq_ok.mp h
    obtain ⟨_, -, h⟩ := bind_eq_ok.mp h
    split at h
    · obtain ⟨_, -, h⟩ := bind_eq_ok.mp h
      cases h
      exact .refl hash _ c
    · obtain ⟨_, -, h⟩ := bind_eq_ok.mp h
      obtain ⟨_, -, h⟩ := bind_eq_ok.mp h
      obtain ⟨⟨t, copy⟩, hcopy, h⟩ := bind_eq_ok.mp h
      cases h
      have hfilled := copyVersion_filled (hkeyed.head_ne (by decide)) rfl hcopy
      have hissued : w.issued + 4 ≤ w.issued + 4 + copy.gids := Nat.le_add_right _ _
      refine ⟨le_trans (Nat.le_add_right _ 4) hissued, Or.inl rfl, ?_⟩
      refine .created _ _ ?_ hfilled.spaces hfilled.heads hfilled.versions
      refine ⟨⟨?_, ?_⟩, ⟨?_, hissued⟩, rfl, rfl, hfilled.keys⟩
      · exact Nat.lt_add_of_pos_right (by decide)
      · exact le_trans (Nat.le_succ _) hissued
      · exact Nat.lt_add_of_pos_right (by decide)

theorem applyPersonal_new {request : ForkRequest}
    (h : applyPersonal hash w caller request = .ok (run, w')) :
    (run ∈ w.db.forkRuns ∧ w' = w) ∨ ∃ p repository slot,
      w.db.forkPlans.find? (fun p => p.gid == request.previewGid && p.actorGid == caller.actorGid &&
        p.personalTarget.isSome) = some p ∧
      p.personalTarget = some (repository, slot) ∧
      forkPersonalBody hash caller request p repository w = .ok (run, w') := by
  unfold applyPersonal at h
  split at h
  · cases h
  · rename_i p hplan
    split at h
    · cases h
    · rename_i repository slot htarget
      obtain ⟨_, -, h⟩ := bind_eq_ok.mp h
      obtain ⟨_, -, h⟩ := bind_eq_ok.mp h
      split at h
      · rename_i old hold
        obtain ⟨_, -, h⟩ := bind_eq_ok.mp h
        cases h
        exact Or.inl ⟨List.mem_of_find?_eq_some hold, rfl⟩
      · exact Or.inr ⟨p, repository, slot, hplan, htarget, h⟩

variable {repository : Gid}

theorem forkPersonalBody_stepped {request : ForkRequest} {p : ForkPlan}
    {c : Caller × SpaceCall} (hkeyed : w.Keyed)
    (h : forkPersonalBody hash caller request p repository w = .ok (run, w')) :
    Stepped hash w w' c := by
  obtain ⟨_, -, h⟩ := bind_eq_ok.mp h
  obtain ⟨⟨t, members, gids⟩, hfill, h⟩ := bind_eq_ok.mp h
  cases h
  have hfilled := fillPersonal_filled (hkeyed.head_ne (by decide)) rfl hkeyed.versionMembers hfill
  have hissued : w.issued + 3 ≤ w.issued + 3 + gids := Nat.le_add_right _ _
  refine ⟨le_trans (Nat.le_add_right _ 3) hissued, Or.inl rfl, ?_⟩
  refine .created _ _ ?_ hfilled.spaces hfilled.heads hfilled.versions
  refine ⟨⟨?_, ?_⟩, ⟨?_, hissued⟩, rfl, rfl, hfilled.keys⟩
  · exact Nat.lt_add_of_pos_right (by decide)
  · exact le_trans (Nat.le_succ _) hissued
  · exact Nat.lt_add_of_pos_right (by decide)

theorem applyPersonal_stepped {request : ForkRequest} {c : Caller × SpaceCall}
    (hkeyed : w.Keyed) (h : applyPersonal hash w caller request = .ok (run, w')) :
    Stepped hash w w' c := by
  rcases applyPersonal_new h with ⟨-, rfl⟩ | ⟨p, repository, slot, -, -, hbody⟩
  · exact .refl hash _ c
  · exact forkPersonalBody_stepped hkeyed hbody

theorem startDiff_cases {base ours theirs : Gid}
    (h : startDiff hash w caller base ours theirs = .ok (outcome, w')) : w' = w ∨
    ∃ items, items = diffItems (tenantMembers w.db.toStore caller.tenantGid base)
        (tenantMembers w.db.toStore caller.tenantGid ours)
        (tenantMembers w.db.toStore caller.tenantGid theirs) ∧
      ∃ row : LedgerRow, row.gid = w.issued + 1 ∧ row.tenantGid = caller.tenantGid ∧
        row.operationKind = diffKind ∧
        row.outcome = some (.diff row.gid (hash (.arr (items.map DiffItem.json))) items) ∧
        w' = { db := { w.db with ledger := w.db.ledger ++ [row] }, issued := w.issued + 1 } := by
  unfold startDiff at h
  dsimp only at h
  split at h
  · obtain ⟨_, -, h⟩ := bind_eq_ok.mp h
    split at h
    · cases h
      exact Or.inl rfl
    · cases h
  · cases h
    exact Or.inr ⟨_, rfl, _, rfl, rfl, rfl, rfl, rfl⟩

theorem startDiff_stepped {base ours theirs : Gid} {c : Caller × SpaceCall}
    (h : startDiff hash w caller base ours theirs = .ok (outcome, w')) : Stepped hash w w' c := by
  rcases startDiff_cases h with rfl | ⟨items, -, row, hgid, -, -, houtcome, rfl⟩
  · exact .refl hash _ c
  · refine ⟨Nat.le_succ _, Or.inr ⟨row, rfl, ?_, by simp [houtcome]⟩, .kept rfl rfl rfl⟩
    rw [hgid]
    exact ⟨Nat.lt_succ_self _, le_rfl⟩

variable {claims : Option ExportClaims}

variable {result : ImportOutcome}

theorem previewPrivateImport_stepped {ref : Str} {space repository : Gid} {c : Caller × SpaceCall}
    (h : previewPrivateImport hash w caller ref claims space repository expected
      = .ok (result, w')) : Stepped hash w w' c := by
  obtain ⟨_, -, h⟩ := bind_eq_ok.mp h
  dsimp only at h
  split at h
  · obtain ⟨_, -, h⟩ := bind_eq_ok.mp h
    cases h
    exact .refl hash _ c
  · cases h
    exact ⟨Nat.le_succ _, Or.inl rfl, .kept rfl rfl rfl⟩

/-- The diff on record is looked up past the row of another operation. -/
theorem diffItems?_running {tenantGid operation : Gid} {kind key : Str} {request : Json}
    (hkind : kind ≠ diffKind) :
    (w.running hash tenantGid kind key request).diffItems? tenantGid operation
      = w.diffItems? tenantGid operation := by
  unfold diffItems? running
  dsimp only
  rw [Rows.find?_append_of_not]
  simp [runningRow, hkind]

/-- **A synchronization** that is not on record edits the personal head. -/
theorem applySync_new {operation space : Gid} {keys : List MemberKey}
    (hsafe : w.LedgerSafe)
    (h : applySync hash w caller operation space keys expected = .ok (outcome, w')) :
    ((w.record? caller.tenantGid "personal.sync".toList caller.idempotencyKey).isSome ∧ w' = w) ∨
    ∃ items head, head.rowVersion = expected ∧
      w.record? caller.tenantGid "personal.sync".toList caller.idempotencyKey = none ∧
      w.diffItems? caller.tenantGid operation = some items ∧
      (∀ key ∈ keys, key ∈ items.map DiffItem.key) ∧
      personalHead? w.db.toStore space caller.tenantGid caller.actorGid = some head ∧
      w'.db.toStore = w.db.updateHead head.gid (SpaceHead.edited (syncEdits items keys)) ∧
      LedgerGrows w w' ∧ w'.issued = w.issued + 1 := by
  rcases ledgered_cases hsafe h with ⟨row, hrow, -, -, rfl⟩ | ⟨hrecord, u, hbody, rfl⟩
  · exact Or.inl ⟨Option.isSome_of_mem hrow, rfl⟩
  unfold applySyncBody at hbody
  rw [diffItems?_running (by decide)] at hbody
  split at hbody
  · cases hbody
  · rename_i items hitems
    obtain ⟨_, hkeys, hbody⟩ := bind_eq_ok.mp hbody
    split at hbody
    · cases hbody
    · rename_i head hhead
      obtain ⟨_, hversion, hbody⟩ := bind_eq_ok.mp hbody
      cases hbody
      exact Or.inr ⟨items, head, orRaise_eq_ok.mp hversion, hrecord, hitems,
        orRaise_eq_ok.mp hkeys, hhead, rfl, ledgerGrows_complete hsafe rfl le_rfl, rfl⟩

theorem applySync_stepped {operation space : Gid} {keys : List MemberKey}
    (hkeyed : w.Keyed)
    (h : applySync hash w caller operation space keys expected = .ok (outcome, w')) :
    Stepped hash w w' (caller, .applySync operation space keys expected) := by
  rcases applySync_new hkeyed.ledger h with
    ⟨-, rfl⟩ | ⟨items, head, rfl, hrecord, hitems, hkeys, hhead, hstore, hledger, hissued⟩
  · exact .refl hash _ _
  · refine ⟨hissued ▸ Nat.le_succ _, hledger, ?_⟩
    refine .edited head _ (.sync operation space keys items head hrecord hitems hkeys hhead) ?_ ?_ ?_
    · rw [hstore]
      rfl
    · rw [hstore]
      rfl
    · rw [hstore]
      rfl

theorem importNode_next (repository : Gid) (i : Imported) (source : ImportSource) :
    i.next ≤ (importNode hash repository i source).next := by
  cases source with
  | node _ _ _ _ _ => exact Nat.le_add_right _ 2
  | binding _ _ _ _ => exact le_rfl

theorem importBinding_next {i i' : Imported} {source : ImportSource}
    (h : importBinding hash repository i source = .ok i') : i.next ≤ i'.next := by
  cases source with
  | node _ _ _ _ _ =>
    cases h
    exact le_rfl
  | binding _ node _ _ =>
    unfold importBinding at h
    dsimp only at h
    split at h
    · cases h
    · cases h
      exact Nat.le_add_right _ 2

theorem importUnits_next {sources : List ImportSource} {first : Gid}
    {i : Imported} (h : importUnits hash repository sources first = .ok i) : first ≤ i.next := by
  have hnodes : ∀ (sources : List ImportSource) (i : Imported),
      i.next ≤ (sources.foldl (importNode hash repository) i).next := by
    intro sources
    induction sources with
    | nil => exact fun i => le_rfl
    | cons source sources ih => exact fun i => le_trans (importNode_next _ _ _) (ih _)
  have hbindings : ∀ (sources : List ImportSource) (i i' : Imported),
      sources.foldlM (importBinding hash repository) i = .ok i' → i.next ≤ i'.next := by
    intro sources
    induction sources with
    | nil =>
      intro i i' h
      cases h
      exact le_rfl
    | cons source sources ih =>
      intro i i' h
      rw [List.foldlM_cons] at h
      obtain ⟨i₁, hone, h⟩ := bind_eq_ok.mp h
      exact le_trans (importBinding_next hone) (ih _ _ h)
  exact le_trans (hnodes sources { next := first }) (hbindings sources _ _ h)

def withImport (w : CraftWorld) (preview : Gid) (head : SpaceHead) (i : Imported) (importedUnits : Nat) : CraftWorld :=
  let store := w.db.updateHead head.gid (SpaceHead.edited i.members)
  let applied := fun r : PersonalImport => { r with outcome := .applied (head.rowVersion + 1) importedUnits }
  { db := { w.db with
      toStore := { store with
        nodes := store.nodes ++ i.nodes
        nodeRevisions := store.nodeRevisions ++ i.nodeRevisions
        bindings := store.bindings ++ i.bindings
        bindingRevisions := store.bindingRevisions ++ i.bindingRevisions }
      imports := Rows.update (·.gid == preview) applied w.db.imports }
    issued := i.next }

theorem applyPrivateImport_cases {preview : Gid} {ref : Str} {space repository : Gid} {selected : List Str}
    (h : applyPrivateImport hash w caller preview ref claims space repository selected expected
      = .ok (result, w')) : ∃ checked row units head i,
      checkClaims claims caller space repository = .ok checked ∧
      w.db.imports.find? (fun r => r.gid == preview && r.personalSpaceGid == space) = some row ∧
      (row.sourceExportRefHash = hash (.str ref) ∧ row.sourceContentHash = checked.contentHash) ∧
      row.outcome = .previewed expected units ∧
      (∀ key ∈ selected, (unit? units key).any (fun u => u.dependencies.all (· ∈ selected))) ∧
      w.importTarget? caller space = some (repository, head) ∧ head.rowVersion = expected ∧
      importUnits hash repository (selectedSources units selected) (w.issued + 1) = .ok i ∧
      w' = w.withImport preview head i selected.dedup.length := by
  obtain ⟨checked, hclaims, h⟩ := bind_eq_ok.mp h
  split at h
  · cases h
  · rename_i row hrow
    obtain ⟨_, href, h⟩ := bind_eq_ok.mp h
    split at h
    · cases h
    · rename_i previewed units hunits
      obtain ⟨_, hselected, h⟩ := bind_eq_ok.mp h
      dsimp only at h
      split at h
      · cases h
      · rename_i actual head htarget
        simp only [bind_eq_ok] at h
        obtain ⟨_, hrepository, _, hversion, i, himport, h⟩ := h
        cases h
        obtain ⟨hexpected, rfl⟩ := orRaise_eq_ok.mp hversion
        obtain rfl : actual = repository := orRaise_eq_ok.mp hrepository
        exact ⟨checked, row, units, head, i, hclaims, hrow, orRaise_eq_ok.mp href, hunits,
          orRaise_eq_ok.mp hselected, htarget, hexpected, himport, rfl⟩

theorem applyPrivateImport_stepped {preview : Gid} {ref : Str} {space repository : Gid} {selected : List Str}
    (h : applyPrivateImport hash w caller preview ref claims space repository selected expected
      = .ok (result, w')) : Stepped hash w w'
      (caller, .applyPrivateImport preview ref claims space repository selected expected) := by
  obtain ⟨checked, row, units, head, i, hclaims, hrow, href, hunits, hselected, htarget, rfl, himport, rfl⟩ :=
    applyPrivateImport_cases h
  refine ⟨le_trans (Nat.le_succ _) (importUnits_next himport), Or.inl rfl, ?_⟩
  exact .edited head i.members (.imported preview ref claims space repository selected checked row
    units head i hclaims hrow href hunits hselected htarget himport) rfl rfl rfl

theorem body_tables {c : ProposalCall} {gid : Gid} {actor : Gid}
    (h : c.body hash actor gid w = .ok (outcome, v)) : v.db.imports = w.db.imports ∧
      (v.db.toStore = w.db.toStore ∨ ∃ target componentGid p unit head, c = .applyComponent target componentGid ∧
        w.load target = .ok p ∧ p.units.find? (·.componentGid == componentGid) = some unit ∧
        p.reviewStatus ∈ [ReviewStatus.accepted, .partiallyAccepted] ∧
        unit.reviewDecision = some .accepted ∧
        (∀ dep ∈ unit.dependencies, (p.outcomeOf dep).isSome) ∧ unit.applyOutcome = none ∧
        w.db.teamHead? p.repositoryGid = some head ∧
        member? unit.key head.members = unit.payload.theirs ∧
        v.db.toStore = w.db.updateHead head.gid (SpaceHead.edited [writtenMember unit])) := by
  have hstatus : ∀ {target : Gid} {allowed : List ReviewStatus} {status : ReviewStatus},
      statusBody target allowed status w = .ok (outcome, v) →
        v.db.imports = w.db.imports ∧ v.db.toStore = w.db.toStore := by
    intro target allowed status h
    obtain ⟨p, -, h⟩ := bind_eq_ok.mp h
    obtain ⟨_, -, h⟩ := bind_eq_ok.mp h
    rw [view_eq_ok h]
    exact ⟨rfl, rfl⟩
  cases c with
  | createProposal repository space version base =>
    obtain ⟨components, -, h⟩ := bind_eq_ok.mp h
    rw [view_eq_ok h]
    exact ⟨rfl, .inl rfl⟩
  | submit target => exact (hstatus h).imp_right .inl
  | withdraw target => exact (hstatus h).imp_right .inl
  | cancel target => exact (hstatus h).imp_right .inl
  | supersede target => exact (hstatus h).imp_right .inl
  | review target decisions =>
    obtain ⟨p, -, h⟩ := bind_eq_ok.mp h
    obtain ⟨_, -, h⟩ := bind_eq_ok.mp h
    obtain ⟨_, -, h⟩ := bind_eq_ok.mp h
    obtain ⟨_, -, h⟩ := bind_eq_ok.mp h
    rw [view_eq_ok h]
    exact ⟨rfl, .inl rfl⟩
  | applyComponent target componentGid =>
    obtain ⟨p, hp, h⟩ := bind_eq_ok.mp h
    dsimp only at h
    split at h
    · cases h
    · rename_i unit hunit
      obtain ⟨_, hstate, h⟩ := bind_eq_ok.mp h
      obtain ⟨_, hdeps, h⟩ := bind_eq_ok.mp h
      obtain ⟨hfrom, haccepted⟩ := orRaise_eq_ok.mp hstate
      split_ifs at h with hfirst
      · obtain ⟨w₁, happly, h⟩ := bind_eq_ok.mp h
        rw [view_eq_ok h]
        unfold applyUnit at happly
        split at happly
        · cases happly
        · rename_i head hhead
          obtain ⟨_, htheirs, happly⟩ := bind_eq_ok.mp happly
          cases happly
          exact ⟨rfl, .inr ⟨target, componentGid, p, unit, head, rfl, hp, hunit, hfrom, haccepted,
            orRaise_eq_ok.mp hdeps, Option.isNone_iff_eq_none.mp hfirst, hhead,
            orRaise_eq_ok.mp htheirs, rfl⟩⟩
      · obtain ⟨w₁, happly, h⟩ := bind_eq_ok.mp h
        cases happly
        rw [view_eq_ok h]
        exact ⟨rfl, .inl rfl⟩

theorem call_store {c : ProposalCall} (hsafe : w.LedgerSafe)
    (h : call hash w caller c = .ok (outcome, w')) : w'.db.toStore = w.db.toStore ∨
      ∃ head edits, Edits hash w caller (.proposal c) head edits ∧
        w'.db.toStore = w.db.updateHead head.gid (SpaceHead.edited edits) := by
  obtain ⟨hpermits, hledgered⟩ := call_eq_ok.mp h
  have hdrawn : (w.drawn c).LedgerSafe := hsafe.same (by rw [drawn_db]) (issued_drawn w c)
  rcases ledgered_cases hdrawn hledgered with ⟨_, -, -, -, rfl⟩ | ⟨hrecord, u, hbody, rfl⟩
  · exact Or.inl (by rw [drawn_db])
  rw [record?_drawn] at hrecord
  have hstore : ((w.drawn c).running hash caller.tenantGid c.kind caller.idempotencyKey
      c.request).db.toStore = w.db.toStore := by
    rw [running_toStore, drawn_db]
  rcases (body_tables hbody).2 with hsame | ⟨target, componentGid, p, unit, head, rfl, hp, hunit, hfrom,
      haccepted, hdeps, hfirst, hhead, htheirs, hupdate⟩
  · exact Or.inl (hsame.trans hstore)
  · exact Or.inr ⟨head, _, .component target componentGid p unit head (hpermits target rfl) hrecord
      hp hunit hfrom haccepted hdeps hfirst hhead htheirs, hupdate⟩

theorem call_stepped {c : ProposalCall} (hkeyed : w.Keyed)
    (h : call hash w caller c = .ok (outcome, w')) :
    Stepped hash w w' (caller, .proposal c) := by
  have hwritten : Written hash w w' (caller, .proposal c) := by
    rcases call_store hkeyed.ledger h with hsame | ⟨head, edits, hedits, hupdate⟩
    · exact .kept (congrArg Store.spaces hsame) (congrArg Store.heads hsame)
        (congrArg Store.versions hsame)
    · refine .edited head edits hedits ?_ ?_ ?_ <;>
      · rw [hupdate]
        rfl
  have hdrawn : (w.drawn c).LedgerSafe := hkeyed.ledger.same (by rw [drawn_db]) (issued_drawn w c)
  rcases ledgered_cases hdrawn (call_eq_ok.mp h).2 with
    ⟨_, -, -, -, rfl⟩ | ⟨-, u, hbody, rfl⟩
  · exact ⟨issued_drawn w c, Or.inl (by rw [drawn_db]), hwritten⟩
  obtain ⟨hframe, -⟩ := body_writes hbody
  have hissued : (w.drawn c).issued + 1 ≤ u.issued := hframe.issued
  refine ⟨le_trans (issued_drawn w c) (le_trans (Nat.le_succ _) hissued), ?_, hwritten⟩
  rcases ledgerGrows_complete hdrawn hframe.ledger hissued with
    hsame | ⟨row, hrow, hgid, houtcome⟩
  · exact Or.inl (hsame.trans (by rw [drawn_db]))
  · refine Or.inr ⟨row, hrow.trans (by rw [drawn_db]), ⟨?_, hgid.2⟩, houtcome⟩
    exact lt_of_le_of_lt (issued_drawn w c) hgid.1

variable (hash) in
/-- **One operation** does one of four things to the spaces, heads and versions. -/
theorem spaceStep_stepped (hkeyed : w.Keyed) (c : Caller × SpaceCall) :
    Stepped hash w (w.spaceStep hash c) c := by
  have hcommitted : ∀ {ε α : Type} {x : Except ε (α × CraftWorld)} {u : CraftWorld},
      committed x = some u → ∃ a, x = .ok (a, u) := by
    intro ε α x u h
    cases x with
    | error e => cases h
    | ok r =>
      cases h
      exact ⟨r.1, rfl⟩
  unfold spaceStep
  cases hcommits : commits hash w c.1 c.2 with
  | none => exact .refl hash w c
  | some u =>
    obtain ⟨caller, call⟩ := c
    cases call <;> obtain ⟨a, h⟩ := hcommitted hcommits
    case createRepository => exact createRepository_stepped hkeyed h
    case applyRepository => exact applyRepository_stepped hkeyed h
    case applyPersonal => exact applyPersonal_stepped hkeyed h
    case proposal => exact call_stepped hkeyed h
    case saveSpaceVersion => exact saveSpaceVersion_stepped hkeyed h
    case startDiff => exact startDiff_stepped h
    case applySync => exact applySync_stepped hkeyed h
    case previewPrivateImport => exact previewPrivateImport_stepped h
    case applyPrivateImport => exact applyPrivateImport_stepped h

theorem Keyed.spaceStep (h : w.Keyed) (c : Caller × SpaceCall) : (w.spaceStep hash c).Keyed :=
  h.step (spaceStep_stepped hash h c)

theorem Keyed.spaceRun (h : w.Keyed) (calls : List (Caller × SpaceCall)) :
    (w.spaceRun hash calls).Keyed := by
  induction calls generalizing w with
  | nil => exact h
  | cons c calls ih => exact ih (h.spaceStep c)

/-! ## What is let through is written -/

/-- A first step that succeeds is taken. -/
theorem exists_bind_ok {ε α β : Type} {x : Except ε α} {a : α} {f : α → Except ε β} {P : β → Prop}
    (hx : x = .ok a) (h : ∃ r, f a = .ok r ∧ P r) : ∃ r, (x >>= f) = .ok r ∧ P r := by
  rw [hx]
  exact h

theorem applyUnit_of_head {p : Proposal} {unit : ProposalUnit} {head : SpaceHead}
    (hhead : w.db.teamHead? p.repositoryGid = some head)
    (htheirs : member? unit.key head.members = unit.payload.theirs) :
    applyUnit hash w p unit = .ok (updateProposal
      { w with db.toStore := w.db.updateHead head.gid (SpaceHead.edited [writtenMember unit]) } p.gid
      (Proposal.recorded unit.unitGid ⟨hash unit.json, head.rowVersion + 1⟩)) := by
  unfold applyUnit
  rw [hhead]
  exact bind_eq_ok.mpr ⟨(), orRaise_eq_ok.mpr htheirs, rfl⟩

variable (hash) in
theorem applyComponentBody_first {gid componentGid : Gid} {p : Proposal} {unit : ProposalUnit}
    {head : SpaceHead} (hp : w.load gid = .ok p)
    (hunit : p.units.find? (·.componentGid == componentGid) = some unit)
    (hfrom : p.reviewStatus ∈ [ReviewStatus.accepted, .partiallyAccepted])
    (haccepted : unit.reviewDecision = some .accepted)
    (hdeps : ∀ dep ∈ unit.dependencies, (p.outcomeOf dep).isSome)
    (hfirst : unit.applyOutcome = none) (hhead : w.db.teamHead? p.repositoryGid = some head)
    (htheirs : member? unit.key head.members = unit.payload.theirs) :
    ∃ r, applyComponentBody hash gid componentGid w = .ok r ∧
      r.2.db.toStore = w.db.updateHead head.gid (SpaceHead.edited [writtenMember unit]) := by
  obtain rfl := gid_of_load hp
  have hload : ∀ store : Store, ({ w with db.toStore := store } : CraftWorld).load p.gid = .ok p :=
    fun store => hp
  have hrecorded := load_update (f := Proposal.recorded unit.unitGid
    ⟨hash unit.json, head.rowVersion + 1⟩) (fun _ => rfl)
    (hload (w.db.updateHead head.gid (SpaceHead.edited [writtenMember unit])))
  have hview := view_update (f := Proposal.settled) (fun _ => rfl) hrecorded
  refine ⟨_, Eq.trans ?_ hview, rfl⟩
  unfold applyComponentBody
  rw [hp]
  dsimp only [Bind.bind, Except.bind]
  rw [hunit]
  dsimp only
  rw [(orRaise_eq_ok (u := ())).mpr ⟨hfrom, haccepted⟩, (orRaise_eq_ok (u := ())).mpr hdeps]
  show (if unit.applyOutcome.isNone then _ else _) = _
  rw [if_pos (Option.isNone_iff_eq_none.mpr hfirst), applyUnit_of_head hhead htheirs]

/-- A component that is let through is written. -/
theorem Edits.call_store {c : ProposalCall} {head : SpaceHead} {edits : List Member}
    (h : Edits hash w caller (.proposal c) head edits) :
    ∃ outcome u, call hash w caller c = .ok (outcome, u) ∧
      u.db.toStore = w.db.updateHead head.gid (SpaceHead.edited edits) := by
  cases h with
  | component gid componentGid p unit head howns hnew hp hunit hfrom haccepted hdeps hfirst hhead htheirs =>
      obtain ⟨⟨outcome, u⟩, hbody, hstore⟩ := applyComponentBody_first hash
        (w := w.opened hash caller (.applyComponent gid componentGid)) hp hunit hfrom haccepted hdeps
        hfirst hhead htheirs
      refine ⟨outcome, u.complete (some (w.issued + 1)) outcome, call_eq_ok.mpr ⟨?_, ?_⟩, hstore⟩
      · intro target htarget
        cases htarget
        exact howns
      · exact ledgered_of_effect hnew hbody

/-- **An operation that is let through** writes the members it is let through with. -/
theorem Edits.spaceStep_heads {c : Caller × SpaceCall} {head : SpaceHead} {edits : List Member}
    (h : Edits hash w c.1 c.2 head edits) : (w.spaceStep hash c).db.heads
      = Rows.update (·.gid == head.gid) (SpaceHead.edited edits) w.db.heads := by
  obtain ⟨caller, call⟩ := c
  have hstep : ∀ u, commits hash w caller call = some u → w.spaceStep hash (caller, call) = u := by
    intro u hcommits
    unfold spaceStep
    dsimp only
    rw [hcommits]
    rfl
  have hedits := h
  cases h with
  | component gid componentGid _ _ _ _ _ _ _ _ _ _ _ _ _ =>
    obtain ⟨outcome, u, hok, hstore⟩ := hedits.call_store
    rw [hstep u]
    · rw [hstore]
      rfl
    · show committed (CraftWorld.call hash w caller (.applyComponent gid componentGid)) = _
      rw [hok]
      rfl
  | sync operation space keys items head hnew hitems hkeys hhead =>
    have hcall : ∃ outcome u, applySync hash w caller operation space keys head.rowVersion
        = .ok (outcome, u) ∧ u.db.toStore
          = w.db.updateHead head.gid (SpaceHead.edited (syncEdits items keys)) := by
      have hbody : ∀ request, applySyncBody caller operation space keys head.rowVersion
          (w.running hash caller.tenantGid "personal.sync".toList caller.idempotencyKey request)
          = .ok (.sync operation space (head.rowVersion + 1),
            { (w.running hash caller.tenantGid "personal.sync".toList caller.idempotencyKey
              request) with db.toStore :=
                w.db.updateHead head.gid (SpaceHead.edited (syncEdits items keys)) }) := by
        intro request
        unfold applySyncBody
        rw [diffItems?_running (by decide), hitems]
        refine bind_eq_ok.mpr ⟨(), orRaise_eq_ok.mpr hkeys, ?_⟩
        rw [running_toStore, hhead]
        exact bind_eq_ok.mpr ⟨(), orRaise_eq_ok.mpr rfl, rfl⟩
      exact ⟨_, _, ledgered_of_effect hnew (hbody _), rfl⟩
    obtain ⟨outcome, u, hok, hstore⟩ := hcall
    rw [hstep u]
    · rw [hstore]
      rfl
    · show committed (applySync hash w caller operation space keys head.rowVersion) = _
      rw [hok]
      rfl
  | imported preview ref claims space repository selected checked row units head i hclaims hrow
      href hunits hselected htarget himport =>
      have hcall : ∃ r, applyPrivateImport hash w caller preview ref claims space repository
          selected head.rowVersion = .ok r ∧ r.2.db.heads
            = (w.db.updateHead head.gid (SpaceHead.edited i.members)).heads := by
        unfold applyPrivateImport
        refine exists_bind_ok hclaims ?_
        rw [hrow]
        refine exists_bind_ok ((orRaise_eq_ok (u := ())).mpr href) ?_
        rw [hunits]
        refine exists_bind_ok ((orRaise_eq_ok (u := ())).mpr hselected) ?_
        unfold importTarget? at htarget
        dsimp only
        rw [htarget]
        refine exists_bind_ok ((orRaise_eq_ok (u := ())).mpr rfl) ?_
        refine exists_bind_ok ((orRaise_eq_ok (u := ())).mpr ⟨rfl, rfl⟩) ?_
        exact exists_bind_ok himport ⟨_, rfl, rfl⟩
      obtain ⟨⟨result, u⟩, hok, hheads⟩ := hcall
      rw [hstep u]
      · exact hheads
      · show committed (applyPrivateImport hash w caller preview ref claims space repository selected
          head.rowVersion) = _
        rw [hok]
        rfl

end

end CraftWorld

end Ai00.Craft
