import Ai00.Craft.SpaceHistory

/-! # From a fork to a proposal

A personal space takes some members of its base version, is edited, and a version of it is
proposed back. A proposal compares the two versions key by key (`mem_keys_diffComponents`), while
the fork left out what is too deep, a binding at a shallow depth, or a node that is a tombstone
(`member?_reusedMembers`). What was left out counts as a difference, although nobody made it.
-/

namespace Ai00.Craft.CraftWorld

/-! ## The members a fork takes -/

theorem member?_filter {p : Member → Bool} {l : List Member} (hkeys : (l.map Member.key).Nodup)
    (key : MemberKey) : member? key (l.filter p) = (member? key l).filter p := by
  refine Option.ext fun m => ?_
  have hsub : ((l.filter p).map Member.key).Nodup := hkeys.sublist (List.filter_sublist.map _)
  rw [Option.filter_eq_some_iff]
  unfold member?
  rw [KeyedRows.lookup_iff_mem hsub, KeyedRows.lookup_iff_mem hkeys, List.mem_filter]
  tauto

/-- **What a fork takes** under a key: the value of the version, if the depth includes it. -/
theorem member?_reusedMembers {t : Store} {version : Gid} {depth : ForkDepth}
    (hkeys : ((t.versionMembers version).map Member.key).Nodup) (key : MemberKey) :
    member? key (reusedMembers t version depth)
      = (member? key (t.versionMembers version)).filter (reuses t depth) := by
  have hperm := List.perm_insertionSort (fun a b : Member => a.before b = true)
    (t.versionMembers version)
  unfold reusedMembers
  rw [member?_filter ((hperm.map _).nodup_iff.mpr hkeys), ← member?_perm hperm.symm hkeys]

/-! ## The components of a proposal -/

/-- **The components** are the keys under which the two versions differ, in order. -/
theorem map_key_diffComponents (base ours theirs : List Member) (keys : List MemberKey) (gid : Gid) :
    (diffComponents base ours theirs keys gid).map Component.key
      = keys.filter (fun key => decide (member? key base ≠ member? key ours)) := by
  induction keys generalizing gid with
  | nil => rfl
  | cons key keys ih =>
    rw [diffComponents]
    by_cases hsame : member? key base = member? key ours
    · rw [if_pos hsame, ih, List.filter_cons_of_neg (by simp [hsame])]
    · rw [if_neg hsame, List.map_cons, ih, List.filter_cons_of_pos (by simp [hsame])]
      rfl

theorem ours_of_mem_diffComponents {base ours theirs : List Member} {keys : List MemberKey}
    {gid : Gid} {c : Component} (h : c ∈ diffComponents base ours theirs keys gid) :
    c.payload.base = member? c.key base ∧ c.payload.ours = member? c.key ours := by
  induction keys generalizing gid with
  | nil => cases h
  | cons key keys ih =>
    rw [diffComponents] at h
    split_ifs at h with hsame
    · exact ih h
    · rcases List.mem_cons.mp h with rfl | h
      · exact ⟨rfl, rfl⟩
      · exact ih h

theorem mem_sortedKeys_of_ne {base ours : List Member} {key : MemberKey}
    (h : member? key base ≠ member? key ours) : key ∈ sortedKeys (base ++ ours) := by
  rw [mem_sortedKeys, ← member?_isSome_iff]
  unfold member? at h ⊢
  rw [KeyedRows.lookup_append, Option.isSome_or]
  cases hbase : KeyedRows.lookup Member.key key base with
  | some m => rfl
  | none =>
    rw [hbase] at h
    rw [Option.isSome_none, Bool.false_or, ← Option.ne_none_iff_isSome]
    exact h.symm

theorem mem_unitsOf {components : List Component} {gid : Gid} {u : ProposalUnit}
    (h : u ∈ unitsOf components gid) : u.toComponent ∈ components := by
  induction components generalizing gid with
  | nil => cases h
  | cons c components ih =>
    rw [unitsOf] at h
    rcases List.mem_cons.mp h with rfl | h
    · exact List.mem_cons_self
    · exact List.mem_cons_of_mem _ (ih h)

theorem map_key_unitsOf (components : List Component) (gid : Gid) :
    (unitsOf components gid).map (fun u => u.toComponent.key) = components.map Component.key := by
  induction components generalizing gid with
  | nil => rfl
  | cons c components ih =>
    rw [unitsOf, List.map_cons, ih, List.map_cons]

section

variable {hash : Json → Str} {w w' : CraftWorld} {caller : Caller} {outcome : Outcome}
  {repository space version base : Gid}

/-- **A new proposal** has a unit for exactly the keys under which its versions differ, with the
value of the personal version. -/
theorem createProposal_units
    (hnew : w.record? caller.tenantGid "proposal.create".toList caller.idempotencyKey = none)
    (h : createProposal hash w caller repository space version base = .ok (outcome, w')) :
    ∃ p : Proposal, w'.db.proposals = w.db.proposals ++ [p] ∧
      (∀ key, key ∈ p.units.map (fun u => u.toComponent.key) ↔
        member? key (w.db.versionMembers base) ≠ member? key (w.db.versionMembers version)) ∧
      ∀ u ∈ p.units, u.payload.ours = member? u.toComponent.key (w.db.versionMembers version) := by
  unfold createProposal at h
  dsimp only at h
  have hdrawn : ({ w with issued := w.issued + 1 } : CraftWorld).record? caller.tenantGid
      "proposal.create".toList caller.idempotencyKey = none := hnew
  obtain ⟨v, hbody, heq⟩ := (ledgered_of_new hdrawn).mp h
  obtain ⟨components, hcomponents, hbody⟩ := bind_eq_ok.mp hbody
  have hv := view_eq_ok hbody
  unfold resolveComponents at hcomponents
  obtain ⟨_, -, hcomponents⟩ := bind_eq_ok.mp hcomponents
  dsimp only at hcomponents
  split at hcomponents
  · cases hcomponents
  · rename_i head _
    cases hcomponents
    refine ⟨_, (congrArg (fun u : CraftWorld => u.db.proposals) heq).trans
      (congrArg (fun u : CraftWorld => u.db.proposals) hv), fun key => ?_, fun u hu => ?_⟩
    · rw [map_key_unitsOf, withDependencies, List.map_map]
      show key ∈ (diffComponents _ _ _ _ _).map Component.key ↔ _
      rw [map_key_diffComponents, List.mem_filter, decide_eq_true_eq]
      exact and_iff_right_of_imp mem_sortedKeys_of_ne
    · obtain ⟨c, hc, heq⟩ := List.mem_map.mp (mem_unitsOf hu)
      rw [← heq]
      exact (ours_of_mem_diffComponents hc).2

end

/-! ## What a personal space keeps -/

section

variable {hash : Json → Str} {w w' : CraftWorld}

/-- The head of a space and the versions saved from it still have some members, under whatever
values. -/
structure Keeps (w : CraftWorld) (space : Gid) (members : List Member) : Prop where
  head : ∃ h ∈ w.db.heads, h.spaceGid = space ∧
    ∀ key, (member? key members).isSome → (member? key h.members).isSome
  versions : ∀ v ∈ w.db.versions, v.spaceGid = space →
    ∀ key, (member? key members).isSome → (member? key v.members).isSome

variable {members : List Member}

theorem Keeps.step {space : Gid} (hkeyed : w.Keyed)
    (h : Keeps w space members) (c : Caller × SpaceCall) :
    Keeps (w.spaceStep hash c) space members := by
  obtain ⟨⟨head, hhead, rfl, hkeys⟩, hversions⟩ := h
  obtain ⟨later, hlater, hcases⟩ := step_head hash hkeyed c hhead
  have hcontinues : Continues head later := by
    rcases hcases with rfl | ⟨edits, -, rfl⟩
    · exact .refl later
    · exact continues_edited head edits
  have hlaterKeys : ∀ key, (member? key members).isSome → (member? key later.members).isSome :=
    fun key hkey => hcontinues.keys key (hkeys key hkey)
  refine ⟨⟨later, hlater, hcontinues.spaceGid, hlaterKeys⟩, fun v hv hspace key hkey => ?_⟩
  by_cases hold : v ∈ w.db.versions
  · exact hversions v hold hspace key hkey
  · obtain ⟨saved, hsaved, hsavedSpace, -, hmembers⟩ := added_version hkeyed hv hold
    obtain rfl := (hkeyed.spaceStep c).head_inj hsaved hlater
      (hsavedSpace.trans (hspace.trans hcontinues.spaceGid.symm))
    rw [hmembers]
    exact hlaterKeys key hkey

theorem Keeps.run {space : Gid} {calls : List (Caller × SpaceCall)}
    (hkeyed : w.Keyed) (h : Keeps w space members) : Keeps (w.spaceRun hash calls) space members := by
  induction calls generalizing w with
  | nil => exact h
  | cons c calls ih => exact ih (hkeyed.spaceStep c) (h.step hkeyed c)

theorem versionRepository?_withSpace {t : Store} {space : Space} {head : SpaceHead}
    {version repository : Gid} (h : t.versionRepository? version = some repository) :
    (withSpace t space head).versionRepository? version = some repository := by
  obtain ⟨v, hv, h⟩ := Option.bind_eq_some_iff.mp h
  obtain ⟨s, hs, h⟩ := Option.bind_eq_some_iff.mp h
  refine Option.bind_eq_some_iff.mpr ⟨v, hv, Option.bind_eq_some_iff.mpr ⟨s, ?_, h⟩⟩
  exact Rows.find?_append_of_some hs [space]

theorem fillPersonal_reuses {t t' : Store} {space : Space} {head : SpaceHead} {p : ForkPlan}
    {repository spaceGid headGid : Gid} {gids : Nat}
    (hsame : t.versionRepository? p.sourceVersionGid = some repository)
    (h : fillPersonal hash (withSpace t space head) p repository spaceGid headGid = .ok (t', members, gids)) :
    members = reusedMembers t p.sourceVersionGid p.forkDepth := by
  obtain ⟨reused, hreuse, h⟩ := bind_eq_ok.mp h
  cases reused with
  | some pair =>
    obtain ⟨t₁, reused⟩ := pair
    cases h
    obtain ⟨-, -, hreused, -⟩ := reuseVersion_eq_some.mp hreuse
    exact hreused
  | none =>
    exfalso
    unfold reuseVersion at hreuse
    rw [versionRepository?_withSpace hsame] at hreuse
    dsimp only at hreuse
    split_ifs at hreuse with _ hne
    · exact hne rfl
    · cases hreuse

/-- What a fork inside its repository leaves: the new head has the members taken, and no version
is saved from it yet. -/
theorem applyPersonal_reuses {caller : Caller} {request : ForkRequest} {run : ForkRun}
    {p : ForkPlan} (hkeyed : w.Keyed) (hnew : run ∉ w.db.forkRuns)
    (hplan : w.db.forkPlans.find? (fun p => p.gid == request.previewGid &&
      p.actorGid == caller.actorGid && p.personalTarget.isSome) = some p)
    (hsame : w.db.versionRepository? p.sourceVersionGid = some run.repositoryGid)
    (h : applyPersonal hash w caller request = .ok (run, w')) :
    w'.Keyed ∧ w'.db.versions = w.db.versions ∧
      Keeps w' run.spaceGid (reusedMembers w.db.toStore p.sourceVersionGid p.forkDepth) := by
  have hkeyed' : w'.Keyed :=
    hkeyed.step (applyPersonal_stepped (c := (caller, .applyPersonal request)) hkeyed h)
  rcases applyPersonal_new h with ⟨hin, -⟩ | ⟨q, repository, slot, hq, -, hbody⟩
  · exact absurd hin hnew
  obtain rfl : p = q := Option.some.inj (hplan.symm.trans hq)
  obtain ⟨_, -, hbody⟩ := bind_eq_ok.mp hbody
  obtain ⟨⟨t, members, gids⟩, hfill, hbody⟩ := bind_eq_ok.mp hbody
  cases hbody
  have hfilled := fillPersonal_filled (hkeyed.head_ne (by decide)) rfl hkeyed.versionMembers hfill
  obtain rfl := fillPersonal_reuses hsame hfill
  have hhead : ∃ h ∈ t.heads, h.spaceGid = w.issued + 2 ∧
      h.members = reusedMembers w.db.toStore p.sourceVersionGid p.forkDepth := by
    rw [hfilled.heads]
    exact ⟨_, List.mem_append_right _ List.mem_cons_self, rfl, rfl⟩
  obtain ⟨h₁, hh₁, hspace₁, hmembers₁⟩ := hhead
  refine ⟨hkeyed', hfilled.versions, ⟨h₁, hh₁, hspace₁, fun key hkey => hmembers₁ ▸ hkey⟩, ?_⟩
  intro v hv hspace
  have hold : v ∈ w.db.versions := hfilled.versions ▸ hv
  have hlt : v.spaceGid < w.issued + 2 :=
    lt_of_le_of_lt (hkeyed.versionIssued v hold).2 (Nat.lt_add_of_pos_right (by decide))
  exact absurd hspace (ne_of_lt hlt)

end

/-! ## A proposal of a fork -/

theorem versionMembers_mono {t t' : Store} {version repository : Gid}
    (h : t.versionRepository? version = some repository) (hprefixed : t.versions <+: t'.versions) :
    t'.versionMembers version = t.versionMembers version := by
  obtain ⟨v, hv, -⟩ := Option.bind_eq_some_iff.mp h
  obtain ⟨more, hmore⟩ := hprefixed
  unfold Store.versionMembers
  rw [← hmore, Rows.find?_append_of_some hv more, hv]

/-- The components are the differences from what the fork took, and none takes away a member that
the personal version does not hold as deleted. -/
def ProposesChanges (p : Proposal) (forked ours : List Member) : Prop :=
  (∀ key, key ∈ p.units.map (fun u => u.toComponent.key) ↔ member? key ours ≠ member? key forked) ∧
    ∀ u ∈ p.units, (writtenMember u).isTombstone = true →
      ∃ m, member? u.toComponent.key ours = some m ∧ m.isTombstone = true

/-- **Proposing a fork back.** A personal space is forked from a version of its own repository,
any operations follow, and one of its versions is proposed against that base. The proposal holds
the changes made since the fork exactly if every base member that the fork left out has been
written to the personal version since, with a value other than the one in the base. -/
theorem fork_proposes_changes (hash : Json → Str) (start : CraftWorld) (hstart : start.Keyed)
    (before edits : List (Caller × SpaceCall)) (forker proposer : Caller) (request : ForkRequest)
    (p : ForkPlan) (run : ForkRun) (forked proposed : CraftWorld) (version : SpaceVersion)
    (outcome : Outcome)
    (hplan : (start.spaceRun hash before).db.forkPlans.find? (fun p => p.gid == request.previewGid &&
      p.actorGid == forker.actorGid && p.personalTarget.isSome) = some p)
    (hfork : applyPersonal hash (start.spaceRun hash before) forker request = .ok (run, forked))
    (hfirst : run ∉ (start.spaceRun hash before).db.forkRuns)
    (hsame : (start.spaceRun hash before).db.versionRepository? p.sourceVersionGid
      = some run.repositoryGid)
    (hversion : version ∈ (forked.spaceRun hash edits).db.versions)
    (hspace : version.spaceGid = run.spaceGid)
    (hnew : (forked.spaceRun hash edits).record? proposer.tenantGid "proposal.create".toList
      proposer.idempotencyKey = none)
    (hpropose : createProposal hash (forked.spaceRun hash edits) proposer run.repositoryGid
      run.spaceGid version.gid p.sourceVersionGid = .ok (outcome, proposed)) :
    let t := (start.spaceRun hash before).db.toStore
    let base := t.versionMembers p.sourceVersionGid
    let taken := reusedMembers t p.sourceVersionGid p.forkDepth
    ∃ proposal, proposed.db.proposals = (forked.spaceRun hash edits).db.proposals ++ [proposal] ∧
      (ProposesChanges proposal taken version.members ↔ ∀ b ∈ base, b.key ∉ taken.map Member.key →
        ∃ m, member? b.key version.members = some m ∧ m ≠ b) := by
  intro t base taken
  have hkeyed : (start.spaceRun hash before).Keyed := hstart.spaceRun before
  obtain ⟨hkeyed₁, hversions, hkeeps⟩ := applyPersonal_reuses hkeyed hfirst hplan hsame hfork
  have hkeyed₂ : (forked.spaceRun hash edits).Keyed := hkeyed₁.spaceRun edits
  have hours : (forked.spaceRun hash edits).db.versionMembers version.gid = version.members :=
    versionMembers_of_mem hkeyed₂ hversion
  have hbase : (forked.spaceRun hash edits).db.versionMembers p.sourceVersionGid = base :=
    versionMembers_mono hsame (hversions ▸ run_versions hash hkeyed₁ edits)
  have hbaseKeys : (base.map Member.key).Nodup := by
    obtain ⟨v, hv, -⟩ := Option.bind_eq_some_iff.mp hsame
    have hin := List.mem_of_find?_eq_some hv
    have hgid : v.gid = p.sourceVersionGid := by simpa using List.find?_some hv
    have heq : base = v.members := by
      rw [← versionMembers_of_mem hkeyed hin, hgid]
    rw [heq]
    exact hkeyed.versionMembers v hin
  have htaken : ∀ key, member? key taken = (member? key base).filter (reuses t p.forkDepth) :=
    member?_reusedMembers hbaseKeys
  obtain ⟨proposal, hproposals, hunits, hvalues⟩ := createProposal_units hnew hpropose
  rw [hours, hbase] at hunits
  rw [hours] at hvalues
  refine ⟨proposal, hproposals, ?_, ?_⟩
  · -- a base member that is left out is a component whatever the personal version holds
    rintro ⟨hexact, -⟩ b hb hout
    have hb' : member? b.key base = some b := KeyedRows.lookup_of_mem hbaseKeys hb
    have hnone : member? b.key taken = none := by
      rw [← Option.not_isSome_iff_eq_none, member?_isSome_iff]
      exact hout
    have hiff := (hunits b.key).symm.trans (hexact b.key)
    rw [hb', hnone] at hiff
    cases hm : member? b.key version.members with
    | none =>
      rw [hm] at hiff
      exact absurd (hiff.mp (by simp)) (by simp)
    | some m =>
      rw [hm] at hiff
      refine ⟨m, rfl, fun heq => hiff.mpr (by simp) ?_⟩
      rw [heq]
  · intro hwritten
    -- under every key the base differs from the personal version where the fork does
    have hdiffers : ∀ key, member? key base ≠ member? key version.members ↔
        member? key version.members ≠ member? key taken := by
      intro key
      cases hb : member? key base with
      | none => rw [htaken, hb, Option.filter_none, ne_comm]
      | some b =>
        obtain rfl := member?_key hb
        by_cases hreused : reuses t p.forkDepth b = true
        · rw [htaken, hb, Option.filter_some_pos hreused, ne_comm]
        · have hnone : member? b.key taken = none := by
            rw [htaken, hb, Option.filter_some_neg (by simpa using hreused)]
          have hout : b.key ∉ taken.map Member.key := by
            rw [← member?_isSome_iff, hnone]
            decide
          obtain ⟨m, hm, hne⟩ := hwritten b (mem_of_member? hb) hout
          rw [hnone, hm]
          exact iff_of_true (fun heq => hne (Option.some.inj heq).symm) (by simp)
    refine ⟨fun key => (hunits key).trans (hdiffers key), fun u hu htombstone => ?_⟩
    have hkey := (hunits u.toComponent.key).mp (List.mem_map.mpr ⟨u, hu, rfl⟩)
    have hvalue := hvalues u hu
    cases hm : member? u.toComponent.key version.members with
    | some m =>
      refine ⟨m, rfl, ?_⟩
      rw [hm] at hvalue
      unfold writtenMember at htombstone
      rwa [hvalue] at htombstone
    | none =>
      -- what was taken is never lost, and what was left out has been written
      rw [hm] at hkey
      obtain ⟨b, hb⟩ := Option.ne_none_iff_exists'.mp hkey
      obtain hbkey := member?_key hb
      by_cases hin : b.key ∈ taken.map Member.key
      · have hlater : Keeps (forked.spaceRun hash edits) run.spaceGid taken := hkeeps.run hkeyed₁
        have hkept := hlater.versions version hversion hspace b.key (member?_isSome_iff.mpr hin)
        rw [hbkey, hm] at hkept
        cases hkept
      · obtain ⟨m, hm', -⟩ := hwritten b (mem_of_member? hb) hin
        rw [hbkey, hm] at hm'
        cases hm'

/-- A team version with a line and an operation, and plans to fork it at two depths. -/
def lineAndOperation : CraftWorld where
  db :=
    { repositories := [⟨1, 9, 5, false⟩]
      spaces := [⟨2, 1, 9, .team, none, none, false⟩]
      heads := [⟨4, 2, 9, 1, "sha256:t".toList, [⟨.node, 10, some 30, none, none, false⟩,
        ⟨.node, 11, some 31, none, none, false⟩]⟩]
      versions := [⟨20, 2, 9, "saved".toList, .null, .null, "a".toList,
        [⟨.node, 10, some 30, none, none, false⟩, ⟨.node, 11, some 31, none, none, false⟩]⟩]
      nodes := [⟨10, 1, 10, none⟩, ⟨11, 1, 11, none⟩]
      nodeRevisions := [⟨30, 10, none, "line".toList, "1".toList, .null, [], .null⟩,
        ⟨31, 11, some 10, "operation".toList, "1".toList, .null, [], .null⟩]
      forkPlans := [⟨40, 41, 9, 8, 20, 5, .station, [], .null, 1, some (1, 0)⟩,
        ⟨42, 43, 9, 8, 20, 5, .all, [], .null, 1, some (1, 0)⟩] }
  issued := 100

theorem lineAndOperation_keyed : lineAndOperation.Keyed := by
  refine ⟨⟨by decide, by decide⟩, ?_, ?_, ?_, ?_, ?_, ?_, ?_, ?_, ?_, ?_, ?_, ?_⟩ <;> decide

/-- The line is forked without the operation, saved unedited and proposed; all is accepted. -/
def shallowForkCalls : List (Caller × SpaceCall) :=
  [(⟨9, 8, "a".toList⟩, .applyPersonal ⟨40, [], .null, 0, 0⟩),
    (⟨9, 8, "b".toList⟩, .saveSpaceVersion 102 1 "saved".toList .null .null),
    (⟨9, 8, "c".toList⟩, .proposal (.createProposal 1 102 105 20)),
    (⟨9, 8, "d".toList⟩, .proposal (.submit 106)),
    (⟨9, 7, "e".toList⟩, .proposal (.review 106 [(108, "accepted".toList)])),
    (⟨9, 7, "f".toList⟩, .proposal (.applyComponent 106 108))]

/-- **A shallow fork proposes deletions**: the proposal of an unedited personal space takes the
operation away, which the space never contained. -/
theorem shallow_fork_removes :
    let w := lineAndOperation.spaceRun (Json.dumps (fun _ => [])) shallowForkCalls
    (w.load 106).toOption.map (fun p => p.units.map fun u => (u.toComponent.key, u.payload.ours))
      = some [(⟨.node, 11⟩, none)] ∧
    (w.db.head? 102).map (fun h => h.members.map Member.key) = some [⟨.node, 10⟩] ∧
    (w.db.head? 2).map (fun h => (member? ⟨.node, 11⟩ h.members).map Member.isTombstone)
      = some (some true) := by
  decide +kernel

theorem fork_proposes_changes_all :
    let hash := Json.dumps (fun _ => [])
    let members : List Member := [⟨.node, 10, some 30, none, none, false⟩,
      ⟨.node, 11, some 31, none, none, false⟩]
    ∃ w : CraftWorld, ∃ outcome proposed proposal,
      createProposal hash w ⟨9, 8, "c".toList⟩ 1 102 105 20 = .ok (outcome, proposed) ∧
      proposed.db.proposals = w.db.proposals ++ [proposal] ∧
      ProposesChanges proposal members members := by
  intro hash members
  let version : SpaceVersion := ⟨105, 102, 9, "saved".toList, .null, .null,
    manifestHash hash (membersHash hash (members.map Member.ref)) .null .null, members⟩
  let edits : List (Caller × SpaceCall) :=
    [(⟨9, 8, "b".toList⟩, .saveSpaceVersion 102 1 "saved".toList .null .null)]
  have hseen : (applyPersonal hash lineAndOperation ⟨9, 8, "a".toList⟩
      ⟨42, [], .null, 0, 0⟩).toOption.any (fun r =>
        decide (r.1.repositoryGid = 1 ∧ r.1.spaceGid = 102 ∧
          version ∈ (r.2.spaceRun hash edits).db.versions ∧
          (r.2.spaceRun hash edits).record? 9 "proposal.create".toList "c".toList = none) &&
        (createProposal hash (r.2.spaceRun hash edits) ⟨9, 8, "c".toList⟩ 1 102 105
          20).toOption.isSome) = true := by
    decide +kernel
  cases hfork : applyPersonal hash lineAndOperation ⟨9, 8, "a".toList⟩ ⟨42, [], .null, 0, 0⟩ with
  | error e =>
    rw [hfork] at hseen
    cases hseen
  | ok r =>
    obtain ⟨run, forked⟩ := r
    rw [hfork] at hseen
    obtain ⟨hfacts, hproposes⟩ := Bool.and_eq_true_iff.mp hseen
    obtain ⟨hrepository, hspace, hversion, hnew⟩ := of_decide_eq_true hfacts
    cases hcreate : createProposal hash (forked.spaceRun hash edits) ⟨9, 8, "c".toList⟩ 1 102 105
        20 with
    | error e =>
      rw [hcreate] at hproposes
      cases hproposes
    | ok s =>
      obtain ⟨outcome, proposed⟩ := s
      dsimp only at hrepository hspace
      have hlaw := fork_proposes_changes hash lineAndOperation lineAndOperation_keyed [] edits
        ⟨9, 8, "a".toList⟩ ⟨9, 8, "c".toList⟩ ⟨42, [], .null, 0, 0⟩
        ⟨42, 43, 9, 8, 20, 5, .all, [], .null, 1, some (1, 0)⟩ run forked proposed version outcome
        (by decide +kernel) hfork (by simp [spaceRun, lineAndOperation])
        (by rw [hrepository]; decide +kernel) hversion hspace.symm hnew
        (by rw [hrepository, hspace]; exact hcreate)
      obtain ⟨proposal, hproposals, hiff⟩ := hlaw
      have htaken : reusedMembers (lineAndOperation.spaceRun hash []).db.toStore 20 .all
          = members := by decide +kernel
      rw [htaken] at hiff
      refine ⟨_, outcome, proposed, proposal, hcreate, hproposals, hiff.mpr ?_⟩
      intro b hb hout
      refine absurd ?_ hout
      have hbase : (lineAndOperation.spaceRun hash []).db.versionMembers 20 = members := by
        decide +kernel
      exact List.mem_map_of_mem (hbase ▸ hb)

end Ai00.Craft.CraftWorld
