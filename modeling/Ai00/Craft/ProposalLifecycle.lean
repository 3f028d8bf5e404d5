import Ai00.Craft.Ledger

/-! # The lifecycle of change proposals

What holds of proposals after any calls. What a call may write to one proposal is a `Change`; that
each keeps `Proposal.Sound` is the step, `CraftWorld.Safe` carries it over a run. The ledger only
grows, so a call that has returned returns the same again.

A terminal proposal is finished but for one gap: while its review status is still an accepted
one, `supersede` and a second `apply_component` of a component go through (`Reopens`).
-/

namespace Ai00.Craft

/-! ## One proposal -/

namespace Proposal

/-- The accepted components are closed under their dependencies. -/
def DecisionsClosed (p : Proposal) : Prop :=
  ∀ u ∈ p.units, u.reviewDecision = some .accepted → ∀ dep ∈ u.dependencies,
    ∃ v ∈ p.units, v.componentGid = dep ∧ v.reviewDecision = some .accepted

/-- A component with an outcome is accepted, and its dependencies have one too. -/
def OutcomesSupported (p : Proposal) : Prop :=
  ∀ u ∈ p.units, u.applyOutcome.isSome → u.reviewDecision = some .accepted ∧
    ∀ dep ∈ u.dependencies, ∃ v ∈ p.units, v.componentGid = dep ∧ v.applyOutcome.isSome

/-- `apply_status` is `applied` where something is accepted and all of that is applied. -/
def AppliedExactly (p : Proposal) : Prop :=
  p.applyStatus = .applied ↔ (∃ u ∈ p.units, u.reviewDecision = some .accepted) ∧
    ∀ u ∈ p.units, u.reviewDecision = some .accepted → u.applyOutcome.isSome

def undecidedStatuses : List ReviewStatus := [.draft, .submitted, .reviewing]

structure Sound (p : Proposal) : Prop where
  components : (p.units.map (·.componentGid)).Nodup
  unitGids : (p.units.map (·.unitGid)).Nodup
  undecided : p.reviewStatus ∈ undecidedStatuses →
    ∀ u ∈ p.units, u.reviewDecision = none
  closed : p.DecisionsClosed
  supported : p.OutcomesSupported
  applied : p.AppliedExactly

/-- The sources and targets of `_status`. -/
def Moves (allowed : List ReviewStatus) (target : ReviewStatus) : Prop :=
  (allowed = [.draft] ∧ target = .submitted) ∨
  (allowed = undecidedStatuses ∧ (target = .withdrawn ∨ target = .cancelled)) ∨
  (allowed = undecidedStatuses ++ [.accepted, .partiallyAccepted] ∧ target = .superseded)

/-- What a call may make of a proposal. -/
inductive Change (p : Proposal) : Proposal → Prop
  | moved (allowed : List ReviewStatus) (target : ReviewStatus) (hmoves : Moves allowed target)
      (hfrom : p.reviewStatus ∈ allowed) : Change p (p.moved target)
  | reviewed (decisions : List (Gid × Str))
      (hfrom : p.reviewStatus ∈ [ReviewStatus.submitted, .reviewing])
      (hclosed : ∀ u ∈ p.units, combined decisions u = some .accepted →
        ∀ dep ∈ u.dependencies, p.combinedAt decisions dep = some .accepted) :
      Change p (p.reviewed decisions)
  | repeated (unit : ProposalUnit) (hunit : unit ∈ p.units)
      (hfrom : p.reviewStatus ∈ [ReviewStatus.accepted, .partiallyAccepted])
      (haccepted : unit.reviewDecision = some .accepted) (houtcome : unit.applyOutcome.isSome) :
      Change p p.settled
  | applied (unit : ProposalUnit) (outcome : ApplyOutcome) (hunit : unit ∈ p.units)
      (hfrom : p.reviewStatus ∈ [ReviewStatus.accepted, .partiallyAccepted])
      (haccepted : unit.reviewDecision = some .accepted) (hnew : unit.applyOutcome = none)
      (hdeps : ∀ dep ∈ unit.dependencies, (p.outcomeOf dep).isSome) :
      Change p (p.recorded unit.unitGid outcome).settled

variable {p q : Proposal}

theorem combinedAt_accepted {decisions : List (Gid × Str)} {dep : Gid}
    (h : p.combinedAt decisions dep = some .accepted) :
    ∃ v ∈ p.units, v.componentGid = dep ∧ combined decisions v = some .accepted := by
  unfold combinedAt at h
  obtain ⟨v, hv, haccepted⟩ := Option.bind_eq_some_iff.mp h
  have hgid : v.componentGid = dep := by simpa using List.find?_some hv
  exact ⟨v, List.mem_of_find?_eq_some hv, hgid, haccepted⟩

theorem outcomeOf_isSome {dep : Gid} (h : (p.outcomeOf dep).isSome) :
    ∃ v ∈ p.units, v.componentGid = dep ∧ v.applyOutcome.isSome := by
  obtain ⟨outcome, houtcome⟩ := Option.isSome_iff_exists.mp h
  unfold outcomeOf at houtcome
  obtain ⟨v, hv, hsome⟩ := Option.bind_eq_some_iff.mp houtcome
  have hgid : v.componentGid = dep := by simpa using List.find?_some hv
  exact ⟨v, List.mem_of_find?_eq_some hv, hgid, by simp [hsome]⟩

theorem Sound.not_applied (h : p.Sound) (hopen : p.reviewStatus ∈ undecidedStatuses) :
    p.applyStatus ≠ .applied := by
  intro happlied
  obtain ⟨u, hu, haccepted⟩ := (h.applied.mp happlied).1
  rw [h.undecided hopen u hu] at haccepted
  cases haccepted

theorem Sound.no_outcome (h : p.Sound) (hopen : p.reviewStatus ∈ undecidedStatuses)
    {u : ProposalUnit} (hu : u ∈ p.units) : u.applyOutcome = none := by
  cases houtcome : u.applyOutcome with
  | none => rfl
  | some outcome =>
    have haccepted := (h.supported u hu (by simp [houtcome])).1
    rw [h.undecided hopen u hu] at haccepted
    cases haccepted

theorem Sound.moved (h : p.Sound) {allowed : List ReviewStatus} {target : ReviewStatus}
    (hmoves : Moves allowed target) (hfrom : p.reviewStatus ∈ allowed) :
    (p.moved target).Sound := by
  refine ⟨h.components, h.unitGids, fun hopen => ?_, h.closed, h.supported, h.applied⟩
  rcases hmoves with ⟨rfl, rfl⟩ | ⟨rfl, rfl | rfl⟩ | ⟨rfl, rfl⟩
  · have hdraft : p.reviewStatus = .draft := by simpa using hfrom
    exact h.undecided (by simp [hdraft, undecidedStatuses])
  · simp [Proposal.moved, undecidedStatuses] at hopen
  · simp [Proposal.moved, undecidedStatuses] at hopen
  · simp [Proposal.moved, undecidedStatuses] at hopen

theorem reviewedStatus_decided (values : List (Option Decision)) :
    reviewedStatus values ∉ undecidedStatuses := by
  unfold reviewedStatus
  split_ifs <;> simp [undecidedStatuses]

theorem Sound.reviewed (h : p.Sound) {decisions : List (Gid × Str)}
    (hfrom : p.reviewStatus ∈ [ReviewStatus.submitted, .reviewing])
    (hclosed : ∀ u ∈ p.units, combined decisions u = some .accepted →
      ∀ dep ∈ u.dependencies, p.combinedAt decisions dep = some .accepted) :
    (p.reviewed decisions).Sound := by
  have hopen : p.reviewStatus ∈ undecidedStatuses := by
    simp only [List.mem_cons, List.not_mem_nil, or_false] at hfrom
    rcases hfrom with hfrom | hfrom <;> simp [hfrom, undecidedStatuses]
  have hunit : ∀ u ∈ (p.reviewed decisions).units,
      ∃ v ∈ p.units, u = { v with reviewDecision := combined decisions v } := by
    intro u hu
    obtain ⟨v, hv, rfl⟩ := List.mem_map.mp hu
    exact ⟨v, hv, rfl⟩
  have hnone : ∀ u ∈ (p.reviewed decisions).units, u.applyOutcome = none := by
    intro u hu
    obtain ⟨v, hv, rfl⟩ := hunit u hu
    show v.applyOutcome = none
    exact h.no_outcome hopen hv
  refine ⟨?_, ?_, fun hin => absurd hin (reviewedStatus_decided _), ?_, ?_, ?_⟩
  · simpa [Proposal.reviewed, Function.comp_def] using h.components
  · simpa [Proposal.reviewed, Function.comp_def] using h.unitGids
  · intro u hu haccepted dep hdep
    obtain ⟨v, hv, rfl⟩ := hunit u hu
    obtain ⟨x, hx, hgid, hacc⟩ := combinedAt_accepted (hclosed v hv haccepted dep hdep)
    exact ⟨_, List.mem_map_of_mem hx, hgid, hacc⟩
  · intro u hu houtcome
    simp [hnone u hu] at houtcome
  · refine iff_of_false (h.not_applied hopen) ?_
    rintro ⟨⟨u, hu, haccepted⟩, hall⟩
    have hsome := hall u hu haccepted
    simp [hnone u hu] at hsome

/-- What `settled` writes agrees with the outcomes, where something is accepted. -/
theorem appliedExactly_settled (h : ∃ u ∈ p.units, u.reviewDecision = some .accepted) :
    p.settled.AppliedExactly := by
  have hiff : p.settled.applyStatus = .applied ↔
      ∀ u ∈ p.units, u.reviewDecision = some .accepted → u.applyOutcome.isSome := by
    unfold settled
    dsimp only
    split_ifs with hall
    · exact iff_of_true rfl hall
    · exact iff_of_false (by decide) hall
  exact hiff.trans ⟨fun hall => ⟨h, hall⟩, And.right⟩

theorem Sound.settled (h : p.Sound) (haccepted : ∃ u ∈ p.units, u.reviewDecision = some .accepted) :
    p.settled.Sound :=
  ⟨h.components, h.unitGids, h.undecided, h.closed, h.supported, appliedExactly_settled haccepted⟩

theorem mem_recorded {gid : Gid} {outcome : ApplyOutcome} {u : ProposalUnit} :
    u ∈ (p.recorded gid outcome).units ↔ ∃ v ∈ p.units,
      u = if v.unitGid = gid then { v with applyOutcome := some outcome } else v := by
  unfold recorded Rows.update
  simp only [List.mem_map, beq_iff_eq]
  exact exists_congr fun v => and_congr_right fun _ => eq_comm

theorem Sound.recorded (h : p.Sound) {unit : ProposalUnit} {outcome : ApplyOutcome}
    (hunit : unit ∈ p.units)
    (hfrom : p.reviewStatus ∈ [ReviewStatus.accepted, .partiallyAccepted])
    (haccepted : unit.reviewDecision = some .accepted)
    (hdeps : ∀ dep ∈ unit.dependencies, (p.outcomeOf dep).isSome) :
    (p.recorded unit.unitGid outcome).settled.Sound := by
  -- every unit keeps all but its outcome, and no outcome is lost
  have hkept : ∀ v ∈ p.units, ∃ u ∈ (p.recorded unit.unitGid outcome).units,
      u.componentGid = v.componentGid ∧ u.reviewDecision = v.reviewDecision ∧
        (v.applyOutcome.isSome → u.applyOutcome.isSome) := by
    intro v hv
    refine ⟨_, mem_recorded.mpr ⟨v, hv, rfl⟩, ?_⟩
    split_ifs <;> simp
  have hunchanged : ∀ u ∈ (p.recorded unit.unitGid outcome).units, ∃ v ∈ p.units,
      u.componentGid = v.componentGid ∧ u.reviewDecision = v.reviewDecision ∧
        u.dependencies = v.dependencies ∧ (u.applyOutcome.isSome → v = unit ∨ v.applyOutcome.isSome) := by
    intro u hu
    obtain ⟨v, hv, rfl⟩ := mem_recorded.mp hu
    refine ⟨v, hv, ?_⟩
    split_ifs with hgid
    · exact ⟨rfl, rfl, rfl, fun _ => Or.inl (List.inj_on_of_nodup_map h.unitGids hv hunit hgid)⟩
    · exact ⟨rfl, rfl, rfl, Or.inr⟩
  have hclosed : (p.recorded unit.unitGid outcome).DecisionsClosed := by
    intro u hu hacc dep hdep
    obtain ⟨v, hv, -, hdecision, hdependencies, -⟩ := hunchanged u hu
    obtain ⟨x, hx, hgid, hxacc⟩ := h.closed v hv (hdecision ▸ hacc) dep (hdependencies ▸ hdep)
    obtain ⟨y, hy, hygid, hydecision, -⟩ := hkept x hx
    exact ⟨y, hy, hygid.trans hgid, hydecision.trans hxacc⟩
  have hsupported : (p.recorded unit.unitGid outcome).OutcomesSupported := by
    intro u hu houtcome
    obtain ⟨v, hv, -, hdecision, hdependencies, hcases⟩ := hunchanged u hu
    have hbefore : v.reviewDecision = some .accepted ∧
        ∀ dep ∈ v.dependencies, ∃ x ∈ p.units, x.componentGid = dep ∧ x.applyOutcome.isSome := by
      rcases hcases houtcome with rfl | hsome
      · exact ⟨haccepted, fun dep hdep => outcomeOf_isSome (hdeps dep hdep)⟩
      · exact h.supported v hv hsome
    refine ⟨hdecision.trans hbefore.1, fun dep hdep => ?_⟩
    obtain ⟨x, hx, hgid, hsome⟩ := hbefore.2 dep (hdependencies ▸ hdep)
    obtain ⟨y, hy, hygid, -, hysome⟩ := hkept x hx
    exact ⟨y, hy, hygid.trans hgid, hysome hsome⟩
  have hsame : ∀ {β : Type} (f : ProposalUnit → β),
      (∀ v o, f { v with applyOutcome := o } = f v) →
      (p.recorded unit.unitGid outcome).units.map f = p.units.map f := by
    intro β f hf
    unfold Proposal.recorded Rows.update
    rw [List.map_map]
    refine List.map_congr_left fun v _ => ?_
    rw [Function.comp_apply]
    split_ifs
    · exact hf v _
    · rfl
  refine ⟨?_, ?_, fun hopen => ?_, hclosed, hsupported, appliedExactly_settled ?_⟩
  · show ((p.recorded unit.unitGid outcome).units.map _).Nodup
    rw [hsame (·.componentGid) fun _ _ => rfl]
    exact h.components
  · show ((p.recorded unit.unitGid outcome).units.map _).Nodup
    rw [hsame (·.unitGid) fun _ _ => rfl]
    exact h.unitGids
  · have hstatus : p.reviewStatus ∈ undecidedStatuses := hopen
    simp only [List.mem_cons, List.not_mem_nil, or_false] at hfrom
    rcases hfrom with hfrom | hfrom <;> simp [hfrom, undecidedStatuses] at hstatus
  · obtain ⟨y, hy, -, hdecision, -⟩ := hkept unit hunit
    exact ⟨y, hy, hdecision.trans haccepted⟩

/-- **One change** keeps a proposal sound. -/
theorem Sound.change (h : p.Sound) (hchange : Change p q) : q.Sound := by
  cases hchange with
  | moved allowed target hmoves hfrom => exact h.moved hmoves hfrom
  | reviewed decisions hfrom hclosed => exact h.reviewed hfrom hclosed
  | repeated unit hunit hfrom haccepted houtcome => exact h.settled ⟨unit, hunit, haccepted⟩
  | applied unit outcome hunit hfrom haccepted hnew hdeps =>
    exact h.recorded hunit hfrom haccepted hdeps

theorem Change.gid (h : Change p q) : q.gid = p.gid := by
  cases h <;> rfl

theorem Change.repositoryGid (h : Change p q) : q.repositoryGid = p.repositoryGid := by
  cases h <;> rfl

/-- **A terminal proposal** changes only where it is applied and its review status is still an
accepted one: it is superseded, or a component is applied once more. -/
theorem Sound.terminal_change (h : p.Sound) (hterminal : p.isTerminal = true)
    (hchange : Change p q) : p.applyStatus = .applied ∧
      p.reviewStatus ∈ [ReviewStatus.accepted, .partiallyAccepted] ∧
      (q = p.moved .superseded ∨ q = p.settled) := by
  have hcases : p.applyStatus = .applied ∨ p.reviewStatus ∈ ReviewStatus.terminal := by
    simpa [isTerminal] using hterminal
  have hdecided : p.reviewStatus ∉ undecidedStatuses := by
    intro hopen
    rcases hcases with happlied | hstatus
    · exact h.not_applied hopen happlied
    · simp only [undecidedStatuses, ReviewStatus.terminal, List.mem_cons, List.not_mem_nil,
        or_false] at hopen hstatus
      rcases hopen with hopen | hopen | hopen <;> simp [hopen] at hstatus
  have happlied : p.reviewStatus ∈ [ReviewStatus.accepted, .partiallyAccepted] →
      p.applyStatus = .applied := by
    intro hstatus
    refine hcases.resolve_right fun hterm => ?_
    simp only [ReviewStatus.terminal, List.mem_cons, List.not_mem_nil, or_false] at hstatus hterm
    rcases hstatus with hstatus | hstatus <;> simp [hstatus] at hterm
  cases hchange with
  | moved allowed target hmoves hfrom =>
    rcases hmoves with ⟨rfl, rfl⟩ | ⟨rfl, -⟩ | ⟨rfl, rfl⟩
    · have hdraft : p.reviewStatus = .draft := by simpa using hfrom
      exact absurd (by simp [hdraft, undecidedStatuses]) hdecided
    · exact absurd hfrom hdecided
    · have hstatus := (List.mem_append.mp hfrom).resolve_left hdecided
      exact ⟨happlied hstatus, hstatus, Or.inl rfl⟩
  | reviewed decisions hfrom _ =>
    refine absurd ?_ hdecided
    simp only [List.mem_cons, List.not_mem_nil, or_false] at hfrom
    rcases hfrom with hfrom | hfrom <;> simp [hfrom, undecidedStatuses]
  | repeated unit _ hfrom _ _ => exact ⟨happlied hfrom, hfrom, Or.inr rfl⟩
  | applied unit outcome hunit hfrom haccepted hnew _ =>
    have hsome := (h.applied.mp (happlied hfrom)).2 unit hunit haccepted
    simp [hnew] at hsome

end Proposal

/-! ## New proposals -/

theorem map_componentGid_diffComponents (base ours theirs : List Member) (keys : List MemberKey)
    (gid : Gid) : ((diffComponents base ours theirs keys gid).map Component.componentGid).Nodup ∧
      ∀ c ∈ diffComponents base ours theirs keys gid, gid ≤ c.componentGid := by
  induction keys generalizing gid with
  | nil => exact ⟨List.nodup_nil, by simp [diffComponents]⟩
  | cons key keys ih =>
    rw [diffComponents]
    split_ifs with hsame
    · exact ih gid
    · obtain ⟨hnodup, hle⟩ := ih (gid + 1)
      constructor
      · rw [List.map_cons, List.nodup_cons]
        refine ⟨fun hin => ?_, hnodup⟩
        obtain ⟨c, hc, hgid⟩ := List.mem_map.mp hin
        exact absurd hgid (ne_of_gt (hle c hc))
      · intro c hc
        rcases List.mem_cons.mp hc with rfl | hc
        · exact le_rfl
        · exact le_trans (Nat.le_succ gid) (hle c hc)

theorem map_componentGid_withDependencies (t : Store) (components : List Component) :
    (withDependencies t components).map Component.componentGid
      = components.map Component.componentGid := by
  unfold withDependencies
  rw [List.map_map]
  rfl

theorem resolveComponents_nodup {t : Store} {repository space version base actor gid : Gid}
    {components : List Component}
    (h : resolveComponents t repository space version base actor gid = .ok components) :
    (components.map Component.componentGid).Nodup := by
  unfold resolveComponents at h
  obtain ⟨u, -, h⟩ := bind_eq_ok.mp h
  dsimp only at h
  split at h
  · cases h
  · cases h
    rw [map_componentGid_withDependencies]
    exact (map_componentGid_diffComponents _ _ _ _ _).1

theorem unitsOf_fresh (components : List Component) (gid : Gid) :
    (CraftWorld.unitsOf components gid).map (·.componentGid) = components.map Component.componentGid ∧
      ((CraftWorld.unitsOf components gid).map (·.unitGid)).Nodup ∧
      ∀ u ∈ CraftWorld.unitsOf components gid,
        gid ≤ u.unitGid ∧ u.reviewDecision = none ∧ u.applyOutcome = none := by
  induction components generalizing gid with
  | nil => exact ⟨rfl, List.nodup_nil, by simp [CraftWorld.unitsOf]⟩
  | cons c components ih =>
    obtain ⟨hgids, hnodup, hunits⟩ := ih (if c.payload.conflict then gid + 2 else gid + 1)
    have hlater : ∀ u ∈ CraftWorld.unitsOf components (if c.payload.conflict then gid + 2
        else gid + 1), gid < u.unitGid := by
      intro u hu
      refine lt_of_lt_of_le ?_ (hunits u hu).1
      split_ifs
      · exact Nat.lt_add_of_pos_right (by decide)
      · exact Nat.lt_succ_self gid
    rw [CraftWorld.unitsOf]
    refine ⟨?_, ?_, ?_⟩
    · rw [List.map_cons, List.map_cons, hgids]
    · rw [List.map_cons, List.nodup_cons]
      refine ⟨fun hin => ?_, hnodup⟩
      obtain ⟨u, hu, hgid⟩ := List.mem_map.mp hin
      exact absurd hgid (ne_of_gt (hlater u hu))
    · intro u hu
      rcases List.mem_cons.mp hu with rfl | hu
      · exact ⟨le_rfl, rfl, rfl⟩
      · exact ⟨le_of_lt (hlater u hu), (hunits u hu).2⟩

theorem Proposal.sound_of_new {p : Proposal} (hstatus : p.applyStatus = .notStarted)
    (hcomponents : (p.units.map (·.componentGid)).Nodup)
    (hunitGids : (p.units.map (·.unitGid)).Nodup)
    (hnew : ∀ u ∈ p.units, u.reviewDecision = none ∧ u.applyOutcome = none) : p.Sound := by
  refine ⟨hcomponents, hunitGids, fun _ u hu => (hnew u hu).1, ?_, ?_, ?_⟩
  · intro u hu haccepted
    rw [(hnew u hu).1] at haccepted
    cases haccepted
  · intro u hu houtcome
    rw [(hnew u hu).2] at houtcome
    cases houtcome
  · refine iff_of_false (by simp [hstatus]) ?_
    rintro ⟨⟨u, hu, haccepted⟩, -⟩
    rw [(hnew u hu).1] at haccepted
    cases haccepted

/-! ## One call -/

namespace ProposalCall

/-- `operation_kind`. -/
def kind : ProposalCall → Str
  | .createProposal .. => "proposal.create".toList
  | .submit _ => "proposal.submitted".toList
  | .withdraw _ => "proposal.withdrawn".toList
  | .cancel _ => "proposal.cancelled".toList
  | .supersede _ => "proposal.superseded".toList
  | .review .. => "proposal.review".toList
  | .applyComponent .. => "proposal.apply".toList

def request : ProposalCall → Json
  | .createProposal repository space version base =>
    .obj [("personal_space_gid".toList, gidJson space),
      ("personal_version_gid".toList, gidJson version),
      ("repository_gid".toList, gidJson repository),
      ("team_base_version_gid".toList, gidJson base)]
  | .submit gid => .obj [("proposal_gid".toList, gidJson gid),
      ("target".toList, .str ReviewStatus.submitted.text)]
  | .withdraw gid => .obj [("proposal_gid".toList, gidJson gid),
      ("target".toList, .str ReviewStatus.withdrawn.text)]
  | .cancel gid => .obj [("proposal_gid".toList, gidJson gid),
      ("target".toList, .str ReviewStatus.cancelled.text)]
  | .supersede gid => .obj [("proposal_gid".toList, gidJson gid),
      ("target".toList, .str ReviewStatus.superseded.text)]
  | .review gid decisions =>
    .obj [("decisions".toList, .obj (decisions.map (fun d => (gidText d.1, .str d.2)))),
      ("proposal_gid".toList, gidJson gid)]
  | .applyComponent gid componentGid => .obj [("component_gid".toList, gidJson componentGid),
      ("proposal_gid".toList, gidJson gid)]

/-- The proposal a call is about; a new one has none yet. -/
def target : ProposalCall → Option Gid
  | .createProposal .. => none
  | .submit gid => some gid
  | .withdraw gid => some gid
  | .cancel gid => some gid
  | .supersede gid => some gid
  | .review gid _ => some gid
  | .applyComponent gid _ => some gid

/-- What a call does between `_begin` and `_complete`; `gid` is for a new proposal. -/
def body (hash : Json → Str) (actorGid gid : Gid) :
    ProposalCall → CraftWorld → Except ProposalError (Outcome × CraftWorld)
  | .createProposal repository space version base =>
    CraftWorld.createProposalBody hash actorGid gid repository space version base
  | .submit gid => CraftWorld.statusBody gid [.draft] .submitted
  | .withdraw gid => CraftWorld.statusBody gid [.draft, .submitted, .reviewing] .withdrawn
  | .cancel gid => CraftWorld.statusBody gid [.draft, .submitted, .reviewing] .cancelled
  | .supersede gid => CraftWorld.statusBody gid
      [.draft, .submitted, .reviewing, .accepted, .partiallyAccepted] .superseded
  | .review gid decisions => CraftWorld.reviewBody gid decisions
  | .applyComponent gid componentGid => CraftWorld.applyComponentBody hash gid componentGid

end ProposalCall

namespace CraftWorld

variable {hash : Json → Str} {w w' : CraftWorld} {caller : Caller} {c : ProposalCall}
  {outcome : Outcome}

/-- A new proposal's gid is drawn before the ledger is looked at. -/
def drawn (w : CraftWorld) : ProposalCall → CraftWorld
  | .createProposal .. => { w with issued := w.issued + 1 }
  | _ => w

@[simp] theorem drawn_db (w : CraftWorld) (c : ProposalCall) : (w.drawn c).db = w.db := by
  cases c <;> rfl

theorem issued_drawn (w : CraftWorld) (c : ProposalCall) : w.issued ≤ (w.drawn c).issued := by
  cases c with
  | createProposal repository space version base => exact Nat.le_succ _
  | _ => exact le_rfl

/-- The caller's tenant owns the proposal. -/
def Permits (w : CraftWorld) (caller : Caller) (c : ProposalCall) : Prop :=
  ∀ gid, c.target = some gid → w.owns gid caller.tenantGid = true

theorem authorize_bind {α : Type} {gid tenantGid : Gid} {x : Except ProposalError α} {r : α} :
    (do w.authorize gid tenantGid; x) = .ok r ↔ w.owns gid tenantGid = true ∧ x = .ok r := by
  rw [bind_eq_ok]
  constructor
  · rintro ⟨u, hu, hx⟩
    exact ⟨orRaise_eq_ok.mp hu, hx⟩
  · rintro ⟨howns, hx⟩
    exact ⟨(), orRaise_eq_ok.mpr howns, hx⟩

/-- **A call that returns** is permitted and goes through the ledger. -/
theorem call_eq_ok {r : Outcome × CraftWorld} : call hash w caller c = .ok r ↔ w.Permits caller c ∧
    ledgered hash (w.drawn c) caller c.kind c.request (c.body hash caller.actorGid (w.issued + 1))
      = .ok r := by
  have hone : ∀ gid, c.target = some gid → (w.Permits caller c ↔ w.owns gid caller.tenantGid = true) := by
    intro gid hgid
    constructor
    · exact fun h => h gid hgid
    · intro h other hother
      rw [hgid] at hother
      cases hother
      exact h
  cases c with
  | createProposal repository space version base =>
    refine Iff.symm (and_iff_right_of_imp fun _ gid hgid => ?_)
    cases hgid
  | submit gid => exact authorize_bind.trans (and_congr_left' (hone gid rfl).symm)
  | withdraw gid =>
    have hok : withdraw hash w caller gid = .ok r ↔
        status hash w caller gid [.draft, .submitted, .reviewing] .withdrawn = .ok r := by
      unfold withdraw
      split
      · rename_i heq
        simp [heq]
      · exact Iff.rfl
    exact hok.trans (authorize_bind.trans (and_congr_left' (hone gid rfl).symm))
  | cancel gid => exact authorize_bind.trans (and_congr_left' (hone gid rfl).symm)
  | supersede gid => exact authorize_bind.trans (and_congr_left' (hone gid rfl).symm)
  | review gid decisions => exact authorize_bind.trans (and_congr_left' (hone gid rfl).symm)
  | applyComponent gid componentGid =>
    exact authorize_bind.trans (and_congr_left' (hone gid rfl).symm)

def onRecord (w : CraftWorld) (caller : Caller) (c : ProposalCall) : Option LedgerRow :=
  w.record? caller.tenantGid c.kind caller.idempotencyKey

/-- The world in which a call that is not on record does its work. -/
def opened (hash : Json → Str) (w : CraftWorld) (caller : Caller) (c : ProposalCall) : CraftWorld :=
  (w.drawn c).running hash caller.tenantGid c.kind caller.idempotencyKey c.request

theorem record?_drawn (w : CraftWorld) (c : ProposalCall) (tenantGid : Gid) (kind key : Str) :
    (w.drawn c).record? tenantGid kind key = w.record? tenantGid kind key := by
  unfold record?
  rw [drawn_db]

end CraftWorld

/-! ## What a call writes -/

def ProposalCall.Admits (p : Proposal) : ProposalCall → Prop
  | .createProposal .. => False
  | .submit _ => p.reviewStatus ∈ [ReviewStatus.draft]
  | .withdraw _ => p.reviewStatus ∈ Proposal.undecidedStatuses
  | .cancel _ => p.reviewStatus ∈ Proposal.undecidedStatuses
  | .supersede _ => True
  | .review .. => p.reviewStatus ∈ [ReviewStatus.submitted, .reviewing]
  | .applyComponent _ componentGid =>
    ∃ u ∈ p.units, u.componentGid = componentGid ∧ u.reviewDecision = some .accepted

namespace CraftWorld

/-- What is written outside the proposals. -/
structure Frame (w v : CraftWorld) : Prop where
  ledger : v.db.ledger = w.db.ledger
  repositories : v.db.repositories = w.db.repositories
  issued : w.issued ≤ v.issued

/-- What a call that is not on record does to the proposals; `gid` is for a new one. -/
inductive Writes (w v : CraftWorld) (c : ProposalCall) (gid : Gid) : Prop
  | added (p : Proposal) (hgid : p.gid = gid) (hsound : p.Sound)
      (h : v.db.proposals = w.db.proposals ++ [p])
  | changed (p : Proposal) (f : Proposal → Proposal) (htarget : c.target = some p.gid)
      (hp : w.load p.gid = .ok p) (hadmits : c.Admits p) (hchange : Proposal.Change p (f p))
      (h : v.db.proposals = Rows.update (·.gid == p.gid) f w.db.proposals)

section

variable {hash : Json → Str} {w v : CraftWorld} {gid : Gid} {outcome : Outcome} {p : Proposal}

theorem load_eq_ok : w.load gid = .ok p ↔ w.db.proposals.find? (·.gid == gid) = some p := by
  unfold load
  cases w.db.proposals.find? (·.gid == gid) with
  | none => exact iff_of_false (fun h => by cases h) (fun h => by cases h)
  | some q =>
    constructor
    · intro h
      cases h
      rfl
    · intro h
      cases h
      rfl

theorem gid_of_load (h : w.load gid = .ok p) : p.gid = gid := by
  simpa using List.find?_some (load_eq_ok.mp h)

theorem mem_of_load (h : w.load gid = .ok p) : p ∈ w.db.proposals :=
  List.mem_of_find?_eq_some (load_eq_ok.mp h)

theorem view_eq_ok (h : w.view gid = .ok (outcome, v)) : v = w := by
  obtain ⟨p, -, h⟩ := bind_eq_ok.mp h
  cases h
  rfl

theorem createProposalBody_writes {c : ProposalCall} {actor repository space version base : Gid}
    (h : createProposalBody hash actor gid repository space version base w = .ok (outcome, v)) :
    Frame w v ∧ Writes w v c gid := by
  unfold createProposalBody at h
  dsimp only at h
  obtain ⟨components, hcomponents, h⟩ := bind_eq_ok.mp h
  rw [view_eq_ok h]
  obtain ⟨hgids, hunitGids, hnew⟩ :=
    unitsOf_fresh components (w.issued + 1 + components.length)
  have hnodup := resolveComponents_nodup hcomponents
  rw [← hgids] at hnodup
  refine ⟨⟨rfl, rfl, ?_⟩, .added _ rfl ?_ rfl⟩
  · exact le_trans (Nat.le_succ _) (Nat.le_add_right _ _)
  · exact Proposal.sound_of_new rfl hnodup hunitGids fun u hu => (hnew u hu).2

theorem statusBody_writes {c : ProposalCall} {allowed : List ReviewStatus} {target : ReviewStatus}
    {fresh : Gid} (hmoves : Proposal.Moves allowed target) (htarget : c.target = some gid)
    (hadmits : ∀ p : Proposal, p.reviewStatus ∈ allowed → c.Admits p)
    (h : statusBody gid allowed target w = .ok (outcome, v)) : Frame w v ∧ Writes w v c fresh := by
  obtain ⟨p, hp, h⟩ := bind_eq_ok.mp h
  obtain ⟨u, hu, h⟩ := bind_eq_ok.mp h
  have hfrom := orRaise_eq_ok.mp hu
  rw [view_eq_ok h]
  obtain rfl := gid_of_load hp
  exact ⟨⟨rfl, rfl, le_rfl⟩, .changed p _ htarget hp (hadmits p hfrom) (.moved allowed target hmoves hfrom) rfl⟩

theorem reviewBody_writes {decisions : List (Gid × Str)} {fresh : Gid}
    (h : reviewBody gid decisions w = .ok (outcome, v)) :
    Frame w v ∧ Writes w v (.review gid decisions) fresh := by
  obtain ⟨p, hp, h⟩ := bind_eq_ok.mp h
  obtain ⟨u, hu, h⟩ := bind_eq_ok.mp h
  obtain ⟨u', -, h⟩ := bind_eq_ok.mp h
  obtain ⟨u'', hclosed, h⟩ := bind_eq_ok.mp h
  have hfrom := orRaise_eq_ok.mp hu
  rw [view_eq_ok h]
  obtain rfl := gid_of_load hp
  exact ⟨⟨rfl, rfl, le_rfl⟩, .changed p _ rfl hp hfrom (.reviewed decisions hfrom (orRaise_eq_ok.mp hclosed)) rfl⟩

theorem applyUnit_eq_ok {unit : ProposalUnit} (h : applyUnit hash w p unit = .ok v) :
    Frame w v ∧ ∃ outcome, v.db.proposals
      = Rows.update (·.gid == p.gid) (Proposal.recorded unit.unitGid outcome) w.db.proposals := by
  unfold applyUnit at h
  split at h
  · cases h
  · obtain ⟨u, -, h⟩ := bind_eq_ok.mp h
    cases h
    exact ⟨⟨rfl, rfl, le_rfl⟩, _, rfl⟩

theorem applyComponentBody_writes {componentGid fresh : Gid}
    (h : applyComponentBody hash gid componentGid w = .ok (outcome, v)) :
    Frame w v ∧ Writes w v (.applyComponent gid componentGid) fresh := by
  obtain ⟨p, hp, h⟩ := bind_eq_ok.mp h
  dsimp only at h
  split at h
  · cases h
  · rename_i unit hfind
    obtain ⟨u, hstate, h⟩ := bind_eq_ok.mp h
    obtain ⟨u', hdeps, h⟩ := bind_eq_ok.mp h
    obtain ⟨hfrom, haccepted⟩ := orRaise_eq_ok.mp hstate
    have hunit := List.mem_of_find?_eq_some hfind
    have hgid : unit.componentGid = componentGid := by simpa using List.find?_some hfind
    have hadmits : (ProposalCall.applyComponent gid componentGid).Admits p :=
      ⟨unit, hunit, hgid, haccepted⟩
    obtain rfl := gid_of_load hp
    by_cases hnew : unit.applyOutcome.isNone = true
    · rw [if_pos hnew] at h
      obtain ⟨w₁, happly, h⟩ := bind_eq_ok.mp h
      rw [view_eq_ok h]
      obtain ⟨hframe, applied, hproposals⟩ := applyUnit_eq_ok happly
      have hchange := Proposal.Change.applied unit applied hunit hfrom haccepted
        (Option.isNone_iff_eq_none.mp hnew) (orRaise_eq_ok.mp hdeps)
      refine ⟨⟨hframe.ledger, hframe.repositories, hframe.issued⟩,
        .changed p (Proposal.settled ∘ Proposal.recorded unit.unitGid applied) rfl hp hadmits hchange ?_⟩
      show Rows.update _ _ w₁.db.proposals = _
      rw [hproposals, Rows.update_update]
      exact fun _ h => h
    · rw [if_neg hnew] at h
      obtain ⟨w₁, happly, h⟩ := bind_eq_ok.mp h
      cases happly
      rw [view_eq_ok h]
      have hsome : unit.applyOutcome.isSome := by
        simpa [Option.isSome_iff_ne_none] using hnew
      exact ⟨⟨rfl, rfl, le_rfl⟩, .changed p _ rfl hp hadmits (.repeated unit hunit hfrom haccepted hsome) rfl⟩

/-- **What a call writes** that is not on record. -/
theorem body_writes {actor : Gid} {c : ProposalCall}
    (h : c.body hash actor gid w = .ok (outcome, v)) : Frame w v ∧ Writes w v c gid := by
  cases c with
  | createProposal repository space version base => exact createProposalBody_writes h
  | submit target =>
    exact statusBody_writes (Or.inl ⟨rfl, rfl⟩) rfl (fun _ hfrom => hfrom) h
  | withdraw target =>
    exact statusBody_writes (Or.inr (Or.inl ⟨rfl, Or.inl rfl⟩)) rfl (fun _ hfrom => hfrom) h
  | cancel target =>
    exact statusBody_writes (Or.inr (Or.inl ⟨rfl, Or.inr rfl⟩)) rfl (fun _ hfrom => hfrom) h
  | supersede target =>
    exact statusBody_writes (Or.inr (Or.inr ⟨rfl, rfl⟩)) rfl (fun _ _ => trivial) h
  | review target decisions => exact reviewBody_writes h
  | applyComponent target componentGid => exact applyComponentBody_writes h

end

/-! ## One transaction -/

structure Safe (w : CraftWorld) : Prop where
  gids : (w.db.proposals.map Proposal.gid).Nodup
  issuedGids : ∀ p ∈ w.db.proposals, p.gid ≤ w.issued
  sound : ∀ p ∈ w.db.proposals, p.Sound
  ledger : w.LedgerSafe

/-- What a call has done that was not on record. -/
structure Executed (hash : Json → Str) (w w' : CraftWorld) (caller : Caller) (c : ProposalCall)
    (outcome : Outcome) : Prop where
  proposals : Writes w w' c (w.issued + 1)
  repositories : w'.db.repositories = w.db.repositories
  issued : w.issued < w'.issued
  ledger : ∃ row : LedgerRow, w'.db.ledger = w.db.ledger ++ [row] ∧ row.gid ≤ w'.issued ∧
    row.isFor caller.tenantGid c.kind caller.idempotencyKey = true ∧
    row.requestHash = (hash c.request).drop 7 ∧ row.outcome = some outcome

section

variable {hash : Json → Str} {w w' : CraftWorld} {caller : Caller} {c : ProposalCall}
  {outcome : Outcome}

/-- **A call that returns** was on record, or has done its work and is on record now. -/
theorem call_cases (hsafe : w.Safe) (h : call hash w caller c = .ok (outcome, w')) :
    (∃ row, w.onRecord caller c = some row ∧ row.requestHash = (hash c.request).drop 7 ∧
      row.outcome = some outcome ∧ w' = w.drawn c) ∨
    (w.onRecord caller c = none ∧ Executed hash w w' caller c outcome) := by
  have hledgered := (call_eq_ok.mp h).2
  have hdrawn : (w.drawn c).LedgerSafe := hsafe.ledger.same (by rw [drawn_db]) (issued_drawn w c)
  rcases ledgered_cases hdrawn hledgered with ⟨row, hrecord, hhash, houtcome, rfl⟩ | ⟨hrecord, v, hbody, hw'⟩
  · rw [record?_drawn] at hrecord
    exact Or.inl ⟨row, hrecord, hhash, houtcome, rfl⟩
  · rw [record?_drawn] at hrecord
    obtain ⟨hframe, hwrites⟩ := body_writes hbody
    have hdb : (w.opened hash caller c).db.proposals = w.db.proposals ∧
        (w.opened hash caller c).db.repositories = w.db.repositories := by
      unfold opened running
      rw [drawn_db]
      exact ⟨rfl, rfl⟩
    have hissued : (w.drawn c).issued + 1 ≤ v.issued := hframe.issued
    refine Or.inr ⟨hrecord, ?_, ?_, ?_, ?_⟩
    · rw [hw']
      cases hwrites with
      | added p hgid hsound h => exact .added p hgid hsound (hdb.1 ▸ h)
      | changed p f htarget hp hadmits hchange h =>
        refine .changed p f htarget ?_ hadmits hchange (hdb.1 ▸ h)
        rw [load_eq_ok] at hp ⊢
        rw [← hdb.1]
        exact hp
    · rw [hw']
      exact hframe.repositories.trans hdb.2
    · rw [hw']
      exact lt_of_le_of_lt (issued_drawn w c) hissued
    · refine ⟨completedRow hash (w.drawn c) caller.tenantGid c.kind caller.idempotencyKey c.request
        outcome, ?_, ?_, ?_, rfl, rfl⟩
      · rw [hw', ledger_complete hdrawn hframe.ledger, drawn_db]
      · rw [hw']
        exact hissued
      · simp [LedgerRow.isFor, completedRow, runningRow]

theorem mem_update_proposal {proposals : List Proposal} {p q : Proposal} {f : Proposal → Proposal}
    (hgids : (proposals.map Proposal.gid).Nodup) (hp : p ∈ proposals)
    (hq : q ∈ Rows.update (·.gid == p.gid) f proposals) : q = f p ∨ q ∈ proposals := by
  obtain ⟨r, hr, rfl⟩ := List.mem_map.mp hq
  split_ifs with hgid
  · rw [beq_iff_eq] at hgid
    rw [List.inj_on_of_nodup_map hgids hr hp hgid]
    exact Or.inl rfl
  · exact Or.inr hr

theorem map_gid_update {proposals : List Proposal} {p : Proposal} {f : Proposal → Proposal}
    (hgids : (proposals.map Proposal.gid).Nodup) (hp : p ∈ proposals) (hf : (f p).gid = p.gid) :
    (Rows.update (·.gid == p.gid) f proposals).map Proposal.gid = proposals.map Proposal.gid := by
  unfold Rows.update
  rw [List.map_map]
  refine List.map_congr_left fun r hr => ?_
  rw [Function.comp_apply]
  split_ifs with hgid
  · rw [beq_iff_eq] at hgid
    rw [List.inj_on_of_nodup_map hgids hr hp hgid, hf]
  · rfl

theorem Safe.executed (h : w.Safe) (hexec : Executed hash w w' caller c outcome) : w'.Safe := by
  obtain ⟨row, hledger, hrow, -, -, houtcome⟩ := hexec.ledger
  have hissued := le_of_lt hexec.issued
  have hsafe : w'.LedgerSafe := h.ledger.append hledger hissued hrow (by simp [houtcome])
  cases hexec.proposals with
  | added p hgid hsound hproposals =>
    have hnew : p.gid ∉ w.db.proposals.map Proposal.gid := by
      intro hin
      obtain ⟨q, hq, hqgid⟩ := List.mem_map.mp hin
      have hlt : q.gid < w.issued + 1 := Nat.lt_succ_of_le (h.issuedGids q hq)
      exact absurd (hqgid.trans hgid) (ne_of_lt hlt)
    refine ⟨?_, ?_, ?_, hsafe⟩
    · rw [hproposals]
      exact Rows.nodup_map_concat h.gids hnew
    · intro q hq
      rw [hproposals, List.mem_append, List.mem_singleton] at hq
      rcases hq with hq | rfl
      · exact le_trans (h.issuedGids q hq) hissued
      · rw [hgid]
        exact hexec.issued
    · intro q hq
      rw [hproposals, List.mem_append, List.mem_singleton] at hq
      rcases hq with hq | rfl
      · exact h.sound q hq
      · exact hsound
  | changed p f _ hp _ hchange hproposals =>
    have hin := mem_of_load hp
    refine ⟨?_, ?_, ?_, hsafe⟩
    · rw [hproposals, map_gid_update h.gids hin hchange.gid]
      exact h.gids
    · intro q hq
      rw [hproposals] at hq
      rcases mem_update_proposal h.gids hin hq with rfl | hq
      · rw [hchange.gid]
        exact le_trans (h.issuedGids p hin) hissued
      · exact le_trans (h.issuedGids q hq) hissued
    · intro q hq
      rw [hproposals] at hq
      rcases mem_update_proposal h.gids hin hq with rfl | hq
      · exact (h.sound p hin).change hchange
      · exact h.sound q hq

theorem Safe.drawn (h : w.Safe) (c : ProposalCall) : (w.drawn c).Safe := by
  have hissued := issued_drawn w c
  refine ⟨?_, ?_, ?_, h.ledger.same (by rw [drawn_db]) hissued⟩ <;> rw [drawn_db]
  · exact h.gids
  · exact fun p hp => le_trans (h.issuedGids p hp) hissued
  · exact h.sound

theorem Safe.call (h : w.Safe) (hcall : CraftWorld.call hash w caller c = .ok (outcome, w')) :
    w'.Safe := by
  rcases call_cases h hcall with ⟨row, -, -, -, rfl⟩ | ⟨-, hexec⟩
  · exact h.drawn c
  · exact h.executed hexec

theorem Safe.step (h : w.Safe) (c : Caller × ProposalCall) : (w.step hash c).Safe := by
  unfold CraftWorld.step
  split
  · rename_i hcall
    exact h.call hcall
  · exact h

theorem Safe.run (h : w.Safe) (calls : List (Caller × ProposalCall)) : (w.run hash calls).Safe := by
  induction calls generalizing w with
  | nil => exact h
  | cons c calls ih => exact ih (h.step c)

end

end CraftWorld

/-! ## Runs -/

namespace CraftWorld

/-- What no call takes away. -/
structure Extends (w v : CraftWorld) : Prop where
  repositories : v.db.repositories = w.db.repositories
  ledger : w.db.ledger <+: v.db.ledger
  proposals : ∀ p ∈ w.db.proposals,
    ∃ q ∈ v.db.proposals, q.gid = p.gid ∧ q.repositoryGid = p.repositoryGid

section

variable {hash : Json → Str} {w w' v : CraftWorld} {caller : Caller} {c : ProposalCall}
  {outcome : Outcome} {p : Proposal}

theorem Extends.refl (w : CraftWorld) : Extends w w :=
  ⟨rfl, List.prefix_refl _, fun p hp => ⟨p, hp, rfl, rfl⟩⟩

theorem Extends.trans (h : Extends w w') (h' : Extends w' v) : Extends w v := by
  refine ⟨h'.repositories.trans h.repositories, h.ledger.trans h'.ledger, fun p hp => ?_⟩
  obtain ⟨q, hq, hgid, hrepository⟩ := h.proposals p hp
  obtain ⟨r, hr, hrgid, hrrepository⟩ := h'.proposals q hq
  exact ⟨r, hr, hrgid.trans hgid, hrrepository.trans hrepository⟩

theorem Executed.extends (hsafe : w.Safe) (h : Executed hash w w' caller c outcome) :
    Extends w w' := by
  obtain ⟨row, hledger, -⟩ := h.ledger
  refine ⟨h.repositories, hledger ▸ List.prefix_append _ _, fun q hq => ?_⟩
  cases h.proposals with
  | added p _ _ hproposals =>
    exact ⟨q, hproposals ▸ List.mem_append_left _ hq, rfl, rfl⟩
  | changed p f _ hp _ hchange hproposals =>
    rw [hproposals]
    refine ⟨_, List.mem_map_of_mem hq, ?_⟩
    split_ifs with hgid
    · rw [beq_iff_eq] at hgid
      rw [List.inj_on_of_nodup_map hsafe.gids hq (mem_of_load hp) hgid]
      exact ⟨hchange.gid, hchange.repositoryGid⟩
    · exact ⟨rfl, rfl⟩

theorem extends_drawn (w : CraftWorld) (c : ProposalCall) : Extends w (w.drawn c) := by
  refine ⟨?_, ?_, ?_⟩ <;> rw [drawn_db]
  exact fun p hp => ⟨p, hp, rfl, rfl⟩

theorem Safe.call_extends (h : w.Safe) (hcall : CraftWorld.call hash w caller c = .ok (outcome, w')) :
    Extends w w' := by
  rcases call_cases h hcall with ⟨row, -, -, -, rfl⟩ | ⟨-, hexec⟩
  · exact extends_drawn w c
  · exact hexec.extends h

theorem Safe.step_extends (h : w.Safe) (c : Caller × ProposalCall) : Extends w (w.step hash c) := by
  unfold CraftWorld.step
  split
  · rename_i hcall
    exact h.call_extends hcall
  · exact Extends.refl w

theorem Safe.run_extends (h : w.Safe) (calls : List (Caller × ProposalCall)) : Extends w (w.run hash calls) := by
  induction calls generalizing w with
  | nil => exact Extends.refl w
  | cons c calls ih => exact (h.step_extends c).trans (ih (h.step c))

theorem Extends.owns (h : Extends w v) {gid tenantGid : Gid} (howns : w.owns gid tenantGid = true) :
    v.owns gid tenantGid = true := by
  unfold CraftWorld.owns at howns ⊢
  obtain ⟨p, hp, hboth⟩ := List.any_eq_true.mp howns
  obtain ⟨q, hq, hgid, hrepository⟩ := h.proposals p hp
  refine List.any_eq_true.mpr ⟨q, hq, ?_⟩
  rw [hgid, hrepository, h.repositories]
  exact hboth

theorem Extends.onRecord (h : Extends w v) {row : LedgerRow}
    (hrow : w.onRecord caller c = some row) : v.onRecord caller c = some row := by
  obtain ⟨more, hmore⟩ := h.ledger
  unfold CraftWorld.onRecord CraftWorld.record?
  rw [← hmore]
  exact Rows.find?_append_of_some hrow more

theorem recorded_of_call (hsafe : w.Safe) (h : CraftWorld.call hash w caller c = .ok (outcome, w')) :
    ∃ row, w'.onRecord caller c = some row ∧ row.requestHash = (hash c.request).drop 7 ∧
      row.outcome = some outcome := by
  rcases call_cases hsafe h with ⟨row, hrow, hhash, houtcome, rfl⟩ | ⟨hnone, hexec⟩
  · exact ⟨row, (extends_drawn w c).onRecord hrow, hhash, houtcome⟩
  · obtain ⟨row, hledger, -, hfor, hhash, houtcome⟩ := hexec.ledger
    refine ⟨row, ?_, hhash, houtcome⟩
    unfold CraftWorld.onRecord CraftWorld.record? at hnone ⊢
    rw [hledger]
    exact Rows.find?_append_self hfor hnone

/-- **A repeated call** returns what the first one did, and writes nothing. -/
theorem call_again (hsafe : w.Safe) (h : CraftWorld.call hash w caller c = .ok (outcome, w'))
    (more : List (Caller × ProposalCall)) :
    ∃ v, CraftWorld.call hash (w'.run hash more) caller c = .ok (outcome, v) ∧ v.db = (w'.run hash more).db := by
  have hlater : Extends w' (w'.run hash more) := (hsafe.call h).run_extends more
  obtain ⟨row, hrow, hhash, houtcome⟩ := recorded_of_call hsafe h
  refine ⟨(w'.run hash more).drawn c, call_eq_ok.mpr ⟨?_, ?_⟩, drawn_db _ _⟩
  · intro gid hgid
    exact hlater.owns ((hsafe.call_extends h).owns ((call_eq_ok.mp h).1 gid hgid))
  · have hrecord := hlater.onRecord hrow
    unfold CraftWorld.onRecord at hrecord
    rw [← record?_drawn _ c] at hrecord
    exact (ledgered_of_record hrecord houtcome).mpr ⟨hhash, rfl⟩

end

/-! ## Terminal proposals -/

/-- A call that goes through although the proposal is finished: all accepted components are
applied, and the call supersedes it or applies one of them under a new key. -/
def Reopens (w : CraftWorld) (p : Proposal) (c : Caller × ProposalCall) : Prop :=
  p.applyStatus = .applied ∧ p.reviewStatus ∈ [ReviewStatus.accepted, .partiallyAccepted] ∧
    w.owns p.gid c.1.tenantGid = true ∧ w.onRecord c.1 c.2 = none ∧ c.2.target = some p.gid ∧
    match c.2 with
    | .supersede _ => True
    | .applyComponent _ componentGid =>
      ∃ u ∈ p.units, u.componentGid = componentGid ∧ u.reviewDecision = some .accepted
    | _ => False

def Closed (hash : Json → Str) (w : CraftWorld) (p : Proposal) :
    List (Caller × ProposalCall) → Prop
  | [] => True
  | c :: calls => ¬ w.Reopens p c ∧ Closed hash (w.step hash c) p calls

section

variable {hash : Json → Str} {w w' : CraftWorld} {caller : Caller} {c : Caller × ProposalCall}
  {outcome : Outcome} {p : Proposal}

/-- A call that is let through by a finished proposal is one that reopens it. -/
theorem reopens_of_admits (hsafe : w.Safe) (hin : p ∈ w.db.proposals)
    (hterminal : p.isTerminal = true) {q : Proposal} (hchange : Proposal.Change p q)
    (hadmits : c.2.Admits p) (htarget : c.2.target = some p.gid) (hnew : w.onRecord c.1 c.2 = none)
    (hpermits : w.Permits c.1 c.2) : w.Reopens p c := by
  obtain ⟨happlied, hstatus, -⟩ := (hsafe.sound p hin).terminal_change hterminal hchange
  refine ⟨happlied, hstatus, hpermits p.gid htarget, hnew, htarget, ?_⟩
  have hdecided : p.reviewStatus ∉ Proposal.undecidedStatuses :=
    fun hopen => (hsafe.sound p hin).not_applied hopen happlied
  obtain ⟨caller, call⟩ := c
  cases call with
  | createProposal repository space version base => exact hadmits
  | submit gid =>
    have hdraft : p.reviewStatus = .draft := List.mem_singleton.mp hadmits
    exact absurd (by simp [hdraft, Proposal.undecidedStatuses]) hdecided
  | withdraw gid => exact absurd hadmits hdecided
  | cancel gid => exact absurd hadmits hdecided
  | supersede gid => trivial
  | review gid decisions =>
    refine absurd ?_ hdecided
    exact List.mem_cons_of_mem _ hadmits
  | applyComponent gid componentGid => exact hadmits

theorem Safe.load_of_mem (hsafe : w.Safe) (hp : p ∈ w.db.proposals) : w.load p.gid = .ok p :=
  load_eq_ok.mpr (KeyedRows.lookup_of_mem hsafe.gids hp)

/-- **One call at a terminal proposal** that does not reopen it leaves it as it is. -/
theorem Safe.step_terminal (hsafe : w.Safe) (hp : p ∈ w.db.proposals)
    (hterminal : p.isTerminal = true) (hclosed : ¬ w.Reopens p c) :
    p ∈ (w.step hash c).db.proposals := by
  unfold CraftWorld.step
  split
  · rename_i outcome v hcall
    rcases call_cases hsafe hcall with ⟨row, -, -, -, rfl⟩ | ⟨hnew, hexec⟩
    · rw [drawn_db]
      exact hp
    · cases hexec.proposals with
      | added q hgid hsound hproposals =>
        rw [hproposals]
        exact List.mem_append_left _ hp
      | changed q f htarget hq hadmits hchange hproposals =>
        rw [hproposals]
        refine Rows.mem_update_of_not hp (beq_eq_false_iff_ne.mpr fun hgid => hclosed ?_)
        obtain rfl : p = q := List.inj_on_of_nodup_map hsafe.gids hp (mem_of_load hq) hgid
        exact reopens_of_admits hsafe hp hterminal hchange hadmits htarget hnew
          (call_eq_ok.mp hcall).1
  · exact hp

/-- **A terminal proposal** stays as it is through calls that do not reopen it. -/
theorem Safe.run_terminal (hsafe : w.Safe) (hp : p ∈ w.db.proposals)
    (hterminal : p.isTerminal = true) {calls : List (Caller × ProposalCall)}
    (hclosed : Closed hash w p calls) : p ∈ (w.run hash calls).db.proposals := by
  induction calls generalizing w with
  | nil => exact hp
  | cons c calls ih =>
    exact ih (hsafe.step c) (hsafe.step_terminal hp hterminal hclosed.1) hclosed.2

theorem step_of_body {o : Outcome} {v : CraftWorld} (hpermits : w.Permits c.1 c.2)
    (hnew : w.onRecord c.1 c.2 = none)
    (hbody : c.2.body hash c.1.actorGid (w.issued + 1) (w.opened hash c.1 c.2) = .ok (o, v)) :
    (w.step hash c).db.proposals = v.db.proposals := by
  have hcall : call hash w c.1 c.2 = .ok (o, v.complete (some ((w.drawn c.2).issued + 1)) o) :=
    call_eq_ok.mpr ⟨hpermits, ledgered_of_effect ((record?_drawn ..).trans hnew) hbody⟩
  unfold CraftWorld.step
  rw [hcall]
  rfl

variable {f : Proposal → Proposal}

theorem Safe.not_mem_update (hsafe : w.Safe) (hp : p ∈ w.db.proposals)
    (hf : f p ≠ p) :
    p ∉ Rows.update (·.gid == p.gid) f w.db.proposals := by
  intro hin
  obtain ⟨q, hq, heq⟩ := List.mem_map.mp hin
  split_ifs at heq with hgid
  · rw [beq_iff_eq] at hgid
    rw [List.inj_on_of_nodup_map hsafe.gids hq hp hgid] at heq
    exact hf heq
  · exact hgid (by simp [heq])

theorem load_update {gid : Gid}
    (hf : ∀ q : Proposal, (f q).gid = q.gid) (hp : w.load gid = .ok p) :
    (w.updateProposal gid f).load gid = .ok (f p) := by
  rw [load_eq_ok]
  show (Rows.update _ f w.db.proposals).find? _ = _
  rw [Rows.find?_update fun q _ => by rw [hf], load_eq_ok.mp hp]
  simp [gid_of_load hp]

theorem view_update {gid : Gid}
    (hf : ∀ q : Proposal, (f q).gid = q.gid) (hp : w.load gid = .ok p) :
    (w.updateProposal gid f).view gid = .ok (.proposal ⟨f p, (f p).isTerminal⟩, w.updateProposal gid f) := by
  unfold view
  rw [load_update hf hp]
  rfl

theorem statusBody_eq_ok {gid : Gid} {allowed : List ReviewStatus} {target : ReviewStatus}
    (hp : w.load gid = .ok p) (hfrom : p.reviewStatus ∈ allowed) :
    statusBody gid allowed target w = .ok (.proposal ⟨p.moved target, (p.moved target).isTerminal⟩,
      w.updateProposal gid (Proposal.moved target)) := by
  unfold statusBody
  refine bind_eq_ok.mpr ⟨p, hp, bind_eq_ok.mpr ⟨(), orRaise_eq_ok.mpr hfrom, ?_⟩⟩
  exact view_update (fun _ => rfl) hp

theorem applyComponentBody_eq_ok {gid componentGid : Gid} {unit : ProposalUnit}
    (hp : w.load gid = .ok p)
    (hunit : p.units.find? (·.componentGid == componentGid) = some unit)
    (hfrom : p.reviewStatus ∈ [ReviewStatus.accepted, .partiallyAccepted] ∧ unit.reviewDecision = some .accepted)
    (hdeps : ∀ dep ∈ unit.dependencies, (p.outcomeOf dep).isSome)
    (houtcome : unit.applyOutcome.isSome) :
    applyComponentBody hash gid componentGid w
      = .ok (.proposal ⟨p.settled, p.settled.isTerminal⟩, w.updateProposal gid Proposal.settled) := by
  unfold applyComponentBody
  refine bind_eq_ok.mpr ⟨p, hp, ?_⟩
  dsimp only
  rw [hunit]
  dsimp only
  refine bind_eq_ok.mpr ⟨(), orRaise_eq_ok.mpr hfrom, bind_eq_ok.mpr ⟨(), orRaise_eq_ok.mpr hdeps, ?_⟩⟩
  rw [if_neg (by simp [Option.isSome_iff_ne_none.mp houtcome])]
  exact bind_eq_ok.mpr ⟨_, rfl, view_update (fun _ => rfl) hp⟩

/-- **A call that reopens** a proposal changes it. -/
theorem Safe.step_reopens (hsafe : w.Safe) (hp : p ∈ w.db.proposals) (h : w.Reopens p c) :
    p ∉ (w.step hash c).db.proposals := by
  obtain ⟨happlied, hstatus, howns, hnew, htarget, hcall⟩ := h
  have hpermits : w.Permits c.1 c.2 := by
    intro gid hgid
    rw [htarget] at hgid
    cases hgid
    exact howns
  have hopened : (w.opened hash c.1 c.2).load p.gid = .ok p := by
    unfold opened running load
    rw [drawn_db]
    exact hsafe.load_of_mem hp
  obtain ⟨caller, call⟩ := c
  cases call with
  | supersede gid =>
    obtain rfl : gid = p.gid := Option.some.inj htarget
    have hfrom : p.reviewStatus ∈ [ReviewStatus.draft, .submitted, .reviewing, .accepted,
        .partiallyAccepted] :=
      List.mem_cons_of_mem _ (List.mem_cons_of_mem _ (List.mem_cons_of_mem _ hstatus))
    rw [step_of_body hpermits hnew (statusBody_eq_ok hopened hfrom)]
    refine hsafe.not_mem_update hp fun heq => ?_
    exact absurd (congrArg Proposal.rowVersion heq) (Nat.succ_ne_self _)
  | applyComponent gid componentGid =>
    obtain rfl : gid = p.gid := Option.some.inj htarget
    obtain ⟨u, hu, hgid, haccepted⟩ := hcall
    have hsound := hsafe.sound p hp
    have houtcome := (hsound.applied.mp happlied).2 u hu haccepted
    have hfind : ∀ v ∈ p.units, p.units.find? (·.componentGid == v.componentGid) = some v :=
      fun v hv => KeyedRows.lookup_of_mem hsound.components hv
    have hdeps : ∀ dep ∈ u.dependencies, (p.outcomeOf dep).isSome := by
      intro dep hdep
      obtain ⟨v, hv, rfl, hvsome⟩ := (hsound.supported u hu houtcome).2 dep hdep
      unfold Proposal.outcomeOf
      rw [hfind v hv]
      exact hvsome
    rw [step_of_body hpermits hnew (applyComponentBody_eq_ok hopened (hgid ▸ hfind u hu)
      ⟨hstatus, haccepted⟩ hdeps houtcome)]
    refine hsafe.not_mem_update hp fun heq => ?_
    exact absurd (congrArg Proposal.rowVersion heq) (Nat.succ_ne_self _)
  | createProposal repository space version base => exact hcall.elim
  | submit gid => exact hcall.elim
  | withdraw gid => exact hcall.elim
  | cancel gid => exact hcall.elim
  | review gid decisions => exact hcall.elim

end

/-! ## The laws of proposals -/

section

variable (hash : Json → Str) (store : Store) (issued : Gid)

/-- A database without proposals. -/
def fresh : CraftWorld := ⟨{ store with }, issued⟩

theorem safe_fresh : (fresh store issued).Safe :=
  ⟨List.nodup_nil, by simp [fresh], by simp [fresh], ⟨by simp [fresh], by simp [fresh]⟩⟩

/-- **Change proposals.** After any calls, decisions are closed under dependencies, outcomes are
supported, and the apply status says whether all that is accepted is applied. A call that has
returned returns the same whenever it is repeated, and writes nothing. A terminal proposal stays
as it is exactly as long as no call reopens it. -/
theorem proposal_laws (calls : List (Caller × ProposalCall)) :
    let w := (fresh store issued).run hash calls
    (∀ p ∈ w.db.proposals, p.DecisionsClosed ∧ p.OutcomesSupported ∧ p.AppliedExactly) ∧
    (∀ caller c outcome w', call hash w caller c = .ok (outcome, w') → ∀ more,
      ∃ v, call hash (w'.run hash more) caller c = .ok (outcome, v) ∧
        v.db = (w'.run hash more).db) ∧
    (∀ gid p, w.load gid = .ok p → p.isTerminal = true →
      (∀ more, Closed hash w p more → (w.run hash more).load gid = .ok p) ∧
      ∀ c, w.Reopens p c → (w.step hash c).load gid ≠ .ok p) := by
  intro w
  have hsafe : w.Safe := (safe_fresh store issued).run calls
  refine ⟨fun p hp => ?_, fun caller c outcome w' hcall more => call_again hsafe hcall more,
    fun gid p hload hterminal => ⟨fun more hclosed => ?_, fun c hreopens hafter => ?_⟩⟩
  · have hsound := hsafe.sound p hp
    exact ⟨hsound.closed, hsound.supported, hsound.applied⟩
  · obtain rfl := gid_of_load hload
    exact (hsafe.run more).load_of_mem (hsafe.run_terminal (mem_of_load hload) hterminal hclosed)
  · exact hsafe.step_reopens (mem_of_load hload) hreopens (mem_of_load hafter)

end

/-- A repository whose personal space has changed one node. -/
def oneChange : Store where
  repositories := [⟨1, 9, 5, false⟩]
  spaces := [⟨2, 1, 9, .team, none, none, false⟩,
    ⟨3, 1, 9, .managedPersonal, some 8, some 20, false⟩]
  heads := [⟨4, 2, 9, 1, [], [⟨.node, 10, some 30, none, none, false⟩]⟩]
  versions := [⟨20, 2, 9, "saved".toList, .null, .null, [],
      [⟨.node, 10, some 30, none, none, false⟩]⟩,
    ⟨21, 3, 9, "saved".toList, .null, .null, [], [⟨.node, 10, some 31, none, none, false⟩]⟩]

def appliedHistory : List (Caller × ProposalCall) :=
  [(⟨9, 8, "a".toList⟩, .createProposal 1 3 21 20), (⟨9, 8, "b".toList⟩, .submit 101),
    (⟨9, 7, "c".toList⟩, .review 101 [(103, "accepted".toList)]),
    (⟨9, 7, "d".toList⟩, .applyComponent 101 103)]

/-- **An applied proposal can be superseded**, and its component applied once more. -/
theorem applied_proposal_changes :
    let w := (fresh oneChange 100).run (Json.dumps (fun _ => [])) appliedHistory
    let seen := fun w : CraftWorld => (w.load 101).toOption.map fun p =>
      (p.isTerminal, p.reviewStatus, p.applyStatus, p.rowVersion)
    seen w = some (true, .accepted, .applied, 4) ∧
    seen (w.step (Json.dumps (fun _ => [])) (⟨9, 7, "e".toList⟩, .supersede 101))
      = some (true, .superseded, .applied, 5) ∧
    seen (w.step (Json.dumps (fun _ => [])) (⟨9, 7, "e".toList⟩, .applyComponent 101 103))
      = some (true, .accepted, .applied, 5) := by
  decide +kernel

theorem proposal_laws_applied :
    let w := (fresh oneChange 100).run (Json.dumps (fun _ => [])) appliedHistory
    ∃ p, w.load 101 = .ok p ∧
      (w.run (Json.dumps (fun _ => [])) [(⟨9, 8, "e".toList⟩, .cancel 101)]).load 101 = .ok p := by
  intro w
  have hload : ∃ p, w.load 101 = .ok p ∧ p.isTerminal = true := by
    cases h : w.load 101 with
    | ok p =>
      refine ⟨p, rfl, ?_⟩
      have hseen : (w.load 101).toOption.map Proposal.isTerminal = some true := by decide +kernel
      rw [h] at hseen
      exact Option.some.inj hseen
    | error e =>
      have hseen : (w.load 101).toOption.isSome = true := by decide +kernel
      rw [h] at hseen
      cases hseen
  obtain ⟨p, hp, hterminal⟩ := hload
  refine ⟨p, hp, ?_⟩
  refine ((proposal_laws (Json.dumps (fun _ => [])) oneChange 100 appliedHistory).2.2 101 p hp
    hterminal).1 _ ⟨?_, trivial⟩
  exact fun h => h.2.2.2.2.2

end CraftWorld

end Ai00.Craft
