import Ai00.Basic.Checks
import Ai00.Connector.CanonicalJson
import Ai00.Connector.Plan
import Ai00.Json.Builtins

/-! # Reconciliation of plans with an unknown outcome

`probe_context` and `ReconciliationService` of `application/connector_protocol_v2.py`. A device
that lost the outcome of a plan probes the post-conditions of its steps and signs what it found.
The server derives the probes it expects from the plan and the outcome it has, if any, and what
the probes cannot show (`Coverage`); from both it declares the plan succeeded, failed without
effect, or left to manual review.

The verdict never says more than the evidence (`verify_sound`): success needs every step shown
to have succeeded, and "no effect" needs every invoked step with a side effect probed so.
-/

namespace Ai00.Connector

/-! ## Evidence and reconciled outcomes -/

inductive Classification where
  | succeeded
  | failedWithoutEffect
  | inconclusive
  deriving DecidableEq

/-- `ConnectorProbeEvidenceV2`. -/
structure ProbeEvidence where
  stepId : String
  probeId : String
  classification : Classification
  observedResult : Json := .null

/-- `ConnectorReconciliationEvidenceV2`, without the fields only its signature reads. -/
structure ReconciliationEvidence where
  scope : String := "read_only_post_condition_probe"
  planId : String
  planHash : String
  leaseId : String
  tenantId : String
  deviceId : String
  runtimeGeneration : Nat
  runtimeInstanceId : String
  recoveryInstanceId : String
  recoverySessionId : String
  nonce : String
  probes : List ProbeEvidence
  journalSequence : Nat
  reportedAt : Ticks := 0
  deviceKeyId : String := ""

structure ReconciledStep where
  stepId : String
  status : StepStatus
  result : Json
  errorCode : Option String

/-- `ConnectorReconciledOutcomeV2`. -/
structure ReconciledOutcome where
  planId : String
  planHash : String
  leaseId : String
  tenantId : String
  deviceId : String
  runtimeGeneration : Nat
  runtimeInstanceId : String
  journalSequence : Nat
  reportedAt : Ticks
  overallStatus : StepStatus
  steps : List ReconciledStep
  originalOutcome : Option Outcome
  evidence : ReconciliationEvidence

/-- What `parse_v2_outcome` makes of `outcome_json`. -/
inductive StoredOutcome where
  | reported (outcome : Outcome)
  | reconciled (outcome : ReconciledOutcome)

/-- The columns of a plan row that are read here; the payloads are those of `plan_json`, by
step id. -/
structure ReconciledRow where
  plan : ExecutionPlan
  payload : String → Wire Points
  outcome : Option StoredOutcome
  planId : String
  planHash : String
  leaseId : String
  runtimeInstanceId : String
  runtimeGeneration : Nat
  deviceId : String
  tenantId : String

/-- The columns of a recovery row that are read here. -/
structure RecoverySession where
  recoveryInstanceId : Option String := none
  tokenHash : String

/-- `original_outcome`. -/
def ReconciledRow.original (row : ReconciledRow) : Option Outcome :=
  match row.outcome with
  | none => none
  | some (.reported outcome) => some outcome
  | some (.reconciled outcome) => outcome.originalOutcome

/-! ## `probe_context` -/

structure RequiredProbe where
  stepId : String
  probeId : String
  probeInput : Option (Wire Points)

structure Coverage where
  unprobeableSideEffectStepIds : List String
  successUnprovenStepIds : List String
  uninvokedStepIds : List String

structure ProbeContext where
  planId : String
  planHash : String
  leaseId : String
  runtimeInstanceId : String
  runtimeGeneration : Nat
  deviceId : String
  tenantId : String
  recoveryInstanceId : String
  recoverySessionId : String
  requiredProbes : List RequiredProbe
  coverage : Coverage
  nextJournalSequence : Nat

def probeScope : String := "read_only_post_condition_probe"

namespace Wire

def text (s : String) : Wire Points := .str (points s.toList)

def record (members : List (String × Wire Points)) : Wire Points :=
  .obj (members.map (fun m => (points m.1.toList, m.2)))

/-- `payload.get(key)`, of `payload or {}`. -/
def get? (key : String) : Wire Points → Except PyError (Option (Wire Points))
  | .obj members => .ok ((members.find? (fun m => m.1 == points key.toList)).map Prod.snd)
  | .null | .bool false | .int 0 | .str [] | .arr [] => .ok none
  | .double (.finite x) =>
    if x.mant = 0 then .ok none else .error (.attributeError "get")
  | _ => .error (.attributeError "get")

/-- `value in texts`, for a set of strings. -/
def isOneOf (texts : List String) : Option (Wire Points) → Except PyError Bool
  | some (.str s) => .ok (texts.any (fun t => points t.toList == s))
  | some (.arr _) => .error (.typeError "unhashable type: 'list'")
  | some (.obj _) => .error (.typeError "unhashable type: 'dict'")
  | _ => .ok false

/-- `bool(value)`, for a value that may be missing. -/
def isTruthy : Option (Wire Points) → Bool
  | none | some .null | some (.bool false) | some (.int 0) => false
  | some (.str s) => s ≠ []
  | some (.arr items) => !items.isEmpty
  | some (.obj members) => !members.isEmpty
  | some (.double (.finite x)) => x.mant ≠ 0
  | some _ => true

/-- The value is the given string. -/
def isText (t : String) : Option (Wire Points) → Bool
  | some (.str s) => points t.toList == s
  | _ => false

end Wire

def closeOperation : String := "vismockup.model.close@1"
def nodeVisibilityOperation : String := "vismockup.node.visibility.change@1"
def visibilityOperation : String := "vismockup.visibility.change@1"

/-- `probe['probe_input']`, derived from the signed operation. -/
def probeInput (step : ConnectorStep) (payload : Wire Points) :
    Except PyError (Option (Wire Points)) :=
  if step.operationId = closeOperation then
    .ok (some (.record [("expected_all_documents_closed", .bool true)]))
  else if step.operationId = nodeVisibilityOperation then do
    let action ← payload.get? "action"
    if !(← Wire.isOneOf ["show", "hide"] action) then return none
    match ← payload.get? "node_key" with
    | none => throw (.keyError "node_key".toList)
    | some key =>
      let path ← payload.get? "occurrence_path"
      return some (.record ([("node_key", key),
          ("expected_visible", .bool (Wire.isText "show" action))]
        ++ if Wire.isTruthy path then (path.map (("occurrence_path", ·))).toList else []))
  else if step.operationId = visibilityOperation then do
    let action ← payload.get? "action"
    if !(← Wire.isOneOf ["all_on", "all_off"] action) then return none
    return some (.record [("expected_all_visible", .bool (Wire.isText "all_on" action))])
  else .ok none

/-- The probe of a step's post-condition; an empty identifier counts as none. -/
def ConnectorStep.probe? (step : ConnectorStep) : Option String :=
  step.postConditionProbeId.filter (fun id => id != "")

def ConnectorStep.hasEffect (step : ConnectorStep) : Bool :=
  step.sideEffectClassification != .read

namespace ReconciledRow

variable (row : ReconciledRow)

/-- `invoked`. A verified outcome proves that the steps after it were never invoked; without one
any step may have been. -/
def invoked : List ConnectorStep :=
  match row.original with
  | some outcome => row.plan.steps.take outcome.steps.length
  | none => row.plan.steps

/-- The step is invoked and its probe is asked for. -/
def probed? (step : ConnectorStep) : Option String :=
  if step.hasEffect || !row.plan.steps.any ConnectorStep.hasEffect then step.probe? else none

/-- `required`, as pairs of a step with its probe. -/
def toProbe : List (ConnectorStep × String) :=
  row.invoked.filterMap (fun step => (row.probed? step).map (fun probe => (step, probe)))

def requiredProbes : Except PyError (List RequiredProbe) :=
  row.toProbe.mapM (fun p => do
    let input ← probeInput p.1 (row.payload p.1.stepId)
    return { stepId := p.1.stepId, probeId := p.2, probeInput := input })

def completed : List String :=
  match row.original with
  | some outcome =>
    (outcome.steps.filter (fun s => s.status == .succeeded)).map StepResult.stepId
  | none => []

def coverage : Coverage where
  unprobeableSideEffectStepIds :=
    (row.invoked.filter (fun step => step.hasEffect && step.probe?.isNone)).map
      ConnectorStep.stepId
  successUnprovenStepIds :=
    (row.invoked.filter (fun step =>
      (!(row.toProbe.map (fun p => p.1.stepId)).contains step.stepId
          && !row.completed.contains step.stepId)
        || (row.original.isNone && !step.hasEffect))).map ConnectorStep.stepId
  uninvokedStepIds := (row.plan.steps.drop row.invoked.length).map ConnectorStep.stepId

end ReconciledRow

/-- The context as `canonicalize_v2` gets it. -/
def ProbeContext.wire (context : ProbeContext) : Wire Points :=
  let texts (ids : List String) : Wire Points := .arr (ids.map Wire.text)
  let probe (p : RequiredProbe) : Wire Points :=
    .record ([("step_id", .text p.stepId), ("probe_id", .text p.probeId)]
      ++ (p.probeInput.map (("probe_input", ·))).toList)
  .record [("scope", .text probeScope), ("plan_id", .text context.planId),
    ("plan_hash", .text context.planHash), ("lease_id", .text context.leaseId),
    ("runtime_instance_id", .text context.runtimeInstanceId),
    ("runtime_generation", .int context.runtimeGeneration),
    ("device_id", .text context.deviceId), ("tenant_id", .text context.tenantId),
    ("recovery_instance_id", .text context.recoveryInstanceId),
    ("recovery_session_id", .text context.recoverySessionId),
    ("required_probes", .arr (context.requiredProbes.map probe)),
    ("coverage", .record [
      ("unprobeable_side_effect_step_ids", texts context.coverage.unprobeableSideEffectStepIds),
      ("success_unproven_step_ids", texts context.coverage.successUnprovenStepIds),
      ("uninvoked_step_ids", texts context.coverage.uninvokedStepIds)]),
    ("next_journal_sequence", .int context.nextJournalSequence)]

/-- What the server uses of its platform and of the contracts of other components. -/
structure ReconciliationEnv where
  format : DecimalFormat
  sha256 : List UInt8 → String
  /-- The field patterns of the evidence. -/
  wellFormed : ReconciliationEvidence → Bool
  verifySignature : ReconciliationEvidence → Bool
  /-- `str(value)` of a value that is no string. -/
  text : Json → Str
  /-- `ArtifactRef.model_validate`. -/
  artifactRef : Json → Except PyError Unit

section

variable (env : ReconciliationEnv)

/-- `probe_context`, without the nonce. -/
def probeContext (row : ReconciledRow) (recovery : RecoverySession) (lastJournalSequence : Nat) :
    Except PyError ProbeContext := do
  let required ← row.requiredProbes
  return {
    planId := row.planId, planHash := row.planHash, leaseId := row.leaseId,
    runtimeInstanceId := row.runtimeInstanceId, runtimeGeneration := row.runtimeGeneration,
    deviceId := row.deviceId, tenantId := row.tenantId,
    recoveryInstanceId := recovery.recoveryInstanceId.getD row.runtimeInstanceId,
    recoverySessionId :=
      env.sha256 (utf8 ("reconciliation-session:" ++ recovery.tokenHash).toList),
    requiredProbes := required, coverage := row.coverage,
    nextJournalSequence := lastJournalSequence + 1 }

/-- `context['nonce']`. -/
def ProbeContext.nonce (context : ProbeContext) (recovery : RecoverySession) :
    Except PyError String := do
  let bytes ← canonicalizeV2 env.format context.wire
  return env.sha256 (bytes ++ utf8 recovery.tokenHash.toList)

/-! ## `ReconciliationService` -/

structure ProbeResult where
  planId : String
  classifications : List Classification
  coverage : Option Coverage

def reconcile (planId : String) : Option ProbeResult → Except PyError StepStatus
  | none => .ok .manualReviewRequired
  | some probes =>
    if probes.planId ≠ planId then .error (.valueError "reconciliation_evidence_invalid")
    else
      match probes.coverage with
      | none => .ok .manualReviewRequired
      | some coverage =>
        if probes.classifications ≠ [] ∧ (∀ c ∈ probes.classifications, c = .succeeded)
            ∧ coverage.successUnprovenStepIds = [] ∧ coverage.uninvokedStepIds = [] then
          .ok .succeeded
        else if probes.classifications ≠ []
            ∧ (∀ c ∈ probes.classifications, c = .failedWithoutEffect)
            ∧ coverage.unprobeableSideEffectStepIds = [] then
          .ok .failedWithoutEffect
        else .ok .manualReviewRequired

def ReconciliationEvidence.binds (evidence : ReconciliationEvidence) (context : ProbeContext)
    (nonce : String) : Bool :=
  evidence.scope == probeScope && evidence.planId == context.planId
    && evidence.planHash == context.planHash && evidence.leaseId == context.leaseId
    && evidence.runtimeInstanceId == context.runtimeInstanceId
    && evidence.runtimeGeneration == context.runtimeGeneration
    && evidence.deviceId == context.deviceId && evidence.tenantId == context.tenantId
    && evidence.recoveryInstanceId == context.recoveryInstanceId
    && evidence.recoverySessionId == context.recoverySessionId && evidence.nonce == nonce

/-- `actual`. -/
def ReconciliationEvidence.pairs (evidence : ReconciliationEvidence) : List (String × String) :=
  evidence.probes.map (fun p => (p.stepId, p.probeId))

/-- `required`. -/
def ProbeContext.pairs (context : ProbeContext) : List (String × String) :=
  context.requiredProbes.map (fun p => (p.stepId, p.probeId))

/-- The checks of `verify` on the evidence, up to the verdict. -/
def checkEvidence (row : ReconciledRow) (recovery : RecoverySession)
    (evidence : ReconciliationEvidence) (lastJournalSequence : Nat) :
    Except PyError ProbeContext := do
  require (env.wellFormed evidence = true ∧ 1 ≤ evidence.runtimeGeneration
    ∧ 1 ≤ evidence.journalSequence ∧ evidence.probes.length ≤ 10000)
    (.validationError "ConnectorReconciliationEvidenceV2")
  require (env.verifySignature evidence = true) (.valueError "outcome_signature_invalid")
  let context ← probeContext env row recovery lastJournalSequence
  let nonce ← context.nonce env recovery
  require (evidence.journalSequence = context.nextJournalSequence)
    (.valueError "journal_sequence_invalid")
  require (evidence.binds context nonce = true) (.valueError "reconciliation_evidence_invalid")
  require (evidence.pairs.dedup.length = evidence.pairs.length
    ∧ ∀ p ∈ evidence.pairs, p ∈ context.pairs) (.valueError "reconciliation_evidence_invalid")
  require (evidence.pairs = context.pairs.filter (fun p => evidence.pairs.contains p))
    (.valueError "reconciliation_evidence_invalid")
  return context

/-- `classifications`; a probe that is missing is inconclusive. -/
def classifications (evidence : ReconciliationEvidence) (context : ProbeContext) :
    List Classification :=
  evidence.probes.map ProbeEvidence.classification
    ++ if evidence.pairs ≠ context.pairs then [.inconclusive] else []

def Classification.status : Classification → StepStatus
  | .succeeded => .succeeded
  | .failedWithoutEffect => .failedWithoutEffect
  | .inconclusive => .manualReviewRequired

def StepResult.reconciled (r : StepResult) : ReconciledStep where
  stepId := r.stepId
  status := r.status
  result := r.result
  errorCode := r.errorCode

def ProbeEvidence.reconciled (p : ProbeEvidence) : ReconciledStep where
  stepId := p.stepId
  status := p.classification.status
  result := p.observedResult
  errorCode := if p.classification.status = .succeeded then none else "reconciliation_required"

/-- `projected[step_id]`: what a probe found replaces what the outcome said. -/
def projected (original : Option Outcome) (evidence : ReconciliationEvidence) (stepId : String) :
    Option ReconciledStep :=
  let reported := (original.map Outcome.steps).getD []
  (reported.map StepResult.reconciled ++ evidence.probes.map ProbeEvidence.reconciled).reverse.find?
    (fun s => s.stepId == stepId)

def snapshotOperation : String := "vismockup.document.snapshot@1"

def snapshotNode : Json → Option (List (Str × Json))
  | .obj fields => some fields
  | _ => none

/-- `str(value)`. -/
def ReconciliationEnv.str : Json → Str
  | .str s => s
  | value => env.text value

/-- `_validate_snapshot` of `document_snapshots.py`. -/
def validateSnapshot (value : Json) : Except PyError Unit := do
  let invalid : PyError := .runtimeError "bom_snapshot_invalid"
  let .obj fields := value | throw invalid
  require (∀ key ∈ ["document_id", "root_node_key", "source_identity", "snapshot_hash", "nodes"],
    key.toList ∈ Dict.keys fields) invalid
  let .arr items := Json.getD fields "nodes" | throw invalid
  let nodes := items.filterMap snapshotNode
  require (nodes.length = items.length ∧ nodes ≠ [] ∧ nodes.length ≤ 10000) invalid
  let keys := nodes.map (fun node => env.str ((Json.getD node "node_key").orElse (.str [])))
  require ((∀ key ∈ keys, key ≠ []) ∧ keys.Nodup) invalid
  require (env.str (Json.getD fields "root_node_key") ∈ keys) invalid
  require (∀ node ∈ nodes, "product_ref".toList ∈ Dict.keys node
    ∧ "child_order".toList ∈ Dict.keys node) invalid

/-- `projected[step.step_id].result`. -/
def projectedResult (found : String → Option ReconciledStep) (step : ConnectorStep) :
    Except PyError Json :=
  match found step.stepId with
  | some s => .ok s.result
  | none => .error (.keyError step.stepId.toList)

/-- `result['artifact']`. -/
def artifactOf : Json → Except PyError Json
  | .obj fields =>
    match Dict.get? fields "artifact".toList with
    | some artifact => .ok artifact
    | none => .error (.keyError "artifact".toList)
  | _ => .error (.typeError "artifact")

/-- The results a succeeded plan is read for: a snapshot that is valid, a capture's artifact. -/
def checkResults (found : String → Option ReconciledStep) : List ConnectorStep →
    Except PyError Unit
  | [] => .ok ()
  | step :: rest => do
    if step.operationId = snapshotOperation then
      validateSnapshot env (← projectedResult found step)
    if step.operationId = "vismockup.view.capture@1" then
      env.artifactRef (← artifactOf (← projectedResult found step))
    checkResults found rest

/-- `except (ValueError, RuntimeError, KeyError, TypeError)`. -/
def caught : PyError → Bool
  | .valueError _ | .validationError _ | .runtimeError _ | .keyError _ | .typeError _ => true
  | _ => false

/-- The verdict, after the results were read. -/
def settledStatus (status : StepStatus) (checked : Except PyError Unit) :
    Except PyError StepStatus :=
  if status ≠ .succeeded then .ok status
  else
    match checked with
    | .ok () => .ok status
    | .error e => if caught e then .ok .manualReviewRequired else .error e

/-- `ReconciliationService.verify`. -/
def verifyReconciliation (row : ReconciledRow) (recovery : RecoverySession)
    (evidence : ReconciliationEvidence) (lastJournalSequence : Nat) :
    Except PyError ReconciledOutcome := do
  let context ← checkEvidence env row recovery evidence lastJournalSequence
  let status ← reconcile evidence.planId (some {
    planId := evidence.planId, classifications := classifications evidence context,
    coverage := some context.coverage })
  require (row.plan.valid = true) (.validationError "ConnectorExecutionPlanV2")
  let found := projected row.original evidence
  let status ← settledStatus status (checkResults env found row.plan.steps)
  return {
    planId := evidence.planId, planHash := evidence.planHash, leaseId := evidence.leaseId,
    tenantId := evidence.tenantId, deviceId := evidence.deviceId,
    runtimeGeneration := evidence.runtimeGeneration,
    runtimeInstanceId := evidence.runtimeInstanceId,
    journalSequence := evidence.journalSequence, reportedAt := evidence.reportedAt,
    overallStatus := status,
    steps := row.plan.steps.filterMap (fun s => found s.stepId),
    originalOutcome := row.original, evidence := evidence }

end

/-! ## What the steps give -/

section

variable {env : ReconciliationEnv} {row : ReconciledRow} {recovery : RecoverySession}
  {evidence : ReconciliationEvidence} {last : Nat} {context : ProbeContext}

/-- The pairs of step and probe that the evidence may name. -/
def ReconciledRow.expected (row : ReconciledRow) : List (String × String) :=
  row.toProbe.map (fun p => (p.1.stepId, p.2))

theorem requiredProbes_pairs {payload : String → Wire Points} {steps : List (ConnectorStep × String)}
    {required : List RequiredProbe}
    (h : steps.mapM (fun p => do
      let input ← probeInput p.1 (payload p.1.stepId)
      return { stepId := p.1.stepId, probeId := p.2, probeInput := input : RequiredProbe }) = .ok required) :
    required.map (fun p => (p.stepId, p.probeId)) = steps.map (fun p => (p.1.stepId, p.2)) := by
  induction steps generalizing required with
  | nil =>
    cases h
    rfl
  | cons p rest ih =>
    rw [List.mapM_cons] at h
    obtain ⟨probe, hprobe, h⟩ := bind_eq_ok.mp h
    obtain ⟨input, -, hprobe⟩ := bind_eq_ok.mp hprobe
    obtain ⟨others, hothers, h⟩ := bind_eq_ok.mp h
    cases hprobe
    cases h
    simp [ih hothers]

theorem probeContext_spec (h : probeContext env row recovery last = .ok context) :
    context.coverage = row.coverage ∧ context.pairs = row.expected := by
  obtain ⟨required, hrequired, h⟩ := bind_eq_ok.mp h
  cases h
  exact ⟨rfl, requiredProbes_pairs hrequired⟩

/-- What is known of evidence that passed the checks. -/
structure Checked (row : ReconciledRow) (evidence : ReconciliationEvidence)
    (context : ProbeContext) : Prop where
  coverage : context.coverage = row.coverage
  pairs : context.pairs = row.expected
  nodup : evidence.pairs.Nodup
  ordered : evidence.pairs.Sublist row.expected

theorem checkEvidence_spec (h : checkEvidence env row recovery evidence last = .ok context) :
    Checked row evidence context := by
  obtain ⟨_, -, h⟩ := bind_eq_ok.mp h
  obtain ⟨_, -, h⟩ := bind_eq_ok.mp h
  obtain ⟨derived, hderived, h⟩ := bind_eq_ok.mp h
  obtain ⟨_, -, h⟩ := bind_eq_ok.mp h
  obtain ⟨_, -, h⟩ := bind_eq_ok.mp h
  obtain ⟨_, -, h⟩ := bind_eq_ok.mp h
  obtain ⟨_, hdistinct, h⟩ := bind_eq_ok.mp h
  obtain ⟨_, hordered, h⟩ := bind_eq_ok.mp h
  cases h
  obtain ⟨hcoverage, hpairs⟩ := probeContext_spec hderived
  rw [require_eq_ok] at hdistinct hordered
  refine ⟨hcoverage, hpairs, ?_, ?_⟩
  · rw [← List.dedup_eq_self]
    exact (List.dedup_sublist _).eq_of_length hdistinct.1
  · rw [hordered, ← hpairs]
    exact List.filter_sublist

theorem classified_of_expected (hchecked : Checked row evidence context) {c : Classification}
    (hc : c ≠ .inconclusive) (hall : ∀ d ∈ classifications evidence context, d = c)
    {p : String × String} (hp : p ∈ row.expected) :
    ∃ probe ∈ evidence.probes, (probe.stepId, probe.probeId) = p ∧ probe.classification = c := by
  have hcomplete : evidence.pairs = context.pairs := by
    by_contra hne
    refine hc (hall .inconclusive ?_).symm
    rw [classifications, if_pos hne]
    exact List.mem_append_right _ List.mem_cons_self
  rw [← hchecked.pairs, ← hcomplete] at hp
  obtain ⟨probe, hprobe, heq⟩ := List.mem_map.mp hp
  refine ⟨probe, hprobe, heq, hall _ ?_⟩
  exact List.mem_append_left _ (List.mem_map_of_mem hprobe)

theorem mem_toProbe_iff {p : ConnectorStep × String} :
    p ∈ row.toProbe ↔ p.1 ∈ row.invoked ∧ row.probed? p.1 = some p.2 := by
  simp only [ReconciledRow.toProbe, List.mem_filterMap, Option.map_eq_some_iff]
  constructor
  · rintro ⟨step, hstep, probe, hprobe, rfl⟩
    exact ⟨hstep, hprobe⟩
  · rintro ⟨hstep, hprobe⟩
    exact ⟨p.1, hstep, p.2, hprobe, rfl⟩

theorem invoked_subset : ∀ step ∈ row.invoked, step ∈ row.plan.steps := by
  intro step hstep
  rw [ReconciledRow.invoked] at hstep
  split at hstep
  · exact List.mem_of_mem_take hstep
  · exact hstep

theorem invoked_eq_of_uninvoked (h : row.coverage.uninvokedStepIds = []) :
    row.invoked = row.plan.steps := by
  have hlength : row.plan.steps.length ≤ row.invoked.length := by
    rw [← List.drop_eq_nil_iff, ← List.map_eq_nil_iff]
    exact h
  rw [ReconciledRow.invoked] at hlength ⊢
  split at hlength
  · rename_i outcome horiginal
    rw [List.take_of_length_le]
    rw [List.length_take] at hlength
    omega
  · rfl

/-! ## The verdict -/

/-- The step succeeded in the outcome the device signed when it ran the plan. -/
def SucceededIn (original : Option Outcome) (step : ConnectorStep) : Prop :=
  ∃ outcome, original = some outcome ∧
    ∃ r ∈ outcome.steps, r.stepId = step.stepId ∧ r.status = .succeeded

def NeverInvoked (original : Option Outcome) (step : ConnectorStep) : Prop :=
  ∃ outcome, original = some outcome ∧ step.stepId ∉ outcome.steps.map StepResult.stepId

/-- The evidence classifies the post-condition of the step. -/
def ProbedAs (evidence : ReconciliationEvidence) (step : ConnectorStep) (c : Classification) :
    Prop :=
  ∃ probe ∈ evidence.probes, probe.stepId = step.stepId
    ∧ step.postConditionProbeId = some probe.probeId ∧ probe.classification = c

/-- A probe is named twice, or is not one of those asked for, or stands before another that was
not asked for after it. -/
inductive Malformed (expected actual : List (String × String)) : Prop where
  | duplicate (h : ¬ actual.Nodup) : Malformed expected actual
  | unknown {p : String × String} (hp : p ∈ actual) (h : p ∉ expected) : Malformed expected actual
  | reordered {p q : String × String} (hactual : [p, q].Sublist actual)
      (h : ¬ [p, q].Sublist expected) : Malformed expected actual

theorem Checked.not_malformed (hchecked : Checked row evidence context) :
    ¬ Malformed row.expected evidence.pairs := by
  rintro (h | ⟨hp, h⟩ | ⟨hactual, h⟩)
  · exact h hchecked.nodup
  · exact h (hchecked.ordered.subset hp)
  · exact h (hactual.trans hchecked.ordered)

variable {step : ConnectorStep}

theorem probe?_eq_some {id : String} (h : step.probe? = some id) :
    step.postConditionProbeId = some id :=
  (Option.filter_eq_some_iff.mp h).1

theorem probed?_eq_some {id : String} (h : row.probed? step = some id) :
    step.postConditionProbeId = some id := by
  rw [ReconciledRow.probed?] at h
  split_ifs at h
  exact probe?_eq_some h

theorem step_eq_of_stepId (hvalid : row.plan.valid = true) {step other : ConnectorStep}
    (hstep : step ∈ row.plan.steps) (hother : other ∈ row.plan.steps)
    (h : step.stepId = other.stepId) : step = other :=
  List.inj_on_of_nodup_map (ExecutionPlan.nodup_of_valid hvalid) hstep hother h

/-- A step with a side effect that the outcome does not show as never invoked counts as
invoked. -/
theorem mem_invoked (hvalid : row.plan.valid = true)
    (hverified : ∀ outcome, row.original = some outcome → verifySteps row.plan outcome = .ok ())
    (hstep : step ∈ row.plan.steps)
    (h : ¬ NeverInvoked row.original step) : step ∈ row.invoked := by
  rw [ReconciledRow.invoked]
  split
  · rename_i outcome horiginal
    have hreported : step.stepId ∈ outcome.steps.map StepResult.stepId := by
      by_contra hmissing
      exact h ⟨outcome, horiginal, hmissing⟩
    have hprefixed := hverified outcome horiginal
    simp only [verifySteps] at hprefixed
    split_ifs at hprefixed with hids
    all_goals
      rw [not_not] at hids
      rw [hids, List.length_map, ← List.map_take] at hreported
      obtain ⟨other, hother, hsame⟩ := List.mem_map.mp hreported
      rwa [← step_eq_of_stepId hvalid (List.mem_of_mem_take hother) hstep hsame]
  · exact hstep

theorem succeeded_sound (hchecked : Checked row evidence context) (hvalid : row.plan.valid = true)
    (hall : ∀ c ∈ classifications evidence context, c = .succeeded)
    (hunproven : row.coverage.successUnprovenStepIds = [])
    (huninvoked : row.coverage.uninvokedStepIds = [])
    (hstep : step ∈ row.plan.steps) :
    SucceededIn row.original step ∨ ProbedAs evidence step .succeeded := by
  have hinvoked : step ∈ row.invoked := invoked_eq_of_uninvoked huninvoked ▸ hstep
  have hproven := List.filter_eq_nil_iff.mp (List.map_eq_nil_iff.mp hunproven) step hinvoked
  simp only [Bool.or_eq_true, Bool.and_eq_true, Bool.not_eq_true', not_or, not_and,
    Bool.not_eq_false, List.contains_iff_mem] at hproven
  by_cases hprobed : step.stepId ∈ row.toProbe.map (fun p => p.1.stepId)
  · right
    obtain ⟨p, hp, hsame⟩ := List.mem_map.mp hprobed
    obtain ⟨hmem, hprobe⟩ := mem_toProbe_iff.mp hp
    obtain ⟨probe, hfound, hpair, hstatus⟩ := classified_of_expected hchecked (by decide) hall
      (List.mem_map_of_mem (f := fun p => (p.1.stepId, p.2)) hp)
    obtain ⟨hid, hprobeId⟩ := Prod.mk.inj hpair
    have heq := step_eq_of_stepId hvalid (invoked_subset _ hmem) hstep hsame
    refine ⟨probe, hfound, hid.trans hsame, ?_, hstatus⟩
    rw [hprobeId, ← heq]
    exact probed?_eq_some hprobe
  · left
    have hcompleted : step.stepId ∈ row.completed := by
      by_contra hmissing
      simp [hprobed, hmissing] at hproven
    rw [ReconciledRow.completed] at hcompleted
    split at hcompleted
    · rename_i outcome horiginal
      obtain ⟨r, hr, hid⟩ := List.mem_map.mp hcompleted
      obtain ⟨hr, hstatus⟩ := List.mem_filter.mp hr
      exact ⟨outcome, horiginal, r, hr, hid, beq_iff_eq.mp hstatus⟩
    · exact absurd hcompleted List.not_mem_nil

theorem failed_sound (hchecked : Checked row evidence context)
    (hall : ∀ c ∈ classifications evidence context, c = .failedWithoutEffect)
    (hunprobeable : row.coverage.unprobeableSideEffectStepIds = [])
    (hinvoked : step ∈ row.invoked) (heffect : step.hasEffect = true) :
    ProbedAs evidence step .failedWithoutEffect := by
  have hprobeable := List.filter_eq_nil_iff.mp (List.map_eq_nil_iff.mp hunprobeable) step hinvoked
  rw [heffect, Bool.true_and, Option.isNone_iff_eq_none, ← ne_eq, Option.ne_none_iff_exists'] at hprobeable
  obtain ⟨id, hid⟩ := hprobeable
  have hprobe : (step, id) ∈ row.toProbe :=
    mem_toProbe_iff.mpr ⟨hinvoked, by simp [ReconciledRow.probed?, heffect, hid]⟩
  obtain ⟨probe, hfound, hpair, hstatus⟩ := classified_of_expected hchecked (by decide) hall
    (List.mem_map_of_mem (f := fun p => (p.1.stepId, p.2)) hprobe)
  obtain ⟨hstepId, hprobeId⟩ := Prod.mk.inj hpair
  exact ⟨probe, hfound, hstepId, hprobeId ▸ probe?_eq_some hid, hstatus⟩

theorem settledStatus_spec {status final : StepStatus} {checked : Except PyError Unit}
    (h : settledStatus status checked = .ok final) :
    final = status ∨ final = .manualReviewRequired := by
  unfold settledStatus at h
  split_ifs at h with hstatus
  · exact Or.inl (Except.ok.inj h).symm
  · split at h
    · exact Or.inl (Except.ok.inj h).symm
    · split_ifs at h
      exact Or.inr (Except.ok.inj h).symm

theorem reconcile_spec {planId : String} {classifications : List Classification}
    {coverage : Coverage} {status : StepStatus}
    (h : reconcile planId (some ⟨planId, classifications, some coverage⟩) = .ok status) :
    (status = .succeeded → (∀ c ∈ classifications, c = .succeeded)
        ∧ coverage.successUnprovenStepIds = [] ∧ coverage.uninvokedStepIds = [])
      ∧ (status = .failedWithoutEffect → (∀ c ∈ classifications, c = .failedWithoutEffect)
        ∧ coverage.unprobeableSideEffectStepIds = [])
      ∧ status ∈ [.succeeded, .failedWithoutEffect, .manualReviewRequired] := by
  simp only [reconcile, ne_eq, not_true_eq_false, if_false] at h
  split_ifs at h with hsucceeded hfailed
  · cases h
    exact ⟨fun _ => hsucceeded.2, nofun, by decide⟩
  · cases h
    exact ⟨nofun, fun _ => hfailed.2, by decide⟩
  · cases h
    exact ⟨nofun, nofun, by decide⟩

/-- **The verdict is sound.** A plan counts as succeeded only when every step was shown to have
succeeded, as failed without effect only when every invoked step with a side effect was probed
so, and otherwise awaits a review. Malformed probes get no verdict. -/
theorem verify_sound (env : ReconciliationEnv) (row : ReconciledRow) (recovery : RecoverySession)
    (evidence : ReconciliationEvidence) (last : Nat)
    (hverified : ∀ outcome, row.original = some outcome →
      verifySteps row.plan outcome = .ok ()) :
    (∀ outcome, verifyReconciliation env row recovery evidence last = .ok outcome →
      (outcome.overallStatus = .succeeded → ∀ step ∈ row.plan.steps,
        SucceededIn row.original step ∨ ProbedAs evidence step .succeeded)
      ∧ (outcome.overallStatus = .failedWithoutEffect → ∀ step ∈ row.plan.steps,
        step.hasEffect = true → ¬ NeverInvoked row.original step →
          ProbedAs evidence step .failedWithoutEffect)
      ∧ outcome.overallStatus ∈ [.succeeded, .failedWithoutEffect, .manualReviewRequired])
    ∧ (Malformed row.expected evidence.pairs →
        ∃ e, verifyReconciliation env row recovery evidence last = .error e) := by
  constructor
  · intro outcome h
    obtain ⟨context, hcontext, h⟩ := bind_eq_ok.mp h
    obtain ⟨verdict, hverdict, h⟩ := bind_eq_ok.mp h
    obtain ⟨_, hvalid, h⟩ := bind_eq_ok.mp h
    obtain ⟨status, hstatus, h⟩ := bind_eq_ok.mp h
    cases h
    have hchecked := checkEvidence_spec hcontext
    rw [require_eq_ok] at hvalid
    rw [hchecked.coverage] at hverdict
    obtain ⟨hsucceeded, hfailed, hmem⟩ := reconcile_spec hverdict
    rcases settledStatus_spec hstatus with rfl | rfl
    · refine ⟨fun heq step hstep => ?_, fun heq step hstep heffect hshown => ?_, hmem⟩
      · obtain ⟨hall, hunproven, huninvoked⟩ := hsucceeded heq
        exact succeeded_sound hchecked hvalid hall hunproven huninvoked hstep
      · obtain ⟨hall, hunprobeable⟩ := hfailed heq
        exact failed_sound hchecked hall hunprobeable
          (mem_invoked hvalid hverified hstep hshown) heffect
    · exact ⟨nofun, nofun, by simp⟩
  · intro hmalformed
    cases hverify : verifyReconciliation env row recovery evidence last with
    | error e => exact ⟨e, rfl⟩
    | ok outcome =>
      obtain ⟨context, hcontext, -⟩ := bind_eq_ok.mp hverify
      exact absurd hmalformed (checkEvidence_spec hcontext).not_malformed

end

/-! ## A write that was lost

The plan reads and then writes; the device reported that the read succeeded and that the outcome
of the write is unknown. A probe finds that the write had no effect. -/

def lostWritePlan : ExecutionPlan where
  planId := "plan-1"
  planHash := "hash-1"
  capabilityId := "simulation.visibility"
  tenantId := "tenant-1"
  deviceId := "device-1"
  runtimeGeneration := 7
  runtimeInstanceId := "runtime-1"
  adapterId := "vismockup"
  adapterMajor := 1
  targetProduct := ⟨"vismockup", [1, 0], [2, 0]⟩
  steps := [
    { stepId := "read", operationId := "vismockup.application.probe@1", contractHash := "h",
      timeoutSeconds := 30, sideEffectClassification := .read },
    { stepId := "write", operationId := "vismockup.visibility.change@1", contractHash := "h",
      timeoutSeconds := 30, sideEffectClassification := .write,
      postConditionProbeId := some "visibility.probe@1" }]
  issuedAt := 0
  expiresAt := 600

def lostWriteOutcome : Outcome where
  planId := "plan-1"
  planHash := "hash-1"
  leaseId := "lease-1"
  tenantId := "tenant-1"
  deviceId := "device-1"
  runtimeGeneration := 7
  runtimeInstanceId := "runtime-1"
  overallStatus := .outcomeUnknown
  steps := [{ stepId := "read", status := .succeeded },
    { stepId := "write", status := .outcomeUnknown, errorCode := some "process_restarted" }]
  journalSequence := 1
  deviceKeyId := "key-1"

def lostWriteRow : ReconciledRow where
  plan := lostWritePlan
  payload _ := .record [("action", .text "all_off")]
  outcome := some (.reported lostWriteOutcome)
  planId := "plan-1"
  planHash := "hash-1"
  leaseId := "lease-1"
  runtimeInstanceId := "runtime-1"
  runtimeGeneration := 7
  deviceId := "device-1"
  tenantId := "tenant-1"

def lostWriteEvidence : ReconciliationEvidence where
  planId := "plan-1"
  planHash := "hash-1"
  leaseId := "lease-1"
  tenantId := "tenant-1"
  deviceId := "device-1"
  runtimeGeneration := 7
  runtimeInstanceId := "runtime-1"
  recoveryInstanceId := "runtime-2"
  recoverySessionId := "digest"
  nonce := "digest"
  probes := [⟨"write", "visibility.probe@1", .failedWithoutEffect, .null⟩]
  journalSequence := 2

noncomputable def lostWriteEnv : ReconciliationEnv where
  format := Classical.arbitrary _
  sha256 _ := "digest"
  wellFormed _ := true
  verifySignature _ := true
  text _ := []
  artifactRef _ := .ok ()

theorem lost_write_verdict : ∃ outcome,
    verifyReconciliation lostWriteEnv lostWriteRow ⟨some "runtime-2", "token"⟩ lostWriteEvidence 1
        = .ok outcome
      ∧ outcome.overallStatus = .failedWithoutEffect
      ∧ ∀ step ∈ lostWritePlan.steps, step.hasEffect = true →
        ¬ NeverInvoked (some lostWriteOutcome) step →
          ProbedAs lostWriteEvidence step .failedWithoutEffect :=
  ⟨_, rfl, rfl, ((verify_sound lostWriteEnv lostWriteRow ⟨some "runtime-2", "token"⟩
    lostWriteEvidence 1 (fun _ h => by cases h; rfl)).1 _ rfl).2.1 rfl⟩

end Ai00.Connector
