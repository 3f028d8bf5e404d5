import Ai00.Basic.KeyedRows
import Ai00.Basic.Checks
import Ai00.Json.Builtins

/-! # Orchestration runs

`OrchestrationRuntime` and the two methods of the orchestration repository that it calls. A run is
started for a published version and advanced from status to status, and each of both writes the row
of the run and an event of its log in one transaction, which an error rolls back.

What the calls read besides runs and events (panoramas, versions, workspaces) is given with each
call, as are the clock and what `uuid4` yields.
-/

namespace Ai00.Agent

open KeyedRows

/-! ## Rows -/

structure OrchPanorama where
  gid : Str
  tenantGid : Str
  projectGid : Str
  ownerUserGid : Str

structure OrchVersion where
  gid : Str
  panoramaGid : Str
  tenantGid : Str
  projectGid : Str
  status : Str

structure OrchWorkspace where
  versionGid : Str
  tenantGid : Str
  projectGid : Str
  definitionJson : Option Json

/-- What a call finds in the tables that it does not write. -/
structure OrchTables where
  panoramas : List OrchPanorama
  versions : List OrchVersion
  workspaces : List OrchWorkspace

structure OrchRun where
  tenantGid : Str
  projectGid : Str
  gid : Str
  panoramaGid : Str
  versionGid : Str
  status : Str
  frozenContext : Json
  startedAt : ℤ
  finishedAt : Option ℤ
  startedBy : Str

structure OrchRunEvent where
  tenantGid : Str
  projectGid : Str
  gid : Str
  runGid : Str
  sequenceNo : ℕ
  eventType : Str
  itemGid : Option Str
  actorType : Str
  actorGid : Option Str
  payload : List (Str × Json)
  capabilityCallId : Option Str
  evidenceId : Option Str
  occurredAt : ℤ

/-- The tables of runs and of events, rows in the order in which they were inserted. -/
structure RunStore where
  runs : List OrchRun
  events : List OrchRunEvent

inductive OrchError where
  | resourceNotAccessible (message : String)
  | invalidTransition (message : Str)
  | integrityError
  | attributeError

/-! ## Statuses -/

def running : Str := "running".toList
def waitingHuman : Str := "waiting_human".toList
def succeeded : Str := "succeeded".toList
def failed : Str := "failed".toList

/-- `_RUN_TRANSITIONS.get(status, set())`. -/
def runTransitions (status : Str) : List Str :=
  if status = "pending".toList then [running, failed]
  else if status = running then [waitingHuman, succeeded, failed]
  else if status = waitingHuman then [running, failed]
  else []

def Terminal (status : Str) : Prop := status = succeeded ∨ status = failed

instance (status : Str) : Decidable (Terminal status) := by
  unfold Terminal
  infer_instance

/-! ## Writing -/

def requireScope (tenantGid projectGid : Option Str) : Except OrchError (Str × Str) := do
  let tenant ← found (tenantGid.filter (· ≠ [])) (.resourceNotAccessible
    "tenant and project scope are required")
  let project ← found (projectGid.filter (· ≠ [])) (.resourceNotAccessible
    "tenant and project scope are required")
  return (tenant, project)

/-- `INSERT` of a run; its gid is the primary key. -/
def RunStore.insertRun (s : RunStore) (r : OrchRun) : Except OrchError RunStore := do
  require (∀ row ∈ s.runs, row.gid ≠ r.gid) .integrityError
  return { s with runs := s.runs ++ [r] }

def RunStore.run? (s : RunStore) (gid tenantGid projectGid : Str) : Option OrchRun :=
  s.runs.find? fun r => r.gid = gid && r.tenantGid = tenantGid && r.projectGid = projectGid

/-- `_insert_run_event`: an event for the run, where it is there; the gid of the event is the primary
key, and no number comes twice in a run. -/
def RunStore.insertRunEvent (s : RunStore) (e : OrchRunEvent) : Except OrchError RunStore :=
  match s.run? e.runGid e.tenantGid e.projectGid with
  | none => .ok s
  | some _ => do
    require (∀ row ∈ s.events, row.gid ≠ e.gid ∧ ¬ (row.runGid = e.runGid
      ∧ row.sequenceNo = e.sequenceNo)) .integrityError
    return { s with events := s.events ++ [e] }

/-- `any(edge.get('relation_semantics') in (...) for edge in edges.values())`. -/
def anyFeedback : List (Str × Json) → Except OrchError Bool
  | [] => .ok false
  | (_, .obj edge) :: edges =>
    match Dict.get? edge "relation_semantics".toList with
    | some (.str semantics) =>
      if semantics ∈ ["feedback".toList, "feedforward".toList] then .ok true
      else anyFeedback edges
    | _ => anyFeedback edges
  | _ :: _ => .error .attributeError

def closedLoop : Json → Except OrchError Bool
  | .obj definition =>
    match Dict.get? definition "edges".toList with
    | none => .ok false
    | some (.obj edges) => anyFeedback edges
    | some _ => .error .attributeError
  | _ => .error .attributeError

structure StartArguments where
  panoramaGid : Str
  versionGid : Str
  frozenContext : Json
  actorGid : Str
  tenantGid : Option Str
  projectGid : Option Str

/-- What `uuid4` yields for the run and for the event of a call, and `NOW(6)`. -/
structure CallContext where
  tables : OrchTables
  runGid : Str
  eventGid : Str
  now : ℤ

/-- The panorama of a row is in the scope and owned by the actor. -/
def OrchTables.Owns (t : OrchTables) (panoramaGid tenantGid projectGid owner : Str) : Prop :=
  ∃ p ∈ t.panoramas, p.gid = panoramaGid ∧ p.ownerUserGid = owner ∧ p.tenantGid = tenantGid
    ∧ p.projectGid = projectGid

instance (t : OrchTables) (panoramaGid tenantGid projectGid owner : Str) :
    Decidable (t.Owns panoramaGid tenantGid projectGid owner) := by
  unfold OrchTables.Owns
  infer_instance

def createRunWithStartedEvent (c : CallContext) (a : StartArguments) (s : RunStore) :
    Except OrchError (RunStore × Str) := do
  let (tenant, project) ← requireScope a.tenantGid a.projectGid
  require (∃ v ∈ c.tables.versions, v.gid = a.versionGid ∧ v.panoramaGid = a.panoramaGid
    ∧ v.status = "published".toList ∧ v.tenantGid = tenant ∧ v.projectGid = project
    ∧ c.tables.Owns v.panoramaGid tenant project a.actorGid)
    (.resourceNotAccessible "published orchestration version is not accessible")
  let workspace := c.tables.workspaces.find? fun w =>
    w.versionGid = a.versionGid && w.tenantGid = tenant && w.projectGid = project
  let closed ← closedLoop ((workspace.bind (·.definitionJson)).getD (.obj []))
  require (closed = false) (.invalidTransition ("closed_loop_execution_not_supported: modelled "
    ++ "feedback requires a governed execution contract").toList)
  let s ← s.insertRun {
    tenantGid := tenant
    projectGid := project
    gid := c.runGid
    panoramaGid := a.panoramaGid
    versionGid := a.versionGid
    status := running
    frozenContext := a.frozenContext
    startedAt := c.now
    finishedAt := none
    startedBy := a.actorGid }
  let s ← s.insertRunEvent {
    tenantGid := tenant
    projectGid := project
    gid := c.eventGid
    runGid := c.runGid
    sequenceNo := 1
    eventType := "started".toList
    itemGid := none
    actorType := "human".toList
    actorGid := some a.actorGid
    payload := []
    capabilityCallId := none
    evidenceId := none
    occurredAt := c.now }
  return (s, c.runGid)

structure AdvanceArguments where
  runGid : Str
  targetStatus : Str
  authorizedPrincipalGid : Str
  actorType : Str
  eventActorGid : Str
  payload : List (Str × Json)
  itemGid : Option Str
  capabilityCallId : Option Str
  evidenceId : Option Str
  tenantGid : Option Str
  projectGid : Option Str

/-- `COALESCE(MAX(sequence_no),0)` over the events of a run. -/
def RunStore.lastSequenceNo (s : RunStore) (runGid tenantGid projectGid : Str) : ℕ :=
  ((s.events.filter fun e =>
    e.runGid = runGid && e.tenantGid = tenantGid && e.projectGid = projectGid).map
      OrchRunEvent.sequenceNo).foldl max 0

/-- `UPDATE` of the status of a run. -/
def RunStore.setStatus (s : RunStore) (runGid tenantGid projectGid target : Str) (now : ℤ) :
    RunStore :=
  { s with runs := s.runs.map fun r =>
      if r.gid = runGid ∧ r.tenantGid = tenantGid ∧ r.projectGid = projectGid then
        { r with status := target, finishedAt := if Terminal target then some now else none }
      else r }

/-- `{"from": current_status, "to": target_status, **payload}`. -/
def eventPayload (current target : Str) (payload : List (Str × Json)) : List (Str × Json) :=
  upsertAll Prod.fst payload [("from".toList, .str current), ("to".toList, .str target)]

def transitionRunWithEvent (c : CallContext) (a : AdvanceArguments) (s : RunStore) :
    Except OrchError (RunStore × ℕ) := do
  let (tenant, project) ← requireScope a.tenantGid a.projectGid
  let run ← found ((s.run? a.runGid tenant project).filter fun r =>
    decide (c.tables.Owns r.panoramaGid tenant project a.authorizedPrincipalGid))
    (.resourceNotAccessible "orchestration run is not accessible")
  require (a.targetStatus ∈ runTransitions run.status) (.invalidTransition
    ("invalid orchestration transition: ".toList ++ run.status ++ " -> ".toList ++ a.targetStatus))
  let sequenceNo := s.lastSequenceNo a.runGid tenant project + 1
  let s := s.setStatus a.runGid tenant project a.targetStatus c.now
  let s ← s.insertRunEvent {
    tenantGid := tenant
    projectGid := project
    gid := c.eventGid
    runGid := a.runGid
    sequenceNo
    eventType := "status_changed".toList
    itemGid := a.itemGid
    actorType := a.actorType
    actorGid := some a.eventActorGid
    payload := eventPayload run.status a.targetStatus a.payload
    capabilityCallId := a.capabilityCallId
    evidenceId := a.evidenceId
    occurredAt := c.now }
  return (s, sequenceNo)

/-! ## Calls -/

/-- A call of `OrchestrationRuntime`, whose `advance` passes on no item, call or evidence. -/
inductive RuntimeCall where
  | start (c : CallContext) (a : StartArguments)
  | advance (c : CallContext) (a : AdvanceArguments)

/-- The tables after a call, which an error leaves as they were. -/
def RunStore.next (s : RunStore) : RuntimeCall → RunStore
  | .start c a => match createRunWithStartedEvent c a s with
      | .ok (s', _) => s'
      | .error _ => s
  | .advance c a =>
    match transitionRunWithEvent c
        { a with itemGid := none, capabilityCallId := none, evidenceId := none } s with
    | .ok (s', _) => s'
    | .error _ => s

end Ai00.Agent
