import Ai00.Connector.CanonicalJson

/-! # The capture delivery queue

`CaptureDeliveryQueue.cs`: captures wait in a local database until the cloud has taken the image
(`RecordUploaded`) and the owner of the document has attached it (`RecordAttached`). Every call
is one immediate transaction, so a schedule of calls is a sequence of transactions, and a call
that throws leaves the tables as they were. Byte sizes and revisions are unbounded here.

A delivery is only ever replaced by a later version of itself (`Change`), and the laws of the
queue are read off the five changes a transaction can make.
-/

namespace Ai00.Connector

/-! ## Values -/

inductive CsException where
  | keyNotFound
  | invalidOperation (message : String)
  | format
  | invalidData (message : String)
  | protocol (message : String)
  | sqlite (message : String)

structure LocalCaptureArtifact where
  path : Units
  mediaType : Units
  sha256 : Units
  byteSize : Int
  width : Int
  height : Int
  attempt : Int
  deriving DecidableEq

structure CaptureDeliveryScope where
  tenantId : Units
  actorId : Units
  projectGid : Units
  bopVersionGid : Units
  bopHash : Units
  modelHash : Units
  deviceId : Units
  documentSession : Units
  captureRunId : Units

inductive DeliveryState where
  | captured
  | uploaded
  | attached
  deriving DecidableEq

/-- A row of `capture_deliveries`; the stored JSON texts as the values they parse to. -/
structure Delivery where
  deliveryId : String
  scopeHash : String
  operationId : Units
  attemptId : Units
  slotId : Units
  capture : LocalCaptureArtifact
  byteSize : Int
  state : DeliveryState
  revision : Int
  artifact : Option (Wire Units) := none
  craft : Option (Wire Units) := none

/-- The two tables; a scope is kept with its flag `cancelled`. -/
structure Queue where
  scopes : List (String × Bool)
  deliveries : List Delivery

/-- The tables as the constructor creates them. -/
def Queue.empty : Queue := ⟨[], []⟩

/-- What the queue is given: its configuration, digests and the printing of numbers. -/
structure QueueEnv where
  maxPendingBytes : Int
  positive : 1 ≤ maxPendingBytes
  /-- The full path starts with the capture root, ignoring case. -/
  underRoot : Units → Bool
  /-- `Hash(JsonSerializer.Serialize(scope))`. -/
  scopeDigest : CaptureDeliveryScope → String
  /-- `Hash(JsonSerializer.Serialize(new[]{pin, operationId, attemptId, slotId}))`. -/
  deliveryDigest : String → Units → Units → Units → String
  sha256 : List UInt8 → String
  format : DecimalFormat
  exponential : Str → Int → Bool

/-! ## Checks -/

/-- `char.IsWhiteSpace`. -/
def isWhiteSpace (u : UInt16) : Bool :=
  let n := u.toNat
  (0x09 ≤ n && n ≤ 0x0D) || n == 0x20 || n == 0x85 || n == 0xA0 || n == 0x1680
    || (0x2000 ≤ n && n ≤ 0x200A) || n == 0x2028 || n == 0x2029 || n == 0x202F || n == 0x205F
    || n == 0x3000

def isNullOrWhiteSpace : Option Units → Bool
  | none => true
  | some s => s.all isWhiteSpace

/-- `Require`. -/
def requireIdentity (value : Units) : Except CsException Unit :=
  if isNullOrWhiteSpace (some value) || 1024 < value.length then
    .error (.invalidData "capture_delivery_identity_invalid")
  else .ok ()

/-- The identities of a scope, in the order they are checked. -/
def CaptureDeliveryScope.identities (scope : CaptureDeliveryScope) : List Units :=
  [scope.tenantId, scope.actorId, scope.projectGid, scope.bopVersionGid, scope.bopHash,
    scope.modelHash, scope.deviceId, scope.documentSession, scope.captureRunId]

/-- `GetProperty`; of members with one name, the last counts. -/
def getProperty (name : String) : Wire Units → Except CsException (Wire Units)
  | .obj members =>
    match members.reverse.find? (fun m => m.1 == units name.toList) with
    | some member => .ok member.2
    | none => .error .keyNotFound
  | _ => .error (.invalidOperation "GetProperty")

def getString : Wire Units → Except CsException (Option Units)
  | .str s => .ok (some s)
  | .null => .ok none
  | _ => .error (.invalidOperation "GetString")

def getInt64 : Wire Units → Except CsException Int
  | .int n => if -2 ^ 63 ≤ n ∧ n < 2 ^ 63 then .ok n else .error .format
  | .double _ => .error .format
  | _ => .error (.invalidOperation "GetInt64")

/-- `receipt.GetProperty(name).GetString()`. -/
def stringProperty (name : String) (receipt : Wire Units) : Except CsException (Option Units) := do
  getString (← getProperty name receipt)

/-- `catch … when(error is KeyNotFoundException or InvalidOperationException or
FormatException)`, rethrown under a message of its own. -/
def rethrown {α : Type} (message : String) : Except CsException α → Except CsException α
  | .error .keyNotFound | .error (.invalidOperation _) | .error .format =>
    .error (.invalidData message)
  | result => result

/-- `if(!condition) throw`. -/
def orThrow (condition : Prop) [Decidable condition] (e : CsException) : Except CsException Unit :=
  if condition then .ok () else .error e

/-- The receipt of an upload names the capture's media type, digest and size, and an artifact. -/
def uploadMatches (capture : LocalCaptureArtifact) (receipt : Wire Units) :
    Except CsException Unit :=
  rethrown "capture_delivery_receipt_invalid" do
    let invalid : CsException := .invalidData "capture_delivery_receipt_invalid"
    orThrow ((← stringProperty "media_type" receipt) = some capture.mediaType) invalid
    orThrow ((← stringProperty "sha256" receipt) = some capture.sha256) invalid
    orThrow ((← getInt64 (← getProperty "byte_size" receipt)) = capture.byteSize) invalid
    orThrow (isNullOrWhiteSpace (← stringProperty "artifact_id" receipt) = false) invalid

/-! ## Statements -/

namespace Queue

def cancelled (queue : Queue) (pin : String) : Bool :=
  ((queue.scopes.find? (fun s => s.1 == pin)).map Prod.snd).getD false

/-- `INSERT OR IGNORE INTO capture_delivery_scopes`. -/
def insertScope (queue : Queue) (pin : String) : Queue :=
  if queue.scopes.any (fun s => s.1 == pin) then queue
  else { queue with scopes := queue.scopes ++ [(pin, false)] }

def find (queue : Queue) (pin id : String) : Option Delivery :=
  queue.deliveries.find? (fun d => d.scopeHash == pin && d.deliveryId == id)

/-- `COALESCE(SUM(byte_size),0) … WHERE state<>'attached'`. -/
def pendingBytes (queue : Queue) : Int :=
  ((queue.deliveries.filter (fun d => d.state != .attached)).map Delivery.byteSize).sum

/-- `INSERT INTO capture_deliveries`, under its primary key. -/
def insertDelivery (queue : Queue) (d : Delivery) : Except CsException Queue :=
  if queue.deliveries.any (fun e => e.deliveryId == d.deliveryId) then
    .error (.sqlite "UNIQUE constraint failed: capture_deliveries.delivery_id")
  else .ok { queue with deliveries := queue.deliveries ++ [d] }

/-- The rows of `WHERE delivery_id=$id AND scope_hash=$pin AND revision=$revision`. -/
def selects (pin id : String) (revision : Int) (d : Delivery) : Bool :=
  d.deliveryId == id && d.scopeHash == pin && d.revision == revision

/-- `UPDATE capture_deliveries`, and the check that one row was changed. -/
def update (queue : Queue) (pin id : String) (revision : Int) (change : Delivery → Delivery) :
    Except CsException Queue :=
  if (queue.deliveries.filter (selects pin id revision)).length ≠ 1 then
    .error (.invalidOperation "capture_delivery_revision_conflict")
  else .ok { queue with
    deliveries := queue.deliveries.map
      (fun d => if selects pin id revision d then change d else d) }

end Queue

/-! ## Transactions -/

section

variable (env : QueueEnv)

def QueueEnv.scopeHash (scope : CaptureDeliveryScope) : Except CsException String := do
  scope.identities.forM requireIdentity
  return env.scopeDigest scope

/-- `Verify`; `fileMatches` is what reading the file finds: no link on its path, a PNG header of
the given dimensions, the length and the digest. -/
def verifyCapture (fileMatches : Except CsException Unit) (capture : LocalCaptureArtifact) :
    Except CsException Unit := do
  orThrow (env.underRoot capture.path = true ∧ capture.mediaType = units "image/png".toList
    ∧ 24 ≤ capture.byteSize ∧ capture.byteSize ≤ 100 * 1024 * 1024
    ∧ 1 ≤ capture.width ∧ 1 ≤ capture.height) (.invalidData "capture_delivery_file_invalid")
  fileMatches

def enqueue (queue : Queue) (scope : CaptureDeliveryScope) (operationId attemptId slotId : Units)
    (capture : LocalCaptureArtifact) (fileMatches : Except CsException Unit) :
    Except CsException (Queue × Delivery) := do
  let pin ← env.scopeHash scope
  requireIdentity operationId
  requireIdentity attemptId
  requireIdentity slotId
  verifyCapture env fileMatches capture
  let id := env.deliveryDigest pin operationId attemptId slotId
  let opened := queue.insertScope pin
  orThrow (opened.cancelled pin = false) (.invalidOperation "capture_delivery_cancelled")
  match opened.find pin id with
  | some old =>
    orThrow (old.capture = capture) (.invalidData "capture_delivery_conflict")
    -- returned without a commit: the transaction is rolled back
    return (queue, old)
  | none =>
    orThrow (opened.pendingBytes + capture.byteSize ≤ env.maxPendingBytes)
      (.invalidOperation "capture_delivery_backpressure")
    let item : Delivery := {
      deliveryId := id, scopeHash := pin, operationId := operationId, attemptId := attemptId,
      slotId := slotId, capture := capture, byteSize := capture.byteSize, state := .captured,
      revision := 1 }
    let next ← opened.insertDelivery item
    return (next, item)

def QueueEnv.hash (value : Wire Units) : Except CsException String :=
  match serialize env.format env.exponential value with
  | .ok bytes => .ok ("sha256:" ++ env.sha256 bytes)
  | .error message => .error (.protocol message)

def QueueEnv.isRetry (old : Delivery) (receipt : Wire Units) : Except CsException Bool :=
  match old.state, old.artifact with
  | .uploaded, some prior => do return (← env.hash prior) == (← env.hash receipt)
  | _, _ => .ok false

def recordUploaded (queue : Queue) (scope : CaptureDeliveryScope) (id : String) (revision : Int)
    (receipt : Wire Units) : Except CsException (Queue × Delivery) := do
  let pin ← env.scopeHash scope
  match queue.find pin id with
  | none => throw (.invalidOperation "capture_delivery_scope_mismatch")
  | some old =>
    uploadMatches old.capture receipt
    if ← env.isRetry old receipt then return (queue, old)
    orThrow (old.state = .captured ∧ old.revision = revision)
      (.invalidOperation "capture_delivery_revision_conflict")
    let next ← queue.update pin id revision (fun d =>
      { d with state := .uploaded, artifact := some receipt, revision := d.revision + 1 })
    return (next, { old with
      state := .uploaded, revision := revision + 1, artifact := some receipt })

/-- The craft receipt names this attachment: a screenshot, the scope's version and run, the
operation and the uploaded artifact. -/
def attachmentMatches (scope : CaptureDeliveryScope) (old : Delivery) (receipt : Wire Units) :
    Except CsException Unit :=
  rethrown "capture_delivery_craft_receipt_invalid" do
    let invalid : CsException := .invalidData "capture_delivery_craft_receipt_invalid"
    orThrow (isNullOrWhiteSpace (← stringProperty "screenshot_gid" receipt) = false) invalid
    orThrow ((← stringProperty "bop_version_gid" receipt) = some scope.bopVersionGid) invalid
    orThrow ((← stringProperty "operation_id" receipt) = some old.operationId) invalid
    orThrow ((← stringProperty "capture_run_id" receipt) = some scope.captureRunId) invalid
    match old.artifact with
    | none => throw invalid
    | some artifact =>
      let named ← env.hash (← getProperty "artifact_ref" receipt)
      orThrow (named = (← env.hash artifact)) invalid

def recordAttached (queue : Queue) (scope : CaptureDeliveryScope) (id : String) (revision : Int)
    (receipt : Wire Units) : Except CsException (Queue × Delivery) := do
  let pin ← env.scopeHash scope
  orThrow (queue.cancelled pin = false) (.invalidOperation "capture_delivery_cancelled")
  match queue.find pin id with
  | none => throw (.invalidOperation "capture_delivery_scope_mismatch")
  | some old =>
    attachmentMatches env scope old receipt
    if old.state = .attached then return (queue, old)
    orThrow (old.state = .uploaded ∧ old.revision = revision)
      (.invalidOperation "capture_delivery_revision_conflict")
    let next ← queue.update pin id revision (fun d =>
      { d with state := .attached, revision := d.revision + 1, craft := some receipt })
    return (next, { old with
      state := .attached, revision := revision + 1, craft := some receipt })

def cancel (queue : Queue) (scope : CaptureDeliveryScope) : Except CsException Queue := do
  let pin ← env.scopeHash scope
  return { queue with
    scopes := if queue.scopes.any (fun s => s.1 == pin) then
        queue.scopes.map (fun s => if s.1 == pin then (s.1, true) else s)
      else queue.scopes ++ [(pin, true)] }

/-! ## Runs -/

inductive QueueCall where
  | enqueue (scope : CaptureDeliveryScope) (operationId attemptId slotId : Units)
      (capture : LocalCaptureArtifact) (fileMatches : Except CsException Unit)
  | recordUploaded (scope : CaptureDeliveryScope) (id : String) (revision : Int)
      (receipt : Wire Units)
  | recordAttached (scope : CaptureDeliveryScope) (id : String) (revision : Int)
      (receipt : Wire Units)
  | cancel (scope : CaptureDeliveryScope)

/-- The tables after a call; a call that throws rolls back. -/
def Queue.after (queue : Queue) : QueueCall → Queue
  | .enqueue scope operationId attemptId slotId capture fileMatches =>
    match Ai00.Connector.enqueue env queue scope operationId attemptId slotId capture
      fileMatches with
    | .ok (next, _) => next
    | .error _ => queue
  | .recordUploaded scope id revision receipt =>
    match Ai00.Connector.recordUploaded env queue scope id revision receipt with
    | .ok (next, _) => next
    | .error _ => queue
  | .recordAttached scope id revision receipt =>
    match Ai00.Connector.recordAttached env queue scope id revision receipt with
    | .ok (next, _) => next
    | .error _ => queue
  | .cancel scope =>
    match Ai00.Connector.cancel env queue scope with
    | .ok next => next
    | .error _ => queue

def queueRun (calls : List QueueCall) : Queue := calls.foldl (fun q call => q.after env call) .empty

end

/-! ## What a transaction changes -/

variable {env : QueueEnv} {queue next : Queue}

theorem orThrow_eq_ok_iff {p : Prop} [Decidable p] {e : CsException} : orThrow p e = .ok () ↔ p := by
  rw [orThrow]
  split_ifs with h
  · exact iff_of_true rfl h
  · exact iff_of_false (fun h => by cases h) h

theorem rethrown_eq_ok_iff {α : Type} {message : String} {r : Except CsException α} {a : α} :
    rethrown message r = .ok a ↔ r = .ok a := by
  unfold rethrown
  split <;> simp

/-- The receipt names the capture's digest, size and media type. -/
structure Certifies (receipt : Wire Units) (capture : LocalCaptureArtifact) : Prop where
  digest : stringProperty "sha256" receipt = .ok (some capture.sha256)
  size : (getProperty "byte_size" receipt >>= getInt64) = .ok capture.byteSize
  mediaType : stringProperty "media_type" receipt = .ok (some capture.mediaType)

variable {receipt : Wire Units}

theorem certifies_of_uploadMatches {capture : LocalCaptureArtifact}
    (h : uploadMatches capture receipt = .ok ()) : Certifies receipt capture := by
  rw [uploadMatches, rethrown_eq_ok_iff] at h
  simp only [bind_eq_ok] at h
  obtain ⟨mediaType, hmedia, _, hmediaType, digest, hdigest, _, hsha, property, hproperty, size, hsize, _, hbytes, h⟩ := h
  rw [orThrow_eq_ok_iff] at hmediaType hsha hbytes
  subst hmediaType hsha hbytes
  exact ⟨hdigest, bind_eq_ok.mpr ⟨property, hproperty, hsize⟩, hmedia⟩

def Delivery.slot (d : Delivery) : String × Units × Units × Units :=
  (d.scopeHash, d.operationId, d.attemptId, d.slotId)

def Queue.replace (queue : Queue) (id : String) (change : Delivery → Delivery) : Queue :=
  { queue with
    deliveries := queue.deliveries.map (fun d => if d.deliveryId = id then change d else d) }

/-- What a transaction can do to the tables. -/
inductive Change (env : QueueEnv) (queue : Queue) : Queue → Prop where
  | same : Change env queue queue
  | enqueued {pin : String} {d : Delivery}
      (id : d.deliveryId = env.deliveryDigest d.scopeHash d.operationId d.attemptId d.slotId)
      (new : d.deliveryId ∉ queue.deliveries.map Delivery.deliveryId)
      (state : d.state = .captured) (revision : d.revision = 1)
      (size : d.byteSize = d.capture.byteSize) (positive : 0 ≤ d.byteSize)
      (budget : queue.pendingBytes + d.byteSize ≤ env.maxPendingBytes) :
      Change env queue ⟨(queue.insertScope pin).scopes, queue.deliveries ++ [d]⟩
  | uploaded {d : Delivery} {receipt : Wire Units} (mem : d ∈ queue.deliveries)
      (state : d.state = .captured) (certified : Certifies receipt d.capture) :
      Change env queue (queue.replace d.deliveryId (fun d =>
        { d with state := .uploaded, artifact := some receipt, revision := d.revision + 1 }))
  | attached {d : Delivery} {receipt : Wire Units} (mem : d ∈ queue.deliveries)
      (state : d.state = .uploaded) (live : queue.cancelled d.scopeHash = false) :
      Change env queue (queue.replace d.deliveryId (fun d =>
        { d with state := .attached, revision := d.revision + 1, craft := some receipt }))
  | cancelled (pin : String) :
      Change env queue { queue with
        scopes := if queue.scopes.any (fun s => s.1 == pin) then
            queue.scopes.map (fun s => if s.1 == pin then (s.1, true) else s)
          else queue.scopes ++ [(pin, true)] }

/-! ## The tables of a queue -/

/-- The invariant of the tables. -/
structure Queue.Valid (env : QueueEnv) (queue : Queue) : Prop where
  ids : (queue.deliveries.map Delivery.deliveryId).Nodup
  digests : ∀ d ∈ queue.deliveries,
    d.deliveryId = env.deliveryDigest d.scopeHash d.operationId d.attemptId d.slotId
  sizes : ∀ d ∈ queue.deliveries, d.byteSize = d.capture.byteSize ∧ 0 ≤ d.byteSize
  receipts : ∀ d ∈ queue.deliveries, d.state ≠ .captured →
    ∃ receipt, d.artifact = some receipt ∧ Certifies receipt d.capture
  budget : queue.pendingBytes ≤ env.maxPendingBytes

theorem Queue.insertScope_deliveries (pin : String) :
    (queue.insertScope pin).deliveries = queue.deliveries := by
  rw [insertScope]
  split_ifs <;> rfl

theorem Queue.pendingBytes_congr {other : Queue} (h : queue.deliveries = other.deliveries) :
    queue.pendingBytes = other.pendingBytes := by
  rw [pendingBytes, pendingBytes, h]

theorem Queue.mem_of_find {pin id : String} {d : Delivery} (h : queue.find pin id = some d) :
    d ∈ queue.deliveries ∧ d.scopeHash = pin ∧ d.deliveryId = id := by
  have hfound := List.find?_some h
  simp only [Bool.and_eq_true, beq_iff_eq] at hfound
  exact ⟨List.mem_of_find?_eq_some h, hfound⟩

/-- With distinct identifiers, the guarded update replaces the delivery that was read. -/
theorem Queue.update_spec (hids : (queue.deliveries.map Delivery.deliveryId).Nodup)
    {pin id : String} {revision : Int} {change : Delivery → Delivery} {old : Delivery}
    (hfind : queue.find pin id = some old) (hrevision : old.revision = revision)
    (h : queue.update pin id revision change = .ok next) : next = queue.replace id change := by
  rw [update] at h
  split_ifs at h
  cases h
  obtain ⟨hold, hpin, hid⟩ := mem_of_find hfind
  rw [replace]
  congr 1
  refine List.map_congr_left fun d hd => ?_
  by_cases hsame : d.deliveryId = id
  · have heq : d = old := List.inj_on_of_nodup_map hids hd hold (hsame.trans hid.symm)
    have hselects : selects pin id revision d = true := by
      simp [selects, heq, hpin, hid, hrevision]
    rw [if_pos hselects, if_pos hsame]
  · have hselects : selects pin id revision d = false := by simp [selects, hsame]
    rw [hselects, if_neg hsame]
    rfl

variable {scope : CaptureDeliveryScope}

variable {item : Delivery}

theorem enqueue_change {operationId attemptId slotId : Units}
    {capture : LocalCaptureArtifact} {fileMatches : Except CsException Unit}
    (h : enqueue env queue scope operationId attemptId slotId capture fileMatches
      = .ok (next, item)) : Change env queue next := by
  obtain ⟨pin, -, h⟩ := bind_eq_ok.mp h
  obtain ⟨_, -, h⟩ := bind_eq_ok.mp h
  obtain ⟨_, -, h⟩ := bind_eq_ok.mp h
  obtain ⟨_, -, h⟩ := bind_eq_ok.mp h
  obtain ⟨_, hverified, h⟩ := bind_eq_ok.mp h
  obtain ⟨_, -, h⟩ := bind_eq_ok.mp h
  obtain ⟨_, hcapture, -⟩ := bind_eq_ok.mp hverified
  rw [orThrow_eq_ok_iff] at hcapture
  split at h
  · obtain ⟨_, -, h⟩ := bind_eq_ok.mp h
    cases h
    exact .same
  · obtain ⟨_, hbudget, h⟩ := bind_eq_ok.mp h
    obtain ⟨inserted, hinserted, h⟩ := bind_eq_ok.mp h
    cases h
    rw [orThrow_eq_ok_iff, Queue.pendingBytes_congr (Queue.insertScope_deliveries pin)] at hbudget
    rw [Queue.insertDelivery] at hinserted
    split_ifs at hinserted with hnew
    cases hinserted
    simp only [Queue.insertScope_deliveries] at hnew ⊢
    have hpositive : 0 ≤ capture.byteSize := by omega
    apply Change.enqueued
    · rfl
    · intro hmem
      obtain ⟨e, he, hid⟩ := List.mem_map.mp hmem
      exact hnew (List.any_eq_true.mpr ⟨e, he, by simpa using hid⟩)
    · rfl
    · rfl
    · rfl
    · exact hpositive
    · exact hbudget

section

variable (hvalid : queue.Valid env)
include hvalid

theorem recordUploaded_change {id : String} {revision : Int}
    (h : recordUploaded env queue scope id revision receipt = .ok (next, item)) :
    Change env queue next := by
  obtain ⟨pin, -, h⟩ := bind_eq_ok.mp h
  split at h
  · cases h
  · rename_i old hfind
    obtain ⟨_, hmatches, h⟩ := bind_eq_ok.mp h
    obtain ⟨retry, -, h⟩ := bind_eq_ok.mp h
    cases retry with
    | true =>
      cases h
      exact .same
    | false =>
      obtain ⟨_, hstate, h⟩ := bind_eq_ok.mp h
      obtain ⟨updated, hupdate, h⟩ := bind_eq_ok.mp h
      cases h
      rw [orThrow_eq_ok_iff] at hstate
      obtain ⟨hold, -, hid⟩ := Queue.mem_of_find hfind
      rw [Queue.update_spec hvalid.ids hfind hstate.2 hupdate, ← hid]
      exact .uploaded hold hstate.1 (certifies_of_uploadMatches hmatches)

theorem recordAttached_change {id : String} {revision : Int}
    (h : recordAttached env queue scope id revision receipt = .ok (next, item)) :
    Change env queue next := by
  obtain ⟨pin, -, h⟩ := bind_eq_ok.mp h
  obtain ⟨_, hlive, h⟩ := bind_eq_ok.mp h
  split at h
  · cases h
  · rename_i old hfind
    obtain ⟨_, -, h⟩ := bind_eq_ok.mp h
    by_cases hattached : old.state = .attached
    · rw [if_pos hattached] at h
      cases h
      exact .same
    · rw [if_neg hattached] at h
      obtain ⟨_, hstate, h⟩ := bind_eq_ok.mp h
      obtain ⟨updated, hupdate, h⟩ := bind_eq_ok.mp h
      cases h
      rw [orThrow_eq_ok_iff] at hstate hlive
      obtain ⟨hold, hpin, hid⟩ := Queue.mem_of_find hfind
      rw [Queue.update_spec hvalid.ids hfind hstate.2 hupdate, ← hid]
      exact .attached hold hstate.1 (hpin ▸ hlive)

/-- Every call changes the tables in one of five ways. -/
theorem after_change (call : QueueCall) : Change env queue (queue.after env call) := by
  unfold Queue.after
  split
  · split
    · rename_i h
      exact enqueue_change h
    · exact .same
  · split
    · rename_i h
      exact recordUploaded_change hvalid h
    · exact .same
  · split
    · rename_i h
      exact recordAttached_change hvalid h
    · exact .same
  · split
    · rename_i h
      obtain ⟨pin, -, h⟩ := bind_eq_ok.mp h
      cases h
      exact .cancelled pin
    · exact .same

end

/-! ## The invariant holds -/

/-- A delivery that is replaced keeps its slot and its capture. -/
structure SameDelivery (d e : Delivery) : Prop where
  id : e.deliveryId = d.deliveryId
  slot : e.slot = d.slot
  capture : e.capture = d.capture
  size : e.byteSize = d.byteSize

theorem Queue.mem_replace {id : String} {change : Delivery → Delivery} {e : Delivery}
    (h : e ∈ (queue.replace id change).deliveries) :
    ∃ d ∈ queue.deliveries, (d.deliveryId ≠ id ∧ e = d) ∨ (d.deliveryId = id ∧ e = change d) := by
  obtain ⟨d, hd, heq⟩ := List.mem_map.mp h
  refine ⟨d, hd, ?_⟩
  by_cases hid : d.deliveryId = id
  · exact Or.inr ⟨hid, by rw [← heq, if_pos hid]⟩
  · exact Or.inl ⟨hid, by rw [← heq, if_neg hid]⟩

section

variable {change : Delivery → Delivery} (hchange : ∀ d, SameDelivery d (change d))
include hchange

theorem Queue.ids_replace (id : String) :
    (queue.replace id change).deliveries.map Delivery.deliveryId
      = queue.deliveries.map Delivery.deliveryId := by
  rw [replace, List.map_map]
  refine List.map_congr_left fun d _ => ?_
  simp only [Function.comp]
  split_ifs
  · exact (hchange d).id
  · rfl

/-- A replacement that only goes towards `attached` frees bytes and takes none. -/
theorem Queue.pendingBytes_replace_le (id : String)
    (hstate : ∀ d ∈ queue.deliveries, d.deliveryId = id → d.state ≠ .attached)
    (hsizes : ∀ d ∈ queue.deliveries, 0 ≤ d.byteSize) :
    (queue.replace id change).pendingBytes ≤ queue.pendingBytes := by
  simp only [pendingBytes, replace]
  generalize queue.deliveries = deliveries at hstate hsizes
  induction deliveries with
  | nil => exact le_refl _
  | cons d rest ih =>
    have ih := ih (fun e he => hstate e (List.mem_cons_of_mem _ he))
      (fun e he => hsizes e (List.mem_cons_of_mem _ he))
    have hsize := hsizes d List.mem_cons_self
    have hsame := (hchange d).size
    rw [List.map_cons, List.filter_cons, List.filter_cons]
    by_cases hid : d.deliveryId = id
    · have hopen : (d.state != .attached) = true := by
        simpa using hstate d List.mem_cons_self hid
      rw [if_pos hid, if_pos hopen, List.map_cons, List.sum_cons]
      by_cases hnow : ((change d).state != .attached) = true
      · rw [if_pos hnow, List.map_cons, List.sum_cons, hsame]
        exact add_le_add_right ih _
      · rw [if_neg hnow]
        omega
    · rw [if_neg hid]
      by_cases hopen : (d.state != .attached) = true
      · rw [if_pos hopen, if_pos hopen, List.map_cons, List.sum_cons, List.map_cons, List.sum_cons]
        exact add_le_add_right ih _
      · rw [if_neg hopen, if_neg hopen]
        exact ih

/-- Replacing a delivery keeps the invariant when the new version has its receipt. -/
theorem Queue.Valid.replace (hvalid : queue.Valid env) {d : Delivery} (hd : d ∈ queue.deliveries)
    (hstate : d.state ≠ .attached)
    (hreceipt : ∃ receipt, (change d).artifact = some receipt ∧ Certifies receipt d.capture) :
    (queue.replace d.deliveryId change).Valid env where
  ids := by rw [ids_replace hchange]; exact hvalid.ids
  digests := by
    intro e he
    obtain ⟨f, hf, ⟨-, rfl⟩ | ⟨-, rfl⟩⟩ := mem_replace he
    · exact hvalid.digests e hf
    · have hslot := (hchange f).slot
      simp only [Delivery.slot, Prod.mk.injEq] at hslot
      rw [(hchange f).id, hslot.1, hslot.2.1, hslot.2.2.1, hslot.2.2.2]
      exact hvalid.digests f hf
  sizes := by
    intro e he
    obtain ⟨f, hf, ⟨-, rfl⟩ | ⟨-, rfl⟩⟩ := mem_replace he
    · exact hvalid.sizes e hf
    · rw [(hchange f).size, (hchange f).capture]
      exact hvalid.sizes f hf
  receipts := by
    intro e he hopen
    obtain ⟨f, hf, ⟨-, rfl⟩ | ⟨hid, rfl⟩⟩ := mem_replace he
    · exact hvalid.receipts e hf hopen
    · have heq : f = d := List.inj_on_of_nodup_map hvalid.ids hf hd hid
      rw [(hchange f).capture, heq]
      exact hreceipt
  budget := by
    refine le_trans (pendingBytes_replace_le hchange _ (fun e he hid => ?_)
      (fun e he => (hvalid.sizes e he).2)) hvalid.budget
    rwa [List.inj_on_of_nodup_map hvalid.ids he hd hid]

end

theorem sameDelivery_uploaded (receipt : Wire Units) (d : Delivery) : SameDelivery d
      { d with state := .uploaded, artifact := some receipt, revision := d.revision + 1 } :=
  ⟨rfl, rfl, rfl, rfl⟩

theorem sameDelivery_attached (receipt : Wire Units) (d : Delivery) : SameDelivery d
      { d with state := .attached, revision := d.revision + 1, craft := some receipt } :=
  ⟨rfl, rfl, rfl, rfl⟩

theorem Queue.Valid.of_deliveries (hvalid : queue.Valid env)
    (h : next.deliveries = queue.deliveries) : next.Valid env where
  ids := h ▸ hvalid.ids
  digests := h ▸ hvalid.digests
  sizes := h ▸ hvalid.sizes
  receipts := h ▸ hvalid.receipts
  budget := by rw [pendingBytes_congr h]; exact hvalid.budget

theorem Queue.pendingBytes_append (deliveries : List Delivery) {d : Delivery}
    (hstate : d.state = .captured) (scopes others : List (String × Bool)) :
    pendingBytes ⟨scopes, deliveries ++ [d]⟩ = pendingBytes ⟨others, deliveries⟩ + d.byteSize := by
  have hopen : (d.state != .attached) = true := by simp [hstate]
  simp [pendingBytes, List.filter_append, hopen]

theorem Change.valid (hvalid : queue.Valid env) (h : Change env queue next) :
    next.Valid env := by
  cases h with
  | same => exact hvalid
  | cancelled pin => exact hvalid.of_deliveries rfl
  | uploaded mem state certified =>
    refine hvalid.replace (sameDelivery_uploaded _) mem ?_ ⟨_, rfl, certified⟩
    rw [state]
    decide
  | attached mem state live =>
    have hreceipt := hvalid.receipts _ mem (by rw [state]; decide)
    refine hvalid.replace (sameDelivery_attached _) mem ?_ hreceipt
    rw [state]
    decide
  | @enqueued pin d id new state revision size positive budget =>
    constructor
    · rw [List.map_append, List.nodup_append]
      refine ⟨hvalid.ids, List.nodup_singleton _, ?_⟩
      intro a ha b hb
      rw [List.mem_singleton.mp hb]
      exact fun heq => new (heq ▸ ha)
    · intro e he
      rcases List.mem_append.mp he with he | he
      · exact hvalid.digests e he
      · rw [List.mem_singleton.mp he]
        exact id
    · intro e he
      rcases List.mem_append.mp he with he | he
      · exact hvalid.sizes e he
      · rw [List.mem_singleton.mp he]
        exact ⟨size, positive⟩
    · intro e he hopen
      rcases List.mem_append.mp he with he | he
      · exact hvalid.receipts e he hopen
      · rw [List.mem_singleton.mp he] at hopen
        exact absurd state hopen
    · rw [Queue.pendingBytes_append _ state _ queue.scopes]
      exact budget

theorem Queue.valid_empty : Queue.empty.Valid env where
  ids := List.nodup_nil
  digests _ h := absurd h List.not_mem_nil
  sizes _ h := absurd h List.not_mem_nil
  receipts _ h := absurd h List.not_mem_nil
  budget := le_trans (by decide) env.positive

theorem queueRun_append (calls : List QueueCall) (call : QueueCall) :
    queueRun env (calls ++ [call]) = (queueRun env calls).after env call := by
  rw [queueRun, List.foldl_append]
  rfl

theorem queueRun_valid (calls : List QueueCall) : (queueRun env calls).Valid env := by
  induction calls using List.reverseRecOn with
  | nil => exact Queue.valid_empty
  | append_singleton calls call ih =>
    rw [queueRun_append]
    exact (after_change ih call).valid ih

/-! ## The laws of the queue -/

/-- One delivery for each scope, operation, attempt and slot. -/
def Queue.OnePerSlot (queue : Queue) : Prop := (queue.deliveries.map Delivery.slot).Nodup

/-- Uploaded and attached deliveries hold a receipt of their capture. -/
def Queue.HoldsReceipts (queue : Queue) : Prop :=
  ∀ d ∈ queue.deliveries, d.state = .uploaded ∨ d.state = .attached →
    ∃ receipt, d.artifact = some receipt ∧ Certifies receipt d.capture

/-- The size of the captures not yet attached. -/
def Queue.pendingCaptures (queue : Queue) : Int :=
  ((queue.deliveries.filter (fun d => d.state != .attached)).map (·.capture.byteSize)).sum

/-- `captured` to `uploaded` to `attached`, one revision at a time. -/
inductive Delivery.Advances (d e : Delivery) : Prop where
  | upload (before : d.state = .captured) (after : e.state = .uploaded)
      (revision : e.revision = d.revision + 1) : Delivery.Advances d e
  | attach (before : d.state = .uploaded) (after : e.state = .attached)
      (revision : e.revision = d.revision + 1) : Delivery.Advances d e

/-- What one call may do: deliveries stay for their slots, with their captures, as they are or
advanced; new ones start as captured; and nothing of a cancelled scope becomes attached. -/
structure CallLaw (queue next : Queue) : Prop where
  kept : ∀ d ∈ queue.deliveries, ∃ e ∈ next.deliveries,
    e.slot = d.slot ∧ e.capture = d.capture ∧ (e = d ∨ d.Advances e)
  fresh : ∀ e ∈ next.deliveries, e.slot ∉ queue.deliveries.map Delivery.slot →
    e.state = .captured ∧ e.revision = 1
  cancelled : ∀ pin, queue.cancelled pin = true → next.cancelled pin = true
  attached : ∀ e ∈ next.deliveries, e.state = .attached → queue.cancelled e.scopeHash = true →
    ∃ d ∈ queue.deliveries, d.slot = e.slot ∧ d.state = .attached

/-- What any number of calls may do. -/
structure RunLaw (queue later : Queue) : Prop where
  kept : ∀ d ∈ queue.deliveries, ∃ e ∈ later.deliveries, e.slot = d.slot ∧ e.capture = d.capture
  attached : ∀ e ∈ later.deliveries, e.state = .attached → queue.cancelled e.scopeHash = true →
    ∃ d ∈ queue.deliveries, d.slot = e.slot ∧ d.state = .attached

theorem Queue.Valid.onePerSlot (hvalid : queue.Valid env) : queue.OnePerSlot := by
  rw [OnePerSlot]
  refine List.Nodup.of_map
    (fun slot => env.deliveryDigest slot.1 slot.2.1 slot.2.2.1 slot.2.2.2) ?_
  rw [List.map_map]
  have hdigests : queue.deliveries.map Delivery.deliveryId = queue.deliveries.map
      ((fun slot => env.deliveryDigest slot.1 slot.2.1 slot.2.2.1 slot.2.2.2) ∘ Delivery.slot) :=
    List.map_congr_left hvalid.digests
  exact hdigests ▸ hvalid.ids

theorem Queue.Valid.pendingCaptures (hvalid : queue.Valid env) :
    queue.pendingCaptures = queue.pendingBytes := by
  rw [Queue.pendingCaptures, pendingBytes]
  congr 1
  refine List.map_congr_left fun d hd => ?_
  exact (hvalid.sizes d (List.mem_of_mem_filter hd)).1.symm

theorem Queue.find_scope_mark (scopes : List (String × Bool)) (pin p : String) :
    (scopes.map (fun s => if s.1 == pin then (s.1, true) else s)).find? (fun s => s.1 == p)
      = (scopes.find? (fun s => s.1 == p)).map (fun s => if s.1 == pin then (s.1, true) else s) := by
  rw [List.find?_map]
  congr 2
  funext s
  simp only [Function.comp]
  split_ifs <;> rfl

theorem Change.cancelled_of_cancelled (h : Change env queue next) {pin : String}
    (hcancelled : queue.cancelled pin = true) : next.cancelled pin = true := by
  rw [Queue.cancelled, Option.getD_eq_iff] at hcancelled
  obtain hcancelled | ⟨-, hfalse⟩ := hcancelled
  swap
  · cases hfalse
  obtain ⟨s, hfound, hs⟩ := Option.map_eq_some_iff.mp hcancelled
  have happend : ∀ other, ((queue.scopes ++ [other]).find? (fun s => s.1 == pin)) = some s := by
    intro other
    rw [List.find?_append, hfound]
    rfl
  cases h with
  | same => simp [Queue.cancelled, hfound, hs]
  | uploaded | attached => simp [Queue.cancelled, Queue.replace, hfound, hs]
  | @enqueued p d =>
    rw [Queue.cancelled, Queue.insertScope]
    split_ifs
    · simp [hfound, hs]
    · simp [happend, hs]
  | cancelled p =>
    rw [Queue.cancelled]
    split_ifs
    · rw [Queue.find_scope_mark, hfound]
      have hmarked : (if s.1 == p then (s.1, true) else s).2 = true := by
        split_ifs
        · rfl
        · exact hs
      rw [Option.map_some, Option.map_some, hmarked]
      rfl
    · simp [happend, hs]

section

variable {change : Delivery → Delivery} (hchange : ∀ d, SameDelivery d (change d))
include hchange

theorem Queue.slots_replace (id : String) :
    (queue.replace id change).deliveries.map Delivery.slot
      = queue.deliveries.map Delivery.slot := by
  rw [replace, List.map_map]
  refine List.map_congr_left fun d _ => ?_
  simp only [Function.comp]
  split_ifs
  · exact (hchange d).slot
  · rfl

/-- Replacing a delivery by a later version obeys the law of a call, if what becomes attached is
of a live scope. -/
theorem CallLaw.replace (hids : (queue.deliveries.map Delivery.deliveryId).Nodup) {d : Delivery}
    (hd : d ∈ queue.deliveries) (hadvances : d.Advances (change d))
    (hlive : (change d).state = .attached → queue.cancelled d.scopeHash = false) :
    CallLaw queue (queue.replace d.deliveryId change) where
  kept := by
    intro e he
    have hmem := List.mem_map_of_mem
      (f := fun e => if e.deliveryId = d.deliveryId then change e else e) he
    refine ⟨_, hmem, ?_⟩
    by_cases hid : e.deliveryId = d.deliveryId
    · have heq : e = d := List.inj_on_of_nodup_map hids he hd hid
      rw [if_pos hid]
      exact ⟨(hchange e).slot, (hchange e).capture, Or.inr (heq ▸ hadvances)⟩
    · rw [if_neg hid]
      exact ⟨rfl, rfl, Or.inl rfl⟩
  fresh := by
    intro e he hnew
    rw [← Queue.slots_replace hchange d.deliveryId] at hnew
    exact absurd (List.mem_map_of_mem he) hnew
  cancelled := fun _ h => h
  attached := by
    intro e he hattached hcancelled
    obtain ⟨f, hf, ⟨-, rfl⟩ | ⟨hid, rfl⟩⟩ := Queue.mem_replace he
    · exact ⟨e, hf, rfl, hattached⟩
    · have heq : f = d := List.inj_on_of_nodup_map hids hf hd hid
      have hscope : (change f).scopeHash = f.scopeHash := congrArg Prod.fst (hchange f).slot
      rw [hscope, heq, hlive (heq ▸ hattached)] at hcancelled
      cases hcancelled

end

theorem CallLaw.refl (queue : Queue) : CallLaw queue queue where
  kept d hd := ⟨d, hd, rfl, rfl, Or.inl rfl⟩
  fresh _ he hnew := absurd (List.mem_map_of_mem he) hnew
  cancelled _ h := h
  attached e he hattached _ := ⟨e, he, rfl, hattached⟩

theorem Change.callLaw (hvalid : queue.Valid env) (h : Change env queue next) :
    CallLaw queue next := by
  have hcancelled : ∀ pin, queue.cancelled pin = true → next.cancelled pin = true :=
    fun _ => h.cancelled_of_cancelled
  cases h with
  | same => exact .refl queue
  | cancelled pin => exact { CallLaw.refl queue with cancelled := hcancelled }
  | uploaded mem state certified =>
    exact .replace (sameDelivery_uploaded _) hvalid.ids mem (.upload state rfl rfl) nofun
  | attached mem state live =>
    exact .replace (sameDelivery_attached _) hvalid.ids mem (.attach state rfl rfl) fun _ => live
  | @enqueued pin d id new state revision size positive budget =>
    refine ⟨fun e he => ?_, fun e he hnew => ?_, hcancelled, fun e he hattached _ => ?_⟩
    · exact ⟨e, List.mem_append_left _ he, rfl, rfl, Or.inl rfl⟩
    · rcases List.mem_append.mp he with he | he
      · exact absurd (List.mem_map_of_mem he) hnew
      · rw [List.mem_singleton.mp he]
        exact ⟨state, revision⟩
    · rcases List.mem_append.mp he with he | he
      · exact ⟨e, he, rfl, hattached⟩
      · rw [List.mem_singleton.mp he, state] at hattached
        cases hattached

theorem RunLaw.refl (queue : Queue) : RunLaw queue queue where
  kept d hd := ⟨d, hd, rfl, rfl⟩
  attached e he hattached _ := ⟨e, he, rfl, hattached⟩

theorem runLaw_append (calls more : List QueueCall) : RunLaw (queueRun env calls) (queueRun env (calls ++ more))
      ∧ ∀ pin, (queueRun env calls).cancelled pin = true →
        (queueRun env (calls ++ more)).cancelled pin = true := by
  induction more using List.reverseRecOn with
  | nil =>
    rw [List.append_nil]
    exact ⟨.refl _, fun _ h => h⟩
  | append_singleton more call ih =>
    obtain ⟨hlaw, hstill⟩ := ih
    have hvalid : (queueRun env (calls ++ more)).Valid env := queueRun_valid _
    have hcall := (after_change hvalid call).callLaw hvalid
    rw [← List.append_assoc, queueRun_append]
    refine ⟨⟨fun d hd => ?_, fun e he hattached hcancelled => ?_⟩,
      fun pin h => hcall.cancelled pin (hstill pin h)⟩
    · obtain ⟨e, he, hslot, hcapture⟩ := hlaw.kept d hd
      obtain ⟨f, hf, hslot', hcapture', -⟩ := hcall.kept e he
      exact ⟨f, hf, hslot'.trans hslot, hcapture'.trans hcapture⟩
    · obtain ⟨f, hf, hslot, hbefore⟩ := hcall.attached e he hattached (hstill _ hcancelled)
      have hscope : f.scopeHash = e.scopeHash := congrArg Prod.fst hslot
      obtain ⟨d, hd, hslot', hfirst⟩ := hlaw.attached f hf hbefore (hscope ▸ hcancelled)
      exact ⟨d, hd, hslot'.trans hslot, hfirst⟩

/-- **The laws of the capture queue.** After any calls there is one delivery for a slot, uploaded
and attached deliveries hold a receipt of their capture, and the captures not yet attached fit
the budget. Every further call keeps each delivery with its capture or advances it by one state
and one revision, and nothing of a scope that is cancelled becomes attached any more. -/
theorem capture_queue_laws (env : QueueEnv) (calls : List QueueCall) :
    (queueRun env calls).OnePerSlot
      ∧ (queueRun env calls).HoldsReceipts
      ∧ (queueRun env calls).pendingCaptures ≤ env.maxPendingBytes
      ∧ (∀ call, CallLaw (queueRun env calls) ((queueRun env calls).after env call))
      ∧ ∀ more, RunLaw (queueRun env calls) (queueRun env (calls ++ more)) := by
  have hvalid : (queueRun env calls).Valid env := queueRun_valid calls
  refine ⟨hvalid.onePerSlot, fun d hd hstate => ?_, ?_, fun call => ?_, fun more => ?_⟩
  · refine hvalid.receipts d hd ?_
    rcases hstate with h | h <;> rw [h] <;> decide
  · rw [hvalid.pendingCaptures]
    exact hvalid.budget
  · exact (after_change hvalid call).callLaw hvalid
  · exact (runLaw_append calls more).1

end Ai00.Connector
