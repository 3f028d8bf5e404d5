import Ai00.Basic.KeyedRows
import Ai00.Basic.RecordText
import Ai00.Basic.Rows

/-! # The viewer interaction journal

`ViewerInteractionJournal` records each request of a viewer before it is carried out and again
with its outcome, one entry a line, and drops entries when the server has acknowledged them, by
writing the others to a new file that takes the place of the old one. A start reads the file;
requests whose outcome is not there have an unknown one. A file whose last line is torn, or that
is longer than the limit, is not appended to.
-/

namespace Ai00.Connector.ViewerJournal

open KeyedRows RecordLines

/-- `ViewerInteractionResponse`; its result and timings are JSON texts. -/
structure ViewerInteractionResponse where
  requestId : String
  status : String
  result : Option String := none
  errorCode : Option String := none
  timings : Option String := none
  deriving DecidableEq

/-- `ViewerInteractionJournalEntry`. -/
structure Entry where
  grantId : String
  interactionId : String
  requestId : String
  sequence : Nat
  requestDigest : String
  operationId : String
  outcome : Option ViewerInteractionResponse := none
  acknowledged : Bool := false

/-- What `Admit` reads of a `ViewerInteractionRequest`. -/
structure ViewerInteractionRequest where
  interactionId : String
  requestId : String
  sequence : Nat
  digest : String
  operationId : String

def Entry.key (e : Entry) : String × String := (e.interactionId, e.requestId)

def ViewerInteractionResponse.isUnknown (o : ViewerInteractionResponse) : Bool :=
  o.status == "outcome_unknown"

def Entry.isUnknown (e : Entry) : Bool := e.outcome.any ViewerInteractionResponse.isUnknown

/-- The journal of a process. -/
structure ViewerInteractionJournal where
  entries : List Entry := []
  watermarks : String → Nat := fun _ => 0
  requestIds : List String := []
  closedSessions : List String := []
  unacknowledged : Int := 0
  pendingOutcomes : Int := 0
  unknown : Bool := false
  broken : Bool := false

namespace ViewerInteractionJournal

def hasUnknown (j : ViewerInteractionJournal) : Bool := j.broken || j.unknown

/-! ## Opening the file -/

/-- The outcome of a request that a start finds without one. -/
def recoveredOutcome (requestId : String) : ViewerInteractionResponse where
  requestId := requestId
  status := "outcome_unknown"
  errorCode := some "process_recovery_outcome_unknown"
  timings := some "\x7b\"total_ms\":0,\"com_ms\":0,\"journal_ms\":0\x7d"

def recover (e : Entry) : Entry := { e with outcome := some (recoveredOutcome e.requestId) }

/-- The entries of the constructor's second loop. -/
def recovered (entries : List Entry) : List Entry :=
  (entries.filter (fun e => e.outcome.isNone)).map recover

def load (j : ViewerInteractionJournal) (entry : Entry) : ViewerInteractionJournal :=
  { j with
    entries := upsert Entry.key entry j.entries
    requestIds := j.requestIds.insert entry.requestId
    watermarks := Function.update j.watermarks entry.interactionId
      (max (j.watermarks entry.interactionId) entry.sequence) }

section

variable (codec : LineCodec Entry) (maxRequests maxBytes : Nat)

/-- The constructor's first loop; the second component is whether it read every line. -/
def loadLines : ViewerInteractionJournal → List Bytes → ViewerInteractionJournal × Bool
  | j, [] => (j, true)
  | j, line :: rest => match codec.decode line with
    | none => (j, false)
    | some entry => loadLines (j.load entry) rest

/-- The constructor: the journal, and the entries it appends to the file. -/
def openFile (file : Bytes) : ViewerInteractionJournal × List Entry :=
  if maxBytes < file.length then ({ broken := true }, [])
  else
    let truncated := !endsFeed file
    let bytes := if truncated then wholeLines file else file
    match loadLines codec { broken := truncated } (feedLines bytes) with
    | (j, false) => ({ j with broken := true }, [])
    | (j, true) =>
      let entries := upsertAll Entry.key (recovered j.entries) j.entries
      ({ j with
        entries := entries
        unacknowledged := entries.countP (fun e => !e.acknowledged)
        pendingOutcomes := entries.countP (fun e => !e.acknowledged && e.outcome.isSome)
        unknown := entries.any Entry.isUnknown },
        if truncated then [] else recovered j.entries)

def maximumBytes : Nat := 65536

/-- `Admit`, when the file has `length` bytes: the journal after it, and the entry it appends. -/
def admitRequest (j : ViewerInteractionJournal) (length : Nat) (request : ViewerInteractionRequest)
    (grantId : String) : Except String (ViewerInteractionJournal × Entry) :=
  if j.broken then .error "journal_unavailable"
  else if maxRequests ≤ j.unacknowledged || maxBytes < length + 2 * maximumBytes then
    .error "journal_backpressure"
  else if request.requestId ∈ j.requestIds then .error "request_id_conflict"
  else if request.sequence ≤ j.watermarks request.interactionId then .error "sequence_stale"
  else
    let entry : Entry := { request with grantId, requestDigest := request.digest }
    .ok ({ j with
      entries := j.entries ++ [entry]
      watermarks := Function.update j.watermarks request.interactionId request.sequence
      requestIds := j.requestIds.insert request.requestId
      unacknowledged := j.unacknowledged + 1 }, entry)

def complete (j : ViewerInteractionJournal) (interaction request : String)
    (outcome : ViewerInteractionResponse) : Except String (ViewerInteractionJournal × Entry) :=
  match lookup Entry.key (interaction, request) j.entries with
  | none => .error "KeyNotFoundException"
  | some e =>
    if e.outcome.isSome then .error "outcome_already_recorded"
    else
      let entry := { e with outcome := some outcome }
      .ok ({ j with
        entries := upsert Entry.key entry j.entries
        pendingOutcomes := j.pendingOutcomes + 1
        unknown := j.unknown || outcome.isUnknown }, entry)

def acknowledges (requestIds : List String) (e : Entry) : Bool :=
  requestIds.contains e.requestId && !e.acknowledged

/-- What becomes of an entry; the entries of a closed session go when they are acknowledged. -/
def acknowledge (closed requestIds : List String) (e : Entry) : Option Entry :=
  if acknowledges requestIds e then
    if closed.contains e.interactionId then none else some { e with acknowledged := true }
  else some e

/-- `AcknowledgeBatch`: the journal after it, and the entries of the file it moves into place. -/
def acknowledgeBatch (j : ViewerInteractionJournal) (requestIds : List String) :
    Except String (ViewerInteractionJournal × List Entry) :=
  if requestIds.any (fun id =>
      !j.entries.any (fun e => e.requestId == id && e.outcome.isSome)) then
    .error "audit_ack_invalid"
  else
    let count := (j.entries.filter (acknowledges requestIds)).length
    .ok ({ j with
      entries := j.entries.filterMap (acknowledge j.closedSessions requestIds)
      unacknowledged := j.unacknowledged - count
      pendingOutcomes := j.pendingOutcomes - count },
      j.entries.filter (fun e => !e.acknowledged && !requestIds.contains e.requestId))

def closeSession (j : ViewerInteractionJournal) (interaction : String) :
    ViewerInteractionJournal :=
  { j with
    closedSessions := j.closedSessions.insert interaction
    entries := j.entries.filter (fun e => !(e.interactionId == interaction && e.acknowledged)) }

end

end ViewerInteractionJournal

/-! ## Histories -/

/-- A request whose `Admit` returned and that is not acknowledged. Its entry has the outcome with
which `Complete` returned; `attempted` are the outcomes of calls that crashed. -/
structure Owed where
  entry : Entry
  attempted : List ViewerInteractionResponse := []

/-- The file, the journal of the process that runs, the requests it admitted, and the requests
owed to the server. -/
structure JournalWorld where
  file : Bytes := []
  process : Option ViewerInteractionJournal := none
  admitted : List ViewerInteractionRequest := []
  owed : List Owed := []

/-- A `cut` is a crash that leaves so many of the appended bytes; `moved` is a crash in a
compaction and whether the new file is in place. -/
inductive JournalStep where
  | opens (cut : Option Nat)
  | admits (request : ViewerInteractionRequest) (grantId : String) (cut : Option Nat)
  | completes (interaction request : String) (outcome : ViewerInteractionResponse)
      (cut : Option Nat)
  | acknowledges (requestIds : List String) (moved : Option Bool)
  | closes (interaction : String)
  | stops

/-- What a call on `key` leaves of a request: the outcome when it returns, else the attempt. -/
def Owed.complete (o : Owed) (key : String × String) (outcome : ViewerInteractionResponse)
    (returned : Bool) : Owed :=
  if o.entry.key = key then
    if returned then { o with entry := { o.entry with outcome := some outcome } }
    else { o with attempted := o.attempted ++ [outcome] }
  else o

section

variable (codec : LineCodec Entry) (maxRequests maxBytes : Nat)

/-- `Append`, of one entry after another. -/
def JournalWorld.append (w : JournalWorld) (entries : List Entry) (cut : Option Nat) : Bytes :=
  w.file ++ match cut with
    | none => render codec entries
    | some n => (render codec entries).take n

def JournalWorld.step (w : JournalWorld) : JournalStep → JournalWorld
  | .opens cut =>
    let (j, entries) := ViewerInteractionJournal.openFile codec maxBytes w.file
    { w with
      file := w.append codec entries cut
      process := if cut.isNone then some j else none
      admitted := [] }
  | .admits request grantId cut => match w.process with
    | none => w
    | some j => match j.admitRequest maxRequests maxBytes w.file.length request grantId with
      | .error _ => w
      | .ok (j, entry) =>
        { file := w.append codec [entry] cut
          process := if cut.isNone then some j else none
          admitted := if cut.isNone then w.admitted ++ [request] else w.admitted
          owed := if cut.isNone then w.owed ++ [{ entry }] else w.owed }
  | .completes interaction request outcome cut => match w.process with
    | none => w
    | some j => match j.complete interaction request outcome with
      | .error _ => w
      | .ok (j, entry) =>
        { w with
          file := w.append codec [entry] cut
          process := if cut.isNone then some j else none
          owed := w.owed.map (fun o => o.complete entry.key outcome cut.isNone) }
  | .acknowledges requestIds moved => match w.process with
    | none => w
    | some j => match j.acknowledgeBatch requestIds with
      | .error _ => w
      | .ok (j, retained) =>
        if moved = some false then { w with process := none }
        else
          { w with
            file := render codec retained
            process := if moved.isNone then some j else none
            owed := w.owed.filter (fun o => !requestIds.contains o.entry.requestId) }
  | .closes interaction => { w with process := w.process.map (·.closeSession interaction) }
  | .stops => { w with process := none }

def JournalWorld.run (w : JournalWorld) (steps : List JournalStep) : JournalWorld :=
  steps.foldl (JournalWorld.step codec maxRequests maxBytes) w

end

/-! ## What is kept -/

def Owed.Allows (o : Owed) (outcome : Option ViewerInteractionResponse) : Prop :=
  outcome = o.entry.outcome
    ∨ o.entry.outcome = none ∧ ∃ r, outcome = some r ∧ (r.isUnknown = true ∨ r ∈ o.attempted)

/-- The entry of an owed request is found, with an outcome it may have. -/
def Owed.Held (o : Owed) (find : String × String → Option Entry) : Prop :=
  ∃ outcome, find o.entry.key = some { o.entry with outcome := outcome } ∧ o.Allows outcome

section

variable (codec : LineCodec Entry) (maxRequests maxBytes : Nat)

/-- The file is not longer than the limit when it is opened. -/
def fitsStep (w : JournalWorld) : JournalStep → Bool
  | .opens _ => decide (w.file.length ≤ maxBytes)
  | _ => true

def fitsRun : JournalWorld → List JournalStep → Bool
  | _, [] => true
  | w, step :: steps =>
    fitsStep maxBytes w step && fitsRun (w.step codec maxRequests maxBytes step) steps

end

/-! ## The records of the file -/

/-- The last record of each key. -/
def latest (records : List Entry) (k : String × String) : Option Entry :=
  lookup Entry.key k records.reverse

theorem latest_concat (records : List Entry) (e : Entry) (k : String × String) :
    latest (records ++ [e]) k = if e.key = k then some e else latest records k :=
  lookup_concat_reverse

theorem latest_append (records more : List Entry) (k : String × String) :
    latest (records ++ more) k = (latest more k).or (latest records k) := lookup_append_reverse

namespace ViewerInteractionJournal

/-- Every entry the second loop makes is the last record of its key, recovered. -/
theorem mem_recovered {records : List Entry} {e : Entry}
    (h : e ∈ recovered (upsertAll Entry.key records [])) :
    ∃ r, latest records r.key = some r ∧ r.outcome = none ∧ e = recover r := by
  obtain ⟨r, hr, rfl⟩ := List.mem_map.mp h
  obtain ⟨hmem, hnone⟩ := List.mem_filter.mp hr
  have hfind : lookup Entry.key r.key (upsertAll Entry.key records []) = some r :=
    lookup_of_mem (nodup_upsertAll List.nodup_nil) hmem
  rw [lookup_upsertAll, lookup_nil, Option.or_none] at hfind
  exact ⟨r, hfind, by simpa using hnone, rfl⟩

theorem recover_key (e : Entry) : (recover e).key = e.key := rfl

end ViewerInteractionJournal

open ViewerInteractionJournal

variable {o : Owed}

theorem Owed.Held.recovered {records more : List Entry} (h : o.Held (latest records))
    (hmore : ∀ e ∈ more, ∃ r, latest records r.key = some r ∧ r.outcome = none ∧ e = recover r) :
    o.Held (latest (records ++ more)) := by
  obtain ⟨outcome, hfind, hallows⟩ := h
  unfold Owed.Held
  rw [latest_append]
  cases hlast : latest more o.entry.key with
  | none => exact ⟨outcome, hfind, hallows⟩
  | some e =>
    obtain ⟨r, hr, hnone, rfl⟩ := hmore e (List.mem_reverse.mp (mem_of_lookup hlast))
    have hkey : (recover r).key = o.entry.key := key_of_lookup hlast
    rw [recover_key] at hkey
    rw [hkey, hfind] at hr
    cases hr
    -- the outcome was not there, and is unknown now
    subst hnone
    refine ⟨some (recoveredOutcome o.entry.requestId), rfl, Or.inr ⟨?_, _, rfl, Or.inl rfl⟩⟩
    rcases hallows with heq | ⟨-, r, hr, -⟩
    · exact heq.symm
    · cases hr

/-! ## Opening -/

section

variable {codec : LineCodec Entry} {maxBytes : Nat}

theorem loadLines_encode (j : ViewerInteractionJournal) (records : List Entry) :
    loadLines codec j (records.map codec.encode) = (records.foldl load j, true) := by
  induction records generalizing j with
  | nil => rfl
  | cons e records ih =>
    rw [List.map_cons, loadLines, codec.decode_encode]
    exact ih _

theorem foldl_load (j : ViewerInteractionJournal) (records : List Entry) :
    (records.foldl load j).entries = upsertAll Entry.key records j.entries
      ∧ (records.foldl load j).broken = j.broken
      ∧ ∀ id, (id ∈ j.requestIds ∨ ∃ r ∈ records, r.requestId = id) → id ∈ (records.foldl load j).requestIds := by
  induction records generalizing j with
  | nil =>
    refine ⟨rfl, rfl, fun id hid => ?_⟩
    rcases hid with hid | ⟨r, hr, -⟩
    · exact hid
    · cases hr
  | cons e records ih =>
    obtain ⟨hentries, hbroken, hids⟩ := ih (j.load e)
    refine ⟨hentries, hbroken, fun id hid => hids id ?_⟩
    rcases hid with hid | ⟨r, hr, rfl⟩
    · exact Or.inl (List.mem_insert_of_mem hid)
    · rcases List.mem_cons.mp hr with rfl | hr
      · exact Or.inl List.mem_insert_self
      · exact Or.inr ⟨r, hr, rfl⟩

/-- The entries the constructor ends with. -/
def openedEntries (records : List Entry) : List Entry :=
  upsertAll Entry.key (recovered (upsertAll Entry.key records []))
    (upsertAll Entry.key records [])

theorem openFile_eq {records : List Entry} {rest file : Bytes}
    (hfile : file = render codec records ++ rest) (hrest : lf ∉ rest)
    (hfits : file.length ≤ maxBytes) : ∃ j,
    openFile codec maxBytes file = (j, if rest = [] then recovered (upsertAll Entry.key records []) else [])
      ∧ j.entries = openedEntries records
      ∧ j.broken = decide (rest ≠ [])
      ∧ (∀ r ∈ records, r.requestId ∈ j.requestIds)
      ∧ j.unacknowledged = j.entries.countP (fun e => !e.acknowledged)
      ∧ j.pendingOutcomes = j.entries.countP (fun e => !e.acknowledged && e.outcome.isSome)
      ∧ j.unknown = j.entries.any Entry.isUnknown := by
  have hends : endsFeed file = decide (rest = []) := by
    by_cases hempty : rest = []
    · rw [hfile, hempty, List.append_nil, endsFeed_render]
      rfl
    · rw [hfile, endsFeed_append hempty hrest]
      simp [hempty]
  have hbytes : (if (!endsFeed file) = true then wholeLines file else file)
      = render codec records := by
    by_cases hempty : rest = []
    · rw [hends, hfile]
      simp [hempty]
    · rw [hends, hfile, wholeLines_append (endsFeed_render records) hrest]
      simp [hempty]
  have htruncated : (!endsFeed file) = decide (rest ≠ []) := by
    rw [hends, decide_not]
  obtain ⟨hentries, hbroken, hids⟩ := foldl_load { broken := decide (rest ≠ []) } records
  unfold openFile
  rw [if_neg (not_lt.mpr hfits)]
  simp only [hbytes]
  rw [htruncated, feedLines_render, loadLines_encode]
  simp only [hentries]
  refine ⟨_, Prod.ext rfl ?_, rfl, hbroken, fun r hr => hids _ (Or.inr ⟨r, hr, rfl⟩), rfl, rfl, rfl⟩
  by_cases hempty : rest = [] <;> simp [hempty]

end

variable {e : Entry}

theorem outcome_openedEntries {records : List Entry} (h : e ∈ openedEntries records) :
    e.outcome.isSome = true := by
  have hkeys : ((upsertAll Entry.key records []).map Entry.key).Nodup :=
    nodup_upsertAll List.nodup_nil
  have hfind := lookup_of_mem (nodup_upsertAll hkeys) h
  rw [lookup_upsertAll] at hfind
  cases hlast : lookup Entry.key e.key (recovered (upsertAll Entry.key records [])).reverse with
  | some x =>
    rw [hlast, Option.some_or] at hfind
    cases hfind
    obtain ⟨r, -, -, rfl⟩ := mem_recovered (List.mem_reverse.mp (mem_of_lookup hlast))
    rfl
  | none =>
    rw [hlast, Option.none_or] at hfind
    by_contra hnone
    have hin : recover e ∈ recovered (upsertAll Entry.key records []) :=
      List.mem_map_of_mem (List.mem_filter.mpr ⟨mem_of_lookup hfind, by simpa using hnone⟩)
    exact lookup_eq_none_iff.mp hlast (recover e) (List.mem_reverse.mpr hin) rfl

theorem lookup_openedEntries (records : List Entry) (k : String × String) :
    lookup Entry.key k (openedEntries records)
      = latest (records ++ recovered (upsertAll Entry.key records [])) k := by
  unfold openedEntries
  rw [latest_append, lookup_upsertAll, lookup_upsertAll, lookup_nil, Option.or_none]
  rfl

theorem mem_openedEntries {records : List Entry} (h : e ∈ openedEntries records) :
    ∃ r ∈ records, e.requestId = r.requestId ∧ e.interactionId = r.interactionId
      ∧ e.acknowledged = r.acknowledged := by
  rcases mem_upsertAll h with h | h
  · obtain ⟨r, hr, -, rfl⟩ := mem_recovered h
    exact ⟨r, List.mem_reverse.mp (mem_of_lookup hr), rfl, rfl, rfl⟩
  · rcases mem_upsertAll h with h | h
    · exact ⟨e, h, rfl, rfl, rfl⟩
    · cases h

/-! ## The invariant -/

/-- The file holds these records and the beginning of one more; they have an entry for each owed
request. -/
structure Stored (codec : LineCodec Entry) (w : JournalWorld) (records : List Entry)
    (rest : Bytes) : Prop where
  file : w.file = render codec records ++ rest
  rest : lf ∉ rest
  ids : ∀ r ∈ records, ∀ s ∈ records, r.requestId = s.requestId →
    r.interactionId = s.interactionId
  unacknowledged : ∀ r ∈ records, r.acknowledged = false
  held : ∀ o ∈ w.owed, o.entry.acknowledged = false ∧ o.Held (latest records)

/-- The journal of the process agrees with the file as far as requests are owed, and knows every
request it has seen. -/
structure Running (w : JournalWorld) (records : List Entry) (rest : Bytes)
    (j : ViewerInteractionJournal) : Prop where
  held : ∀ o ∈ w.owed, o.Held (lookup Entry.key · j.entries)
  keys : (j.entries.map Entry.requestId).Nodup
  recorded : ∀ r ∈ records, r.requestId ∈ j.requestIds
  known : ∀ e ∈ j.entries, e.requestId ∈ j.requestIds
  agree : ∀ e ∈ j.entries, ∀ r ∈ records, e.requestId = r.requestId →
    e.interactionId = r.interactionId
  acknowledged : ∀ e ∈ j.entries, e.acknowledged = true → e.outcome.isSome = true
  unacknowledgedCount : j.unacknowledged = j.entries.countP (fun e => !e.acknowledged)
  pendingCount :
    j.pendingOutcomes = j.entries.countP (fun e => !e.acknowledged && e.outcome.isSome)
  unknown : ∀ e ∈ j.entries, e.isUnknown = true → j.hasUnknown = true
  torn : rest ≠ [] → j.broken = true ∧ ∀ e ∈ j.entries, e.outcome.isSome = true
  admitted : ∀ a ∈ w.admitted, a.requestId ∈ j.requestIds
    ∧ a.sequence ≤ j.watermarks a.interactionId

/-- **The invariant** of the histories in which the file fits. -/
structure Safe (codec : LineCodec Entry) (w : JournalWorld) : Prop where
  journal : ∃ records rest, Stored codec w records rest
    ∧ ∀ j, w.process = some j → Running w records rest j
  requestIds : (w.admitted.map ViewerInteractionRequest.requestId).Nodup
  sequences : w.admitted.Pairwise fun a b => a.interactionId = b.interactionId →
    a.sequence < b.sequence

variable {entries : List Entry}

theorem nodup_key (h : (entries.map Entry.requestId).Nodup) :
    (entries.map Entry.key).Nodup := by
  refine List.Nodup.map_on (fun e he f hf hkey => ?_) h.of_map
  exact List.inj_on_of_nodup_map h he hf (Prod.ext_iff.mp hkey).2

theorem nodup_openedEntries {records : List Entry} (h : ∀ r ∈ records, ∀ s ∈ records,
    r.requestId = s.requestId → r.interactionId = s.interactionId) :
    ((openedEntries records).map Entry.requestId).Nodup := by
  have hkeys : ((openedEntries records).map Entry.key).Nodup :=
    nodup_upsertAll (nodup_upsertAll List.nodup_nil)
  refine List.Nodup.map_on (fun e he f hf hid => ?_) hkeys.of_map
  obtain ⟨r, hr, hrid, hrinteraction, -⟩ := mem_openedEntries he
  obtain ⟨s, hs, hsid, hsinteraction, -⟩ := mem_openedEntries hf
  have hinteraction := h r hr s hs (hrid.symm.trans (hid.trans hsid))
  have hkey : e.key = f.key :=
    Prod.ext (hrinteraction.trans (hinteraction.trans hsinteraction.symm)) hid
  exact List.inj_on_of_nodup_map hkeys he hf hkey

section

variable {codec : LineCodec Entry} {maxRequests maxBytes : Nat} {w : JournalWorld}
  {records : List Entry} {rest : Bytes} {j : ViewerInteractionJournal}

/-- What a write leaves behind whole lines: some of its entries, and the beginning of one. -/
theorem append_eq (hfile : w.file = render codec records) (entries : List Entry)
    (cut : Option Nat) : ∃ k rest,
    w.append codec entries cut = render codec (records ++ entries.take k) ++ rest ∧ lf ∉ rest
      ∧ (cut = none → entries.take k = entries ∧ rest = []) := by
  cases cut with
  | none =>
    refine ⟨entries.length, [], ?_, List.not_mem_nil, fun _ => ⟨List.take_length, rfl⟩⟩
    rw [JournalWorld.append, hfile, List.take_length, render_append, List.append_nil]
  | some n =>
    obtain ⟨k, rest, htake, hrest⟩ : ∃ k rest, (render codec entries).take n
        = render codec (entries.take k) ++ rest ∧ lf ∉ rest := take_render entries n
    refine ⟨k, rest, ?_, hrest, nofun⟩
    rw [JournalWorld.append, hfile, render_append, List.append_assoc]
    exact congrArg _ htake

theorem Stored.closed (h : Stored codec w records rest) (hrest : rest = []) :
    w.file = render codec records := by
  rw [h.file, hrest, List.append_nil]

/-- A start reads the records, and records what it recovers behind them. -/
theorem Safe.opens (h : Safe codec w) (hfits : w.file.length ≤ maxBytes) (cut : Option Nat) :
    Safe codec (w.step codec maxRequests maxBytes (.opens cut)) := by
  obtain ⟨records, rest, hstored, -⟩ := h.journal
  obtain ⟨j, hopen, hentries, hbroken, hids, hunack, hpending, hunknown⟩ :=
    openFile_eq hstored.file hstored.rest hfits
  have hrecovered : ∀ e ∈ recovered (upsertAll Entry.key records []),
      ∃ r, latest records r.key = some r ∧ r.outcome = none ∧ e = recover r :=
    fun e he => mem_recovered he
  have hsource : ∀ {r : Entry}, latest records r.key = some r → r ∈ records :=
    fun hr => List.mem_reverse.mp (mem_of_lookup hr)
  -- the records there are after the write, and what is left of one more
  obtain ⟨more, rest', hmore, hfile, hrest, hwhole⟩ : ∃ more rest',
      (∀ e ∈ more, e ∈ recovered (upsertAll Entry.key records []))
      ∧ w.append codec (if rest = [] then recovered (upsertAll Entry.key records []) else []) cut
        = render codec (records ++ more) ++ rest' ∧ lf ∉ rest' ∧ (cut = none → rest' = rest) := by
    by_cases hempty : rest = []
    · obtain ⟨k, rest', hfile, hrest, hwhole⟩ := append_eq (hstored.closed hempty)
        (recovered (upsertAll Entry.key records [])) cut
      rw [if_pos hempty]
      exact ⟨_, rest', fun e he => List.mem_of_mem_take he, hfile, hrest,
        fun hcut => (hwhole hcut).2.trans hempty.symm⟩
    · refine ⟨[], rest, fun _ he => absurd he List.not_mem_nil, ?_, hstored.rest, fun _ => rfl⟩
      rw [if_neg hempty, List.append_nil, ← hstored.file]
      cases cut <;> simp [JournalWorld.append, render]
  have hin : ∀ e ∈ records ++ more, ∃ r ∈ records, e.requestId = r.requestId
      ∧ e.interactionId = r.interactionId ∧ e.acknowledged = r.acknowledged := by
    intro e he
    rcases List.mem_append.mp he with he | he
    · exact ⟨e, he, rfl, rfl, rfl⟩
    · obtain ⟨r, hr, -, rfl⟩ := hrecovered e (hmore e he)
      exact ⟨r, hsource hr, rfl, rfl, rfl⟩
  rw [JournalWorld.step, hopen]
  refine ⟨⟨records ++ more, rest', ⟨hfile, hrest, ?_, ?_, ?_⟩, ?_⟩, List.nodup_nil, .nil⟩
  · intro e he f hf hid
    obtain ⟨r, hr, hrid, hrinteraction, -⟩ := hin e he
    obtain ⟨s, hs, hsid, hsinteraction, -⟩ := hin f hf
    rw [hrinteraction, hsinteraction]
    exact hstored.ids r hr s hs (hrid.symm.trans (hid.trans hsid))
  · intro e he
    obtain ⟨r, hr, -, -, hack⟩ := hin e he
    rw [hack]
    exact hstored.unacknowledged r hr
  · intro o ho
    obtain ⟨hack, hheld⟩ := hstored.held o ho
    exact ⟨hack, hheld.recovered fun e he => hrecovered e (hmore e he)⟩
  · intro j' hj'
    simp only at hj'
    split_ifs at hj' with hcut
    cases hj'
    rw [Option.isNone_iff_eq_none] at hcut
    rw [hwhole hcut]
    refine ⟨fun o ho => ?_, ?_, ?_, ?_, ?_, ?_, hunack, hpending, ?_, ?_, fun _ ha => absurd ha List.not_mem_nil⟩
    · simp only [hentries, lookup_openedEntries]
      exact (hstored.held o ho).2.recovered hrecovered
    · rw [hentries]
      exact nodup_openedEntries hstored.ids
    · intro e he
      obtain ⟨r, hr, hid, -⟩ := hin e he
      rw [hid]
      exact hids r hr
    · intro e he
      rw [hentries] at he
      obtain ⟨r, hr, hid, -⟩ := mem_openedEntries he
      rw [hid]
      exact hids r hr
    · intro e he f hf hid
      rw [hentries] at he
      obtain ⟨r, hr, hrid, hrinteraction, -⟩ := mem_openedEntries he
      obtain ⟨s, hs, hsid, hsinteraction, -⟩ := hin f hf
      rw [hrinteraction, hsinteraction]
      exact hstored.ids r hr s hs (hrid.symm.trans (hid.trans hsid))
    · intro e he hack
      rw [hentries] at he
      exact outcome_openedEntries he
    · intro e he hknown
      have hany : j.unknown = true := hunknown.trans (List.any_eq_true.mpr ⟨e, he, hknown⟩)
      simp [hasUnknown, hany]
    · intro hne
      refine ⟨by rw [hbroken]; simpa using hne, fun e he => ?_⟩
      rw [hentries] at he
      exact outcome_openedEntries he

variable {entry : Entry} {j' : ViewerInteractionJournal}

variable {request : ViewerInteractionRequest}

/-- What `Admit` does when it admits. -/
theorem admit_eq_ok {length : Nat} {grantId : String}
    (h : j.admitRequest maxRequests maxBytes length request grantId = .ok (j', entry)) :
    j.broken = false ∧ request.requestId ∉ j.requestIds ∧ j.watermarks request.interactionId < request.sequence
      ∧ entry = { request with grantId, requestDigest := request.digest }
      ∧ j' = { j with
        entries := j.entries ++ [entry]
        watermarks := Function.update j.watermarks request.interactionId request.sequence
        requestIds := j.requestIds.insert request.requestId
        unacknowledged := j.unacknowledged + 1 } := by
  unfold admitRequest at h
  split_ifs at h with hbroken hroom hknown hstale
  cases h
  exact ⟨by simpa using hbroken, hknown, not_le.mp hstale, rfl, rfl⟩

theorem Owed.Held.latest_of_new (h : o.Held (latest records))
    (hne : e.key ≠ o.entry.key) : o.Held (latest (records ++ [e])) := by
  obtain ⟨outcome, hfind, hallows⟩ := h
  refine ⟨outcome, ?_, hallows⟩
  rw [latest_concat, if_neg hne]
  exact hfind

theorem Owed.Held.mem (h : o.Held (lookup Entry.key · entries)) :
    ∃ outcome, { o.entry with outcome := outcome } ∈ entries ∧ o.Allows outcome := by
  obtain ⟨outcome, hfind, hallows⟩ := h
  exact ⟨outcome, mem_of_lookup hfind, hallows⟩

theorem Owed.held_of_mem
    (hkeys : (entries.map Entry.requestId).Nodup) {outcome : Option ViewerInteractionResponse}
    (hmem : { o.entry with outcome := outcome } ∈ entries) (hallows : o.Allows outcome) :
    o.Held (lookup Entry.key · entries) :=
  ⟨outcome, lookup_of_mem (nodup_key hkeys) hmem, hallows⟩

theorem take_singleton (e : Entry) (k : Nat) : [e].take k = [] ∨ [e].take k = [e] := by
  cases k with
  | zero => exact Or.inl rfl
  | succ k => exact Or.inr (by simp)

/-- The entry of a request that was not seen before. -/
structure Fresh (j : ViewerInteractionJournal) (entry : Entry) : Prop where
  new : entry.requestId ∉ j.requestIds
  acknowledged : entry.acknowledged = false
  outcome : entry.outcome = none

theorem Fresh.notMem (h : Fresh j entry) (hrun : Running w records rest j) :
    entry.requestId ∉ j.entries.map Entry.requestId := by
  intro hin
  obtain ⟨e, he, heid⟩ := List.mem_map.mp hin
  exact h.new (heid ▸ hrun.known e he)

theorem Fresh.key_ne (h : Fresh j entry) (hrun : Running w records rest j)
    (ho : o ∈ w.owed) : entry.key ≠ o.entry.key := by
  intro hkey
  obtain ⟨outcome, hmem, -⟩ := (hrun.held o ho).mem
  have hsame : entry.requestId = o.entry.requestId := (Prod.ext_iff.mp hkey).2
  exact h.notMem hrun (List.mem_map.mpr ⟨_, hmem, hsame.symm⟩)

theorem Fresh.allows (h : Fresh j entry) :
    (⟨entry, []⟩ : Owed).Allows none ∧ { entry with outcome := none } = entry :=
  ⟨Or.inl h.outcome.symm, by rw [← h.outcome]⟩

theorem Stored.fresh (h : Stored codec w records rest) (hrun : Running w records rest j)
    (hfresh : Fresh j entry) (k : Nat) :
    (∀ r ∈ records ++ [entry].take k, ∀ s ∈ records ++ [entry].take k,
      r.requestId = s.requestId → r.interactionId = s.interactionId)
    ∧ (∀ r ∈ records ++ [entry].take k, r.acknowledged = false)
    ∧ ∀ o ∈ w.owed, o.entry.acknowledged = false ∧ o.Held (latest (records ++ [entry].take k)) := by
  rcases take_singleton entry k with hk | hk
  · rw [hk, List.append_nil]
    exact ⟨h.ids, h.unacknowledged, h.held⟩
  · rw [hk]
    have hother : ∀ r ∈ records, r.requestId ≠ entry.requestId :=
      fun r hr heq => hfresh.new (heq ▸ hrun.recorded r hr)
    refine ⟨fun r hr s hs hid => ?_, fun r hr => ?_, fun o ho => ?_⟩
    · rw [List.mem_append, List.mem_singleton] at hr hs
      rcases hr with hr | hr
      · rcases hs with hs | hs
        · exact h.ids r hr s hs hid
        · exact absurd (hs ▸ hid) (hother r hr)
      · rcases hs with hs | hs
        · exact absurd (hr ▸ hid.symm) (hother s hs)
        · rw [hr, hs]
    · rw [List.mem_append, List.mem_singleton] at hr
      rcases hr with hr | hr
      · exact h.unacknowledged r hr
      · rw [hr]
        exact hfresh.acknowledged
    · obtain ⟨hack, hheld⟩ := h.held o ho
      exact ⟨hack, hheld.latest_of_new (hfresh.key_ne hrun ho)⟩

variable {w' : JournalWorld}

theorem Running.admission (hrun : Running w records [] j) (hfresh : Fresh j entry)
    (hid : entry.requestId = request.requestId)
    (hinteraction : entry.interactionId = request.interactionId)
    (hsequence : j.watermarks request.interactionId < request.sequence)
    (howed : w'.owed = w.owed ++ [⟨entry, []⟩]) (hadmitsted : w'.admitted = w.admitted ++ [request]) :
    Running w' (records ++ [entry]) [] { j with
      entries := j.entries ++ [entry]
      watermarks := Function.update j.watermarks request.interactionId request.sequence
      requestIds := j.requestIds.insert request.requestId
      unacknowledged := j.unacknowledged + 1 } := by
  obtain ⟨hallows, hsame⟩ := hfresh.allows
  have hkeys : ((j.entries ++ [entry]).map Entry.requestId).Nodup :=
    Rows.nodup_map_concat hrun.keys (hfresh.notMem hrun)
  have hother : ∀ r ∈ records, r.requestId ≠ entry.requestId :=
    fun r hr heq => hfresh.new (heq ▸ hrun.recorded r hr)
  have hinsert : entry.requestId ∈ j.requestIds.insert request.requestId :=
    hid ▸ List.mem_insert_self
  have hkept : ∀ {id}, id ∈ j.requestIds → id ∈ j.requestIds.insert request.requestId :=
    fun h => List.mem_insert_of_mem h
  have hmem : ∀ {l : List Entry} {e}, e ∈ l ++ [entry] → e ∈ l ∨ e = entry := by
    intro l e he
    rwa [List.mem_append, List.mem_singleton] at he
  refine ⟨fun o ho => ?_, hkeys, fun r hr => ?_, fun e he => ?_, fun e he r hr hsameId => ?_,
    fun e he hack => ?_, ?_, ?_, fun e he hknown => ?_, fun h => absurd rfl h, fun a ha => ?_⟩
  · rw [howed, List.mem_append, List.mem_singleton] at ho
    rcases ho with ho | rfl
    · obtain ⟨outcome, hin, ho⟩ := (hrun.held o ho).mem
      exact Owed.held_of_mem hkeys (List.mem_append_left _ hin) ho
    · refine Owed.held_of_mem (o := ⟨entry, []⟩) hkeys ?_ hallows
      rw [hsame]
      simp
  · rcases hmem hr with hr | rfl
    · exact hkept (hrun.recorded r hr)
    · exact hinsert
  · rcases hmem he with he | rfl
    · exact hkept (hrun.known e he)
    · exact hinsert
  · rcases hmem he with hold | hself
    · rcases hmem hr with hr | hr
      · exact hrun.agree e hold r hr hsameId
      · have hin : entry.requestId ∈ j.entries.map Entry.requestId :=
          List.mem_map.mpr ⟨e, hold, hsameId.trans (by rw [hr])⟩
        exact absurd hin (hfresh.notMem hrun)
    · rcases hmem hr with hr | hr
      · exact absurd (hself ▸ hsameId.symm) (hother r hr)
      · rw [hself, hr]
  · rcases hmem he with he | rfl
    · exact hrun.acknowledged e he hack
    · rw [hfresh.acknowledged] at hack
      cases hack
  · rw [List.countP_append]
    simp [hrun.unacknowledgedCount, hfresh.acknowledged]
  · rw [List.countP_append]
    simp [hrun.pendingCount, hfresh.outcome]
  · rcases hmem he with he | rfl
    · exact hrun.unknown e he hknown
    · rw [Entry.isUnknown, hfresh.outcome] at hknown
      cases hknown
  · rw [hadmitsted, List.mem_append, List.mem_singleton] at ha
    rcases ha with ha | rfl
    · obtain ⟨hin, hle⟩ := hrun.admitted a ha
      refine ⟨hkept hin, ?_⟩
      show a.sequence ≤ Function.update j.watermarks _ _ a.interactionId
      by_cases hsame : a.interactionId = request.interactionId
      · rw [hsame, Function.update_self]
        rw [hsame] at hle
        omega
      · rw [Function.update_of_ne hsame]
        exact hle
    · refine ⟨List.mem_insert_self, ?_⟩
      show a.sequence ≤ Function.update j.watermarks _ _ a.interactionId
      rw [Function.update_self]

theorem Safe.admits (h : Safe codec w) (request : ViewerInteractionRequest) (grantId : String)
    (cut : Option Nat) :
    Safe codec (w.step codec maxRequests maxBytes (.admits request grantId cut)) := by
  obtain ⟨records, rest, hstored, hrunning⟩ := h.journal
  rw [JournalWorld.step]
  split
  · exact h
  · rename_i j hprocess
    split
    · exact h
    · rename_i j' entry hadmits
      obtain ⟨hbroken, hnew, hsequence, hentry, rfl⟩ := admit_eq_ok hadmits
      have hrun := hrunning j hprocess
      have hempty : rest = [] := by
        by_contra hne
        rw [(hrun.torn hne).1] at hbroken
        cases hbroken
      subst hempty
      have hfresh : Fresh j entry := by
        rw [hentry]
        exact ⟨hnew, rfl, rfl⟩
      obtain ⟨k, rest', hfile, hrest, hwhole⟩ := append_eq (hstored.closed rfl) [entry] cut
      obtain ⟨hids, hunack, hheld⟩ := hstored.fresh hrun hfresh k
      cases cut with
      | some n =>
        exact ⟨⟨_, rest', ⟨hfile, hrest, hids, hunack, hheld⟩, nofun⟩, h.requestIds, h.sequences⟩
      | none =>
        obtain ⟨htake, rfl⟩ := hwhole rfl
        rw [htake] at hfile hids hunack hheld
        refine ⟨⟨_, [], ⟨hfile, hrest, hids, hunack, fun o ho => ?_⟩, fun j' hj' => ?_⟩, ?_, ?_⟩
        · rcases List.mem_append.mp ho with ho | ho
          · exact hheld o ho
          · rw [List.mem_singleton] at ho
            obtain ⟨hallows, hsame⟩ := hfresh.allows
            rw [ho]
            refine ⟨hfresh.acknowledged, none, ?_, hallows⟩
            rw [hsame, latest_concat, if_pos rfl]
        · cases hj'
          exact hrun.admission hfresh (by rw [hentry]) (by rw [hentry]) hsequence rfl rfl
        · refine Rows.nodup_map_concat h.requestIds fun hin => ?_
          obtain ⟨a, ha, haid⟩ := List.mem_map.mp hin
          exact hnew (haid ▸ (hrun.admitted a ha).1)
        · show (w.admitted ++ [request]).Pairwise _
          refine List.pairwise_append.mpr ⟨h.sequences, List.pairwise_singleton _ _, ?_⟩
          intro a ha b hb hsame
          rw [List.mem_singleton] at hb
          have hle := (hrun.admitted a ha).2
          rw [hsame, hb] at hle
          rw [hb]
          omega

/-- What `Complete` does when it records the outcome. -/
theorem complete_eq_ok {interaction request : String} {outcome : ViewerInteractionResponse}
    (h : j.complete interaction request outcome = .ok (j', entry)) :
    ∃ e, lookup Entry.key e.key j.entries = some e ∧ e.outcome = none
      ∧ entry = { e with outcome := some outcome }
      ∧ j' = { j with
        entries := upsert Entry.key entry j.entries
        pendingOutcomes := j.pendingOutcomes + 1
        unknown := j.unknown || outcome.isUnknown } := by
  unfold complete at h
  split at h
  · cases h
  · rename_i e hfind
    split_ifs at h with hnone
    cases h
    rw [Option.not_isSome_iff_eq_none] at hnone
    have hkey : e.key = (interaction, request) := key_of_lookup hfind
    exact ⟨e, hkey ▸ hfind, hnone, rfl, rfl⟩

theorem Owed.Held.open_entry (h : o.Held (lookup Entry.key · j.entries))
    (hfind : lookup Entry.key e.key j.entries = some e) (hnone : e.outcome = none)
    (hkey : o.entry.key = e.key) : o.entry = e := by
  obtain ⟨outcome, ho, hallows⟩ := h
  simp only [hkey] at ho
  rw [hfind] at ho
  have hsame := Option.some.inj ho
  have houtcome : outcome = none := by
    rw [hsame] at hnone
    exact hnone
  subst houtcome
  have hopen : o.entry.outcome = none := by
    rcases hallows with heq | ⟨-, r, hr, -⟩
    · exact heq.symm
    · cases hr
  rw [hsame, ← hopen]

theorem Owed.complete_self (key : String × String) (outcome : ViewerInteractionResponse)
    (returned : Bool) (h : o.entry.key = key) : o.complete key outcome returned
      = if returned then { o with entry := { o.entry with outcome := some outcome } }
        else { o with attempted := o.attempted ++ [outcome] } := if_pos h

theorem Owed.complete_of_ne (key : String × String)
    (outcome : ViewerInteractionResponse) (returned : Bool) (h : o.entry.key ≠ key) :
    o.complete key outcome returned = o := if_neg h

/-- The records after a call of `Complete`: with its record, or with the beginning of its line. -/
theorem Stored.completed (h : Stored codec w records rest) (hrun : Running w records rest j)
    (hfind : lookup Entry.key e.key j.entries = some e) (hnone : e.outcome = none)
    (outcome : ViewerInteractionResponse) {k : Nat} {returned : Bool}
    (hk : returned = true → [{ e with outcome := some outcome }].take k
      = [({ e with outcome := some outcome } : Entry)]) :
    let more := records ++ [{ e with outcome := some outcome }].take k
    (∀ r ∈ more, ∀ s ∈ more, r.requestId = s.requestId → r.interactionId = s.interactionId)
    ∧ (∀ r ∈ more, r.acknowledged = false)
    ∧ ∀ o ∈ w.owed.map (·.complete e.key outcome returned),
      o.entry.acknowledged = false ∧ o.Held (latest more) := by
  have hmem := mem_of_lookup hfind
  have hack : e.acknowledged = false := by
    by_contra hacked
    have hsome := hrun.acknowledged e hmem (by simpa using hacked)
    rw [hnone] at hsome
    cases hsome
  have hmore : ∀ r ∈ records ++ [({ e with outcome := some outcome } : Entry)].take k,
      r ∈ records ∨ r = { e with outcome := some outcome } := by
    intro r hr
    rcases List.mem_append.mp hr with hr | hr
    · exact Or.inl hr
    · exact Or.inr (List.mem_singleton.mp (List.mem_of_mem_take hr))
  refine ⟨fun r hr s hs hid => ?_, fun r hr => ?_, fun o ho => ?_⟩
  · rcases hmore r hr with hr | hr
    · rcases hmore s hs with hs | hs
      · exact h.ids r hr s hs hid
      · rw [hs] at hid ⊢
        exact (hrun.agree e hmem r hr hid.symm).symm
    · rcases hmore s hs with hs | hs
      · rw [hr] at hid ⊢
        exact hrun.agree e hmem s hs hid
      · rw [hr, hs]
  · rcases hmore r hr with hr | hr
    · exact h.unacknowledged r hr
    · rw [hr]
      exact hack
  · obtain ⟨o, howed, rfl⟩ := List.mem_map.mp ho
    obtain ⟨hoack, hheld⟩ := h.held o howed
    by_cases hkey : o.entry.key = e.key
    · have hsame := (hrun.held o howed).open_entry hfind hnone hkey
      rw [Owed.complete_self _ _ _ hkey]
      cases returned with
      | true =>
        rw [hk rfl]
        refine ⟨hoack, some outcome, ?_, Or.inl rfl⟩
        rw [latest_concat, if_pos (by exact hkey.symm), if_pos rfl, hsame]
      | false =>
        refine ⟨hoack, ?_⟩
        rcases take_singleton { e with outcome := some outcome } k with hk | hk
        · rw [hk, List.append_nil]
          obtain ⟨old, hold, hallows⟩ := hheld
          refine ⟨old, hold, hallows.imp id fun ⟨hopen, r, hr, hkind⟩ => ?_⟩
          exact ⟨hopen, r, hr, hkind.imp id fun hin => List.mem_append_left _ hin⟩
        · rw [hk]
          refine ⟨some outcome, ?_, Or.inr ⟨hsame ▸ hnone, outcome, rfl, Or.inr (by simp)⟩⟩
          rw [latest_concat, if_pos (by exact hkey.symm), if_neg Bool.false_ne_true, hsame]
    · rw [Owed.complete_of_ne _ _ _ hkey]
      refine ⟨hoack, ?_⟩
      rcases take_singleton { e with outcome := some outcome } k with hk | hk
      · rw [hk, List.append_nil]
        exact hheld
      · rw [hk]
        exact hheld.latest_of_new fun heq => hkey heq.symm

theorem Running.complete (hrun : Running w records [] j)
    (hfind : lookup Entry.key e.key j.entries = some e) (hnone : e.outcome = none)
    (outcome : ViewerInteractionResponse)
    (howed : w'.owed = w.owed.map (·.complete e.key outcome true))
    (hadmitsted : w'.admitted = w.admitted) :
    Running w' (records ++ [{ e with outcome := some outcome }]) [] { j with
      entries := upsert Entry.key { e with outcome := some outcome } j.entries
      pendingOutcomes := j.pendingOutcomes + 1
      unknown := j.unknown || outcome.isUnknown } := by
  have hmem := mem_of_lookup hfind
  have hnodup := nodup_key hrun.keys
  generalize hentry : ({ e with outcome := some outcome } : Entry) = entry
  have hkey : entry.key = e.key := hentry ▸ rfl
  have hid : entry.requestId = e.requestId := hentry ▸ rfl
  have hinteraction : entry.interactionId = e.interactionId := hentry ▸ rfl
  have hsome : entry.outcome = some outcome := hentry ▸ rfl
  have hackEntry : entry.acknowledged = e.acknowledged := hentry ▸ rfl
  have hack : e.acknowledged = false := by
    by_contra hacked
    have hrecorded := hrun.acknowledged e hmem (by simpa using hacked)
    rw [hnone] at hrecorded
    cases hrecorded
  have hids : (upsert Entry.key entry j.entries).map Entry.requestId
      = j.entries.map Entry.requestId :=
    map_upsert hmem hkey.symm fun s _ hs => (Prod.ext_iff.mp hs).2.symm
  have hin : ∀ x ∈ upsert Entry.key entry j.entries, x ∈ j.entries ∨ x = entry :=
    fun x hx => (mem_upsert hx).symm
  have hsource : ∀ x ∈ upsert Entry.key entry j.entries, ∃ y ∈ j.entries,
      x.requestId = y.requestId ∧ x.interactionId = y.interactionId := by
    intro x hx
    rcases hin x hx with hx | rfl
    · exact ⟨x, hx, rfl, rfl⟩
    · exact ⟨e, hmem, hid, hinteraction⟩
  have hrecords : ∀ r ∈ records ++ [entry], r ∈ records ∨ r = entry := by
    intro r hr
    rwa [List.mem_append, List.mem_singleton] at hr
  refine ⟨fun o ho => ?_, by rw [hids]; exact hrun.keys, fun r hr => ?_, fun x hx => ?_,
    fun x hx r hr hsame => ?_, fun x hx hacked => ?_, ?_, ?_, fun x hx hknown => ?_,
    fun h => absurd rfl h, by rw [hadmitsted]; exact hrun.admitted⟩
  · rw [howed] at ho
    obtain ⟨o, howed, rfl⟩ := List.mem_map.mp ho
    by_cases hokey : o.entry.key = e.key
    · have hsame := (hrun.held o howed).open_entry hfind hnone hokey
      rw [Owed.complete_self _ _ _ hokey]
      refine ⟨some outcome, ?_, Or.inl rfl⟩
      show lookup Entry.key o.entry.key (upsert Entry.key entry j.entries) = _
      rw [lookup_upsert, if_pos (hkey.trans hokey.symm), ← hentry, hsame]
      rfl
    · rw [Owed.complete_of_ne _ _ _ hokey]
      obtain ⟨old, hold, hallows⟩ := hrun.held o howed
      refine ⟨old, ?_, hallows⟩
      show lookup Entry.key o.entry.key (upsert Entry.key entry j.entries) = _
      rw [lookup_upsert, if_neg fun heq => hokey (heq.symm.trans hkey)]
      exact hold
  · rcases hrecords r hr with hr | rfl
    · exact hrun.recorded r hr
    · exact hid ▸ hrun.known e hmem
  · obtain ⟨y, hy, hyid, -⟩ := hsource x hx
    exact hyid ▸ hrun.known y hy
  · obtain ⟨y, hy, hyid, hyinteraction⟩ := hsource x hx
    rw [hyinteraction]
    rw [hyid] at hsame
    rcases hrecords r hr with hr | rfl
    · exact hrun.agree y hy r hr hsame
    · rw [List.inj_on_of_nodup_map hrun.keys hy hmem (hsame.trans hid), hinteraction]
  · rcases hin x hx with hx | rfl
    · exact hrun.acknowledged x hx hacked
    · rw [hsome]
      rfl
  · have hcount := countP_upsert (fun e => !e.acknowledged) hnodup hmem hkey.symm
    simp only [hackEntry] at hcount
    show j.unacknowledged = ((upsert Entry.key entry j.entries).countP _ : Nat)
    rw [hrun.unacknowledgedCount]
    omega
  · have hcount := countP_upsert (fun e => !e.acknowledged && e.outcome.isSome) hnodup hmem hkey.symm
    simp only [hackEntry, hack, hnone, hsome, Bool.not_false, Option.isSome_none, Option.isSome_some,
      Bool.and_false, Bool.and_true, Bool.false_eq_true, if_true, if_false] at hcount
    show j.pendingOutcomes + 1 = ((upsert Entry.key entry j.entries).countP _ : Nat)
    rw [hrun.pendingCount]
    omega
  · rcases hin x hx with hx | rfl
    · have hbefore := hrun.unknown x hx hknown
      simp only [hasUnknown, Bool.or_eq_true] at hbefore ⊢
      tauto
    · rw [Entry.isUnknown, hsome, Option.any_some] at hknown
      simp [hasUnknown, hknown]

theorem Safe.completes (h : Safe codec w) (interaction request : String)
    (outcome : ViewerInteractionResponse) (cut : Option Nat) :
    Safe codec (w.step codec maxRequests maxBytes (.completes interaction request outcome cut)) := by
  obtain ⟨records, rest, hstored, hrunning⟩ := h.journal
  rw [JournalWorld.step]
  split
  · exact h
  · rename_i j hprocess
    split
    · exact h
    · rename_i j' entry hcomplete
      obtain ⟨e, hfind, hnone, rfl, rfl⟩ := complete_eq_ok hcomplete
      have hrun := hrunning j hprocess
      have hempty : rest = [] := by
        by_contra hne
        have hsome := (hrun.torn hne).2 e (mem_of_lookup hfind)
        rw [hnone] at hsome
        cases hsome
      subst hempty
      obtain ⟨k, rest', hfile, hrest, hwhole⟩ := append_eq (hstored.closed rfl)
        [({ e with outcome := some outcome } : Entry)] cut
      obtain ⟨hids, hunack, hheld⟩ := hstored.completed hrun hfind hnone outcome
        fun hcut : cut.isNone = true => (hwhole (Option.isNone_iff_eq_none.mp hcut)).1
      refine ⟨⟨_, rest', ⟨hfile, hrest, hids, hunack, hheld⟩, fun j' hj' => ?_⟩, h.requestIds, h.sequences⟩
      cases cut with
      | some n => cases hj'
      | none =>
        cases hj'
        obtain ⟨htake, rfl⟩ := hwhole rfl
        rw [htake]
        exact hrun.complete hfind hnone outcome rfl rfl

/-! ### Acknowledging -/

/-- What `AcknowledgeBatch` does with requests it knows. -/
theorem acknowledgeBatch_eq_ok {requestIds : List String}
    {retained : List Entry} (h : j.acknowledgeBatch requestIds = .ok (j', retained)) :
    (∀ id ∈ requestIds, ∃ e ∈ j.entries, e.requestId = id ∧ e.outcome.isSome = true)
      ∧ retained = j.entries.filter (fun e => !e.acknowledged && !requestIds.contains e.requestId)
      ∧ j' = { j with
        entries := j.entries.filterMap (acknowledge j.closedSessions requestIds)
        unacknowledged := j.unacknowledged - (j.entries.filter (acknowledges requestIds)).length
        pendingOutcomes :=
          j.pendingOutcomes - (j.entries.filter (acknowledges requestIds)).length } := by
  unfold acknowledgeBatch at h
  split_ifs at h with hknown
  cases h
  refine ⟨fun id hid => ?_, rfl, rfl⟩
  rw [Bool.not_eq_true, List.any_eq_false] at hknown
  have hany := hknown id hid
  rw [Bool.not_eq_true, Bool.not_eq_false'] at hany
  obtain ⟨e, he, hboth⟩ := List.any_eq_true.mp hany
  rw [Bool.and_eq_true, beq_iff_eq] at hboth
  exact ⟨e, he, hboth⟩

theorem acknowledge_eq_some {closed requestIds : List String} {e e' : Entry}
    (h : acknowledge closed requestIds e = some e') :
    e' = e ∨ acknowledges requestIds e = true ∧ e' = { e with acknowledged := true } := by
  unfold acknowledge at h
  split_ifs at h with hnow
  · cases h
    exact Or.inr ⟨hnow, rfl⟩
  · cases h
    exact Or.inl rfl

theorem acknowledge_of_not {closed requestIds : List String}
    (h : e.requestId ∉ requestIds) : acknowledge closed requestIds e = some e := by
  unfold acknowledge acknowledges
  simp [h]

theorem sublist_acknowledge (closed requestIds : List String) (entries : List Entry) :
    List.Sublist ((entries.filterMap (acknowledge closed requestIds)).map Entry.requestId)
      (entries.map Entry.requestId) := by
  induction entries with
  | nil => exact .slnil
  | cons e entries ih =>
    rw [List.filterMap_cons, List.map_cons]
    cases hnext : acknowledge closed requestIds e with
    | none => exact ih.cons _
    | some e' =>
      have hid : e'.requestId = e.requestId := by
        rcases acknowledge_eq_some hnext with rfl | ⟨-, rfl⟩ <;> rfl
      rw [List.map_cons, hid]
      exact ih.cons_cons _

theorem countP_acknowledge (closed requestIds : List String)
    {p : Entry → Bool} (hnow : ∀ e ∈ entries, acknowledges requestIds e = true → p e = true)
    (hgone : ∀ e : Entry, p { e with acknowledged := true } = false) :
    (entries.filterMap (acknowledge closed requestIds)).countP p
      + (entries.filter (acknowledges requestIds)).length = entries.countP p := by
  induction entries with
  | nil => rfl
  | cons e entries ih =>
    have htail := ih fun x hx => hnow x (List.mem_cons_of_mem _ hx)
    rw [List.filterMap_cons, List.countP_cons]
    by_cases hack : acknowledges requestIds e = true
    · rw [List.filter_cons_of_pos hack, List.length_cons,
        if_pos (hnow e List.mem_cons_self hack), acknowledge, if_pos hack]
      by_cases hclosed : closed.contains e.interactionId = true
      · rw [if_pos hclosed]
        simp only
        omega
      · rw [if_neg hclosed]
        simp only
        rw [List.countP_cons, hgone, if_neg Bool.false_ne_true]
        omega
    · rw [List.filter_cons_of_neg hack, acknowledge, if_neg hack]
      simp only
      rw [List.countP_cons]
      omega

theorem Stored.retained (h : Stored codec w records rest) (hrun : Running w records rest j)
    (requestIds : List String)
    (hfile : w'.file = render codec
      (j.entries.filter (fun e => !e.acknowledged && !requestIds.contains e.requestId)))
    (howed : w'.owed = w.owed.filter (fun o => !requestIds.contains o.entry.requestId)) :
    Stored codec w'
      (j.entries.filter (fun e => !e.acknowledged && !requestIds.contains e.requestId)) [] := by
  refine ⟨by rw [hfile, List.append_nil], List.not_mem_nil, fun r hr s hs hid => ?_,
    fun r hr => ?_, fun o ho => ?_⟩
  · rw [List.inj_on_of_nodup_map hrun.keys (List.mem_filter.mp hr).1 (List.mem_filter.mp hs).1 hid]
  · have hkept := (List.mem_filter.mp hr).2
    simp only [Bool.and_eq_true, Bool.not_eq_true'] at hkept
    exact hkept.1
  · rw [howed] at ho
    obtain ⟨ho, hother⟩ := List.mem_filter.mp ho
    have hack := (h.held o ho).1
    obtain ⟨outcome, hmem, hallows⟩ := (hrun.held o ho).mem
    refine ⟨hack, outcome, ?_, hallows⟩
    have hin : { o.entry with outcome := outcome } ∈ (j.entries.filter
        (fun e => !e.acknowledged && !requestIds.contains e.requestId)).reverse := by
      rw [List.mem_reverse]
      refine List.mem_filter.mpr ⟨hmem, ?_⟩
      show (!o.entry.acknowledged && !requestIds.contains o.entry.requestId) = true
      rw [hack, hother]
      rfl
    have hkeys : ((j.entries.filter
        (fun e => !e.acknowledged && !requestIds.contains e.requestId)).reverse.map Entry.key).Nodup := by
      rw [List.map_reverse, List.nodup_reverse]
      exact (nodup_key hrun.keys).sublist (List.filter_sublist.map _)
    exact lookup_of_mem hkeys hin

theorem Running.acknowledged_batch (hrun : Running w records rest j) {requestIds : List String}
    (hknown : ∀ id ∈ requestIds, ∃ e ∈ j.entries, e.requestId = id ∧ e.outcome.isSome = true)
    (howed : w'.owed = w.owed.filter (fun o => !requestIds.contains o.entry.requestId))
    (hadmitsted : w'.admitted = w.admitted) :
    Running w' (j.entries.filter (fun e => !e.acknowledged && !requestIds.contains e.requestId)) [] { j with
        entries := j.entries.filterMap (acknowledge j.closedSessions requestIds)
        unacknowledged := j.unacknowledged - (j.entries.filter (acknowledges requestIds)).length
        pendingOutcomes :=
          j.pendingOutcomes - (j.entries.filter (acknowledges requestIds)).length } := by
  have hkeys : ((j.entries.filterMap (acknowledge j.closedSessions requestIds)).map
      Entry.requestId).Nodup := hrun.keys.sublist (sublist_acknowledge _ _ _)
  -- an entry is the one it was, or is acknowledged now
  have hsource : ∀ e ∈ j.entries.filterMap (acknowledge j.closedSessions requestIds), ∃ x ∈ j.entries, e = x
        ∨ acknowledges requestIds x = true ∧ e = { x with acknowledged := true } := by
    intro e he
    obtain ⟨x, hx, hnext⟩ := List.mem_filterMap.mp he
    exact ⟨x, hx, acknowledge_eq_some hnext⟩
  have hrecorded : ∀ x ∈ j.entries, acknowledges requestIds x = true → x.outcome.isSome = true := by
    intro x hx hnow
    rw [acknowledges, Bool.and_eq_true, List.contains_iff_mem] at hnow
    obtain ⟨y, hy, hid, hsome⟩ := hknown _ hnow.1
    rwa [← List.inj_on_of_nodup_map hrun.keys hy hx hid]
  have hnot : ∀ x : Entry, acknowledges requestIds x = true → x.acknowledged = false := by
    intro x hnow
    rw [acknowledges, Bool.and_eq_true] at hnow
    simpa using hnow.2
  refine ⟨fun o ho => ?_, hkeys, fun r hr => ?_, fun e he => ?_, fun e he r hr hid => ?_,
    fun e he hack => ?_, ?_, ?_, fun e he hunknown => ?_, fun h => absurd rfl h,
    by rw [hadmitsted]; exact hrun.admitted⟩
  · rw [howed] at ho
    obtain ⟨ho, hother⟩ := List.mem_filter.mp ho
    obtain ⟨outcome, hmem, hallows⟩ := (hrun.held o ho).mem
    refine Owed.held_of_mem hkeys (List.mem_filterMap.mpr ⟨_, hmem, ?_⟩) hallows
    exact acknowledge_of_not (by simpa using hother)
  · exact hrun.known r (List.mem_filter.mp hr).1
  · obtain ⟨x, hx, rfl | ⟨-, rfl⟩⟩ := hsource e he
    · exact hrun.known _ hx
    · exact hrun.known x hx
  · have hr := (List.mem_filter.mp hr).1
    obtain ⟨x, hx, rfl | ⟨-, rfl⟩⟩ := hsource e he
    · rw [List.inj_on_of_nodup_map hrun.keys hx hr hid]
    · rw [← List.inj_on_of_nodup_map hrun.keys hx hr hid]
  · obtain ⟨x, hx, rfl | ⟨hnow, rfl⟩⟩ := hsource e he
    · exact hrun.acknowledged _ hx hack
    · exact hrecorded x hx hnow
  · have hcount : (j.entries.filterMap _).countP (fun e : Entry => !e.acknowledged) + _ = _ :=
      countP_acknowledge j.closedSessions requestIds
        (fun e _ hnow => by simpa using hnot e hnow) (fun _ => rfl)
    show j.unacknowledged - _ = ((j.entries.filterMap _).countP _ : Nat)
    rw [hrun.unacknowledgedCount]
    omega
  · have hcount : (j.entries.filterMap _).countP
        (fun e : Entry => !e.acknowledged && e.outcome.isSome) + _ = _ :=
      countP_acknowledge j.closedSessions requestIds
        (fun e he hnow => by simp [hnot e hnow, hrecorded e he hnow]) (fun _ => rfl)
    show j.pendingOutcomes - _ = ((j.entries.filterMap _).countP _ : Nat)
    rw [hrun.pendingCount]
    omega
  · obtain ⟨x, hx, rfl | ⟨-, rfl⟩⟩ := hsource e he
    · exact hrun.unknown _ hx hunknown
    · exact hrun.unknown x hx hunknown

theorem Safe.acknowledges (h : Safe codec w) (requestIds : List String) (moved : Option Bool) :
    Safe codec (w.step codec maxRequests maxBytes (.acknowledges requestIds moved)) := by
  obtain ⟨records, rest, hstored, hrunning⟩ := h.journal
  rw [JournalWorld.step]
  split
  · exact h
  · rename_i j hprocess
    split
    · exact h
    · rename_i j' retained hack
      obtain ⟨hknown, rfl, rfl⟩ := acknowledgeBatch_eq_ok hack
      have hrun := hrunning j hprocess
      split
      · exact ⟨⟨records, rest, ⟨hstored.file, hstored.rest, hstored.ids, hstored.unacknowledged,
          hstored.held⟩, nofun⟩, h.requestIds, h.sequences⟩
      · refine ⟨⟨_, [], hstored.retained hrun requestIds rfl rfl, fun j' hj' => ?_⟩, h.requestIds, h.sequences⟩
        cases moved with
        | some b => cases hj'
        | none =>
          cases hj'
          exact hrun.acknowledged_batch hknown rfl rfl

theorem Safe.closes (h : Safe codec w) (interaction : String) :
    Safe codec (w.step codec maxRequests maxBytes (.closes interaction)) := by
  obtain ⟨records, rest, hstored, hrunning⟩ := h.journal
  refine ⟨⟨records, rest, ⟨hstored.file, hstored.rest, hstored.ids, hstored.unacknowledged,
    hstored.held⟩, fun j' hj' => ?_⟩, h.requestIds, h.sequences⟩
  obtain ⟨j, hprocess, rfl⟩ := Option.map_eq_some_iff.mp hj'
  have hrun := hrunning j hprocess
  have hkeys : ((j.closeSession interaction).entries.map Entry.requestId).Nodup :=
    hrun.keys.sublist (List.filter_sublist.map _)
  have hin : ∀ e ∈ (j.closeSession interaction).entries, e ∈ j.entries :=
    fun e he => (List.mem_filter.mp he).1
  -- the counts are of entries that stay
  have hcount : ∀ p : Entry → Bool, (∀ e, e.acknowledged = true → p e = false) →
      (j.closeSession interaction).entries.countP p = j.entries.countP p := by
    intro p hp
    rw [closeSession, List.countP_filter]
    refine List.countP_congr fun e _ => ?_
    cases hack : e.acknowledged with
    | true => simp [hp e hack]
    | false => simp
  refine ⟨fun o ho => ?_, hkeys, hrun.recorded, fun e he => hrun.known e (hin e he),
    fun e he => hrun.agree e (hin e he), fun e he => hrun.acknowledged e (hin e he), ?_, ?_,
    fun e he => hrun.unknown e (hin e he),
    fun hne => ⟨(hrun.torn hne).1, fun e he => (hrun.torn hne).2 e (hin e he)⟩, hrun.admitted⟩
  · obtain ⟨outcome, hmem, hallows⟩ := (hrun.held o ho).mem
    refine Owed.held_of_mem hkeys (List.mem_filter.mpr ⟨hmem, ?_⟩) hallows
    simp [(hstored.held o ho).1]
  · rw [hcount _ fun e hack => by simp [hack]]
    exact hrun.unacknowledgedCount
  · rw [hcount _ fun e hack => by simp [hack]]
    exact hrun.pendingCount

/-! ## Histories in which the file fits -/

/-- **One step** keeps the invariant. -/
theorem Safe.step (h : Safe codec w) {step : JournalStep} (hfits : fitsStep maxBytes w step = true) :
    Safe codec (w.step codec maxRequests maxBytes step) := by
  cases step with
  | opens cut => exact h.opens (of_decide_eq_true hfits) cut
  | admits request grantId cut => exact h.admits request grantId cut
  | completes interaction request outcome cut => exact h.completes interaction request outcome cut
  | acknowledges requestIds moved => exact h.acknowledges requestIds moved
  | closes interaction => exact h.closes interaction
  | stops =>
    obtain ⟨records, rest, hstored, -⟩ := h.journal
    exact ⟨⟨records, rest, ⟨hstored.file, hstored.rest, hstored.ids, hstored.unacknowledged,
      hstored.held⟩, nofun⟩, h.requestIds, h.sequences⟩

theorem Safe.run (h : Safe codec w) {steps : List JournalStep}
    (hfits : fitsRun codec maxRequests maxBytes w steps = true) :
    Safe codec (w.run codec maxRequests maxBytes steps) := by
  induction steps generalizing w with
  | nil => exact h
  | cons step steps ih =>
    rw [fitsRun, Bool.and_eq_true] at hfits
    exact ih (h.step hfits.1) hfits.2

end

def named (name : Bytes) (h : Inner name) : Member String :=
  ((Member.word name h).seq Member.text).map Prod.snd (fun s => ((), s)) (fun _ => rfl)

def nullableText (name : Bytes) (h : Inner name) : Member (Option String) :=
  ((Member.word name h).seq Member.text.nullable).map Prod.snd (fun s => ((), s)) (fun _ => rfl)

/-- Responses as the serializer writes them. -/
def responseMember : Member ViewerInteractionResponse :=
  ((named (ascii "\"request_id\":\"") (inner_ascii rfl)).seq
    ((named (ascii ",\"status\":\"") (inner_ascii rfl)).seq
      ((nullableText (ascii ",\"result\":") (inner_ascii rfl)).seq
        ((nullableText (ascii ",\"error_code\":") (inner_ascii rfl)).seq
          (nullableText (ascii ",\"timings\":") (inner_ascii rfl)))))).map
    (fun (requestId, status, result, errorCode, timings) =>
      ⟨requestId, status, result, errorCode, timings⟩)
    (fun o => (o.requestId, o.status, o.result, o.errorCode, o.timings)) (fun _ => rfl)

/-- Entries as the serializer writes them. -/
def entryMember : Member Entry :=
  ((named (ascii "\"GrantId\":\"") (inner_ascii rfl)).seq
    ((named (ascii ",\"InteractionId\":\"") (inner_ascii rfl)).seq
      ((named (ascii ",\"RequestId\":\"") (inner_ascii rfl)).seq
        ((Member.word (ascii ",\"Sequence\":") (inner_ascii rfl)).seq
          ((Member.number 44 Member.stop_comma).seq
            ((named (ascii "\"RequestDigest\":\"") (inner_ascii rfl)).seq
              ((named (ascii ",\"OperationId\":\"") (inner_ascii rfl)).seq
                ((Member.word (ascii ",\"Outcome\":") (inner_ascii rfl)).seq
                  (responseMember.nullable.seq
                    ((Member.word (ascii ",\"Acknowledged\":") (inner_ascii rfl)).seq
                      Member.flag)))))))))).map
    (fun (grantId, interactionId, requestId, _, sequence, requestDigest, operationId, _, outcome, _,
        acknowledged) => ⟨grantId, interactionId, requestId, sequence, requestDigest, operationId,
      outcome, acknowledged⟩)
    (fun e => (e.grantId, e.interactionId, e.requestId, (), e.sequence, e.requestDigest,
      e.operationId, (), e.outcome, (), e.acknowledged)) (fun _ => rfl)

def entryCodec : LineCodec Entry := (recordCodec entryMember).toLineCodec

def viewerRequest (requestId : String) (sequence : Nat) : ViewerInteractionRequest :=
  ⟨"interaction-1", requestId, sequence, "sha256:1", "vismockup.node.visibility.change@1"⟩

/-- A crash tears the record of the second request; the next start does not append to the file
until the first request is acknowledged. -/
def tornHistory : List JournalStep :=
  [.opens none, .admits (viewerRequest "request-1" 1) "grant-1" none,
    .admits (viewerRequest "request-2" 2) "grant-1" (some 30), .opens none,
    .admits (viewerRequest "request-3" 3) "grant-1" none, .closes "interaction-1",
    .acknowledges ["request-1"] (some false)]

end Ai00.Connector.ViewerJournal
