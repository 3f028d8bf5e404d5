import Ai00.Basic.KeyedRows
import Ai00.Basic.RecordText

/-! # The command ledger

`CommandLedger` remembers which operations began, and how they ended, in a file of one entry a
line. A line that cannot be read is skipped. A process that starts takes every operation that is
still `started` for one of unknown outcome.
-/

namespace Ai00.Connector.CommandLedger

open KeyedRows RecordLines

inductive OperationState where
  | started
  | completed
  | failed
  | outcomeUnknown
  deriving DecidableEq

structure Entry where
  operationId : String
  state : OperationState
  time : Nat

/-! ## The states in memory -/

/-- `_states`, in the order in which the operations were first seen. -/
abbrev States := List Entry

/-- `_states.TryGetValue(operationId, …)`. -/
def States.get? (states : States) (operationId : String) : Option Entry :=
  lookup Entry.operationId operationId states

/-- `_states[entry.OperationId] = entry`, for entries one after another. -/
def States.setAll (states : States) (entries : List Entry) : States :=
  upsertAll Entry.operationId entries states

/-! ## The code -/

section

variable (codec : RecordCodec Entry) (crlf : Bool)

/-- The entries the constructor reads. -/
def load (file : Bytes) : States := States.setAll [] (readable codec.toLineCodec file)

/-- What the constructor writes for the operations it finds started. -/
def recovered (states : States) (clock : String → Nat) : List Entry :=
  (states.filter (fun e => e.state == .started)).map
    (fun e => ⟨e.operationId, .outcomeUnknown, clock e.operationId⟩)

def maximumEntries (requested : Nat) : Nat := max 100 (min requested 100000)

/-- `Compact`: above the maximum the latest entries are kept. -/
def compact (maximum : Nat) (states : States) (file : Bytes) : States × Bytes :=
  if states.length ≤ maximum then (states, file)
  else
    let retained := ((states.insertionSort (fun a b => b.time ≤ a.time)).take maximum).insertionSort
      (fun a b => a.time ≤ b.time)
    (States.setAll [] retained, retained.flatMap (recordLine codec.toLineCodec crlf))

/-- `AppendAllText`; a crash leaves the first `n` bytes. -/
def appendText (file : Bytes) (entries : List Entry) (cut : Option Nat) : Bytes :=
  let text := entries.flatMap (recordLine codec.toLineCodec crlf)
  file ++ match cut with
    | none => text
    | some n => text.take n

end

/-! ## Histories -/

/-- The file, the states of the process that runs, the operations granted by `TryBegin`, and the
entries whose writing began. -/
structure LedgerWorld where
  file : Bytes := []
  process : Option States := none
  granted : List String := []
  begun : List Entry := []

/-- How an operation ends: `Complete`, `Fail` and `MarkOutcomeUnknown`. -/
inductive Ending where
  | complete
  | fail
  | markOutcomeUnknown

def Ending.state : Ending → OperationState
  | .complete => .completed
  | .fail => .failed
  | .markOutcomeUnknown => .outcomeUnknown

/-- A process starts, an operation begins or ends, or the process stops. A `cut` is a crash after
so many bytes. -/
inductive LedgerStep where
  | restart (clock : String → Nat) (cut : Option Nat)
  | begins (operationId : String) (now : Nat) (cut : Option Nat)
  | ends (operationId : String) (ending : Ending) (now : Nat) (cut : Option Nat)
  | stops

section

variable (codec : RecordCodec Entry) (crlf : Bool) (requested : Nat)

/-- `Write`; the process is gone after a crash. -/
def LedgerWorld.write (w : LedgerWorld) (states : States) (entries : List Entry)
    (cut : Option Nat) : LedgerWorld :=
  { w with
    file := appendText codec crlf w.file entries cut
    process := if cut.isNone then some (states.setAll entries) else none
    begun := w.begun ++ entries }

/-- What `TryBegin` returns: whether it grants the operation, else the state it is in. -/
def tryBegin (states : States) (operationId : String) : Option OperationState :=
  (states.get? operationId).map Entry.state

def LedgerWorld.step (w : LedgerWorld) : LedgerStep → LedgerWorld
  | .stops => { w with process := none }
  | .restart clock cut =>
    let states := load codec w.file
    let started := w.write codec crlf states (recovered states clock) cut
    match started.process with
    | none => started
    | some states =>
      let (states, file) := compact codec crlf (maximumEntries requested) states started.file
      { started with process := some states, file := file }
  | .begins operationId now cut => match w.process with
    | none => w
    | some states => match tryBegin states operationId with
      | some _ => w
      | none =>
        let written := w.write codec crlf states [⟨operationId, .started, now⟩] cut
        if cut.isNone then { written with granted := w.granted ++ [operationId] } else written
  | .ends operationId ending now cut => match w.process with
    | none => w
    | some states => w.write codec crlf states [⟨operationId, ending.state, now⟩] cut

def LedgerWorld.run (w : LedgerWorld) (steps : List LedgerStep) : LedgerWorld :=
  steps.foldl (LedgerWorld.step codec crlf requested) w

end

/-! ## The states after entries -/

section

variable {states : States} {entries : List Entry} {id : String}

theorem get?_setAll (states : States) (entries : List Entry) (id : String) :
    (∃ e ∈ entries, e.operationId = id ∧ (states.setAll entries).get? id = some e)
      ∨ ((∀ e ∈ entries, e.operationId ≠ id) ∧ (states.setAll entries).get? id = states.get? id) := by
  unfold States.get? States.setAll
  rw [lookup_upsertAll]
  cases hfind : lookup Entry.operationId id entries.reverse with
  | none =>
    rw [lookup_eq_none_iff] at hfind
    exact Or.inr ⟨fun e he => hfind e (List.mem_reverse.mpr he), rfl⟩
  | some e =>
    have he := List.mem_reverse.mp (mem_of_lookup hfind)
    exact Or.inl ⟨e, he, key_of_lookup hfind, rfl⟩

theorem setAll_keeps (h : (states.get? id).isSome = true) (entries : List Entry) :
    ((states.setAll entries).get? id).isSome = true := by
  rcases get?_setAll states entries id with ⟨e, -, -, hget⟩ | ⟨-, hget⟩
  · rw [hget]
    rfl
  · rwa [hget]

/-- A process that starts keeps the states it finds, but no operation as started. -/
theorem get?_recovered (clock : String → Nat) {e : Entry} (he : states.get? id = some e) :
    ∃ s, ((states.setAll (recovered states clock)).get? id).map Entry.state = some s
      ∧ (s = .outcomeUnknown ∨ (s = e.state ∧ s ≠ .started)) := by
  have hmem := mem_of_lookup he
  have hid : e.operationId = id := key_of_lookup he
  rcases get?_setAll states (recovered states clock) id with ⟨x, hx, -, hget⟩ | ⟨hnone, hget⟩
  · obtain ⟨y, -, rfl⟩ := List.mem_map.mp hx
    exact ⟨_, by rw [hget]; rfl, Or.inl rfl⟩
  · refine ⟨e.state, by rw [hget, he]; rfl, Or.inr ⟨rfl, fun hstarted => ?_⟩⟩
    have hstill : (⟨e.operationId, .outcomeUnknown, clock e.operationId⟩ : Entry)
        ∈ recovered states clock :=
      List.mem_map_of_mem (List.mem_filter.mpr ⟨hmem, by simp [hstarted]⟩)
    exact hnone _ hstill hid

theorem length_recovered (states : States) (clock : String → Nat) :
    (states.setAll (recovered states clock)).length = states.length := by
  have hkeys : (states.setAll (recovered states clock)).map Entry.operationId
      = states.map Entry.operationId := by
    refine map_key_upsertAll fun e he => ?_
    obtain ⟨x, hx, rfl⟩ := List.mem_map.mp he
    exact List.mem_map.mpr ⟨x, (List.mem_filter.mp hx).1, rfl⟩
  have hlength := congrArg List.length hkeys
  rwa [List.length_map, List.length_map] at hlength

end

/-! ## Clean histories -/

section

variable (codec : RecordCodec Entry) (crlf : Bool) (requested : Nat)

def roomStep (w : LedgerWorld) : LedgerStep → Bool
  | .restart _ _ => decide ((load codec w.file).length ≤ maximumEntries requested)
  | _ => true

def cleanStep (w : LedgerWorld) : LedgerStep → Bool
  | .begins operationId _ _ => w.process.all fun states =>
    (tryBegin states operationId).isSome || endsLine w.file
  | _ => true

def allSteps (condition : LedgerWorld → LedgerStep → Bool) :
    LedgerWorld → List LedgerStep → Bool
  | _, [] => true
  | w, step :: steps =>
    condition w step && allSteps condition (w.step codec crlf requested step) steps

/-- No operation is granted twice. Whenever a process starts after this, it knows every operation
that was granted, and has those of unknown outcome that did not complete or fail. -/
def Remembered (w : LedgerWorld) : Prop :=
  w.granted.Nodup
    ∧ ∀ clock, roomStep codec requested w (.restart clock none) = true →
      ∃ states, (w.step codec crlf requested (.restart clock none)).process = some states
        ∧ ∀ id ∈ w.granted, ∃ s, tryBegin states id = some s
          ∧ (s = .outcomeUnknown
            ∨ ((s = .completed ∨ s = .failed) ∧ ∃ e ∈ w.begun, e.operationId = id ∧ e.state = s))

end

/-! ## Clean histories remember -/

section

variable {codec : RecordCodec Entry} {crlf : Bool} {requested : Nat} {w : LedgerWorld}

/-- **The invariant**: each operation that was granted has a line of its own, and the process
knows it. -/
structure LedgerSafe (codec : RecordCodec Entry) (w : LedgerWorld) : Prop where
  layout : ∃ lines tail, Layout codec.toLineCodec {e | e ∈ w.begun} lines tail w.file
    ∧ ∀ id ∈ w.granted, ∃ t, [codec.encode ⟨id, .started, t⟩] ∈ lines
  process : ∀ states, w.process = some states →
    ∀ id ∈ w.granted, (states.get? id).isSome = true
  granted : w.granted.Nodup

theorem LedgerSafe.write (h : LedgerSafe codec w) {states : States}
    (hstates : ∀ id ∈ w.granted, (states.get? id).isSome = true) (entries : List Entry)
    (cut : Option Nat) : LedgerSafe codec (w.write codec crlf states entries cut) := by
  obtain ⟨lines, tail, hlayout, hlines⟩ := h.layout
  have hmore : {e | e ∈ w.begun} ⊆ {e | e ∈ w.begun ++ entries} :=
    fun e he => List.mem_append_left _ he
  have hbegun : ∀ e ∈ entries, e ∈ {e | e ∈ w.begun ++ entries} :=
    fun e he => List.mem_append_right _ he
  have hcut : ∃ n, appendText codec crlf w.file entries cut
      = w.file ++ (entries.flatMap (recordLine codec.toLineCodec crlf)).take n := by
    cases cut with
    | none => exact ⟨_, by rw [List.take_length]; rfl⟩
    | some n => exact ⟨n, rfl⟩
  obtain ⟨n, hfile⟩ := hcut
  obtain ⟨lines', tail', hlayout', hprefixed⟩ := (hlayout.mono hmore).writes hbegun crlf n
  refine ⟨⟨lines', tail', ?_, fun id hid => ?_⟩, fun after hafter id hid => ?_, h.granted⟩
  · show Layout _ _ _ _ (appendText codec crlf w.file entries cut)
    rw [hfile]
    exact hlayout'
  · obtain ⟨t, ht⟩ := hlines id hid
    exact ⟨t, hprefixed.subset ht⟩
  · simp only [LedgerWorld.write] at hafter
    split_ifs at hafter
    cases hafter
    exact setAll_keeps (hstates id hid) entries

theorem LedgerSafe.load (h : LedgerSafe codec w) {id : String} (hid : id ∈ w.granted) :
    ∃ e, (load codec w.file).get? id = some e ∧ e ∈ w.begun ∧ e.operationId = id := by
  obtain ⟨lines, tail, hlayout, hlines⟩ := h.layout
  obtain ⟨t, ht⟩ := hlines id hid
  rcases get?_setAll [] (readable codec.toLineCodec w.file) id with ⟨e, he, heid, hget⟩ | ⟨hnone, -⟩
  · exact ⟨e, hget, hlayout.begun_of_readable he, heid⟩
  · exact absurd rfl (hnone _ (hlayout.mem_readable ht))

theorem restart_eq (clock : String → Nat) (cut : Option Nat)
    (hroom : (load codec w.file).length ≤ maximumEntries requested) :
    w.step codec crlf requested (.restart clock cut)
      = w.write codec crlf (load codec w.file) (recovered (load codec w.file) clock) cut := by
  cases cut with
  | some n => rfl
  | none =>
    have hlength := length_recovered (load codec w.file) clock
    simp only [LedgerWorld.step, LedgerWorld.write, Option.isNone_none, if_true, compact]
    rw [if_pos (by omega)]

theorem LedgerSafe.grant (h : LedgerSafe codec w) {states : States} {id : String}
    (hprocess : w.process = some states) (hunknown : tryBegin states id = none)
    (hends : endsLine w.file = true) (now : Nat) :
    LedgerSafe codec { w.write codec crlf states [⟨id, .started, now⟩] none with
      granted := w.granted ++ [id] } := by
  obtain ⟨lines, tail, hlayout, hlines⟩ := h.layout
  have hmore : {e | e ∈ w.begun} ⊆ {e | e ∈ w.begun ++ [⟨id, .started, now⟩]} :=
    fun e he => List.mem_append_left _ he
  obtain ⟨lines', tail', hlayout', -, hwhole⟩ := (hlayout.mono hmore).write
    (List.mem_append_right _ List.mem_cons_self) crlf
    (recordLine codec.toLineCodec crlf ⟨id, .started, now⟩).length
  obtain ⟨hlines', -⟩ := hwhole le_rfl
  rw [hlayout.ends.mpr hends, List.nil_append] at hlines'
  rw [List.take_length] at hlayout'
  have hget := get?_setAll states [⟨id, .started, now⟩] id
  refine ⟨⟨lines', tail', ?_, fun x hx => ?_⟩, fun after hafter x hx => ?_, ?_⟩
  · show Layout _ _ _ _ (appendText codec crlf w.file [⟨id, .started, now⟩] none)
    rw [appendText, List.flatMap_singleton]
    exact hlayout'
  · rw [hlines']
    rcases List.mem_append.mp hx with hx | hx
    · obtain ⟨t, ht⟩ := hlines x hx
      exact ⟨t, List.mem_append_left _ ht⟩
    · rw [List.mem_singleton] at hx
      exact ⟨now, by simp [hx]⟩
  · cases hafter
    rcases List.mem_append.mp hx with hx | hx
    · exact setAll_keeps (h.process states hprocess x hx) _
    · rw [List.mem_singleton] at hx
      rcases hget with ⟨e, -, -, he⟩ | ⟨hnone, -⟩
      · rw [hx, he]
        rfl
      · exact absurd rfl (hnone _ List.mem_cons_self)
  · rw [← List.concat_eq_append, List.nodup_concat]
    refine ⟨fun hid => ?_, h.granted⟩
    have hknown := h.process states hprocess id hid
    rw [tryBegin, Option.map_eq_none_iff] at hunknown
    rw [hunknown] at hknown
    cases hknown

/-- **One step** of a clean history. -/
theorem LedgerSafe.step (h : LedgerSafe codec w) {step : LedgerStep}
    (hroom : roomStep codec requested w step = true) (hclean : cleanStep w step = true) :
    LedgerSafe codec (w.step codec crlf requested step) := by
  cases step with
  | stops => exact ⟨h.layout, nofun, h.granted⟩
  | restart clock cut =>
    rw [restart_eq clock cut (of_decide_eq_true hroom)]
    refine h.write (fun id hid => ?_) _ cut
    obtain ⟨e, he, -⟩ := h.load hid
    rw [he]
    rfl
  | ends id ending now cut =>
    rw [LedgerWorld.step]
    split
    · exact h
    · rename_i states hprocess
      exact h.write (h.process states hprocess) _ cut
  | begins id now cut =>
    rw [LedgerWorld.step]
    split
    · exact h
    · rename_i states hprocess
      split
      · exact h
      · rename_i hunknown
        cases cut with
        | some n => exact h.write (h.process states hprocess) _ (some n)
        | none =>
          rw [cleanStep, hprocess, Option.all_some, hunknown, Option.isSome_none, Bool.false_or] at hclean
          exact h.grant hprocess hunknown hclean now

theorem LedgerSafe.run (h : LedgerSafe codec w) {steps : List LedgerStep}
    (hroom : allSteps codec crlf requested (roomStep codec requested) w steps = true)
    (hclean : allSteps codec crlf requested cleanStep w steps = true) :
    LedgerSafe codec (w.run codec crlf requested steps) := by
  induction steps generalizing w with
  | nil => exact h
  | cons step steps ih =>
    rw [allSteps, Bool.and_eq_true] at hroom hclean
    exact ih (h.step hroom.1 hclean.1) hroom.2 hclean.2

/-- A process that starts now knows every operation that was granted. -/
theorem LedgerSafe.remembered (h : LedgerSafe codec w) :
    Remembered codec crlf requested w := by
  refine ⟨h.granted, fun clock hroom => ?_⟩
  rw [restart_eq clock none (of_decide_eq_true hroom)]
  refine ⟨_, rfl, fun id hid => ?_⟩
  obtain ⟨e, he, hbegun, heid⟩ := h.load hid
  obtain ⟨s, hs, hstate⟩ := get?_recovered clock he
  refine ⟨s, hs, ?_⟩
  rcases hstate with hunknown | ⟨rfl, hne⟩
  · exact Or.inl hunknown
  · cases hended : e.state with
    | started => exact absurd hended hne
    | outcomeUnknown => exact Or.inl rfl
    | completed => exact Or.inr ⟨Or.inl rfl, e, hbegun, heid, hended⟩
    | failed => exact Or.inr ⟨Or.inr rfl, e, hbegun, heid, hended⟩

/-- **The ledger remembers** what it granted, in every history in which operations are granted
where a line starts: no operation is granted twice, and the next start reports the ones that
neither completed nor failed as of unknown outcome. -/
theorem clean_ledger_remembers (codec : RecordCodec Entry) (crlf : Bool) (requested : Nat)
    (steps : List LedgerStep)
    (hroom : allSteps codec crlf requested (roomStep codec requested) {} steps = true)
    (hclean : allSteps codec crlf requested cleanStep {} steps = true) :
    Remembered codec crlf requested (LedgerWorld.run codec crlf requested {} steps) := by
  have hempty : LedgerSafe codec {} := ⟨⟨[], [], layout_nil, nofun⟩, nofun, List.nodup_nil⟩
  exact (hempty.run hroom hclean).remembered

end

/-! ## The serializer -/

def stateText : OperationState → String
  | .started => "started"
  | .completed => "completed"
  | .failed => "failed"
  | .outcomeUnknown => "outcome_unknown"

def readState (s : String) : OperationState :=
  if s = "started" then .started else if s = "completed" then .completed
  else if s = "failed" then .failed else .outcomeUnknown

theorem readState_stateText (state : OperationState) : readState (stateText state) = state := by
  cases state <;> decide

/-- Entries as the serializer writes them, with the time as a number. -/
def entryMember : Member Entry :=
  ((Member.word (ascii "\"OperationId\":\"") (inner_ascii rfl)).seq
    (Member.text.seq ((Member.word (ascii ",\"State\":\"") (inner_ascii rfl)).seq
      ((Member.text.map readState stateText readState_stateText).seq
        ((Member.word (ascii ",\"At\":") (inner_ascii rfl)).seq
          (Member.number 125 ⟨rfl, by simp [RecordLines.Inner, brace, lf, cr]⟩)))))).map
    (fun (_, operationId, _, state, _, time) => ⟨operationId, state, time⟩)
    (fun e => ((), e.operationId, (), e.state, (), e.time)) (fun _ => rfl)

def entryCodec : RecordCodec Entry := recordCodec entryMember

/-! ## Histories on both sides -/

/-- A record that is cut short is ended by the next start, here one that recovers `build-1`. -/
def endedLineHistory : List LedgerStep :=
  [.restart (fun _ => 1) none, .begins "build-1" 2 none, .ends "build-1" .complete 3 (some 20),
    .restart (fun _ => 4) none, .begins "build-2" 5 none, .stops]

theorem ended_line_remembers :
    Remembered entryCodec false 10000
      (LedgerWorld.run entryCodec false 10000 {} endedLineHistory) :=
  clean_ledger_remembers entryCodec false 10000 endedLineHistory (by decide +kernel)
    (by decide +kernel)

/-- A record that is cut short is not ended by a start that recovers nothing: the next operation
is granted behind it, on the same line. -/
def joinedGrantHistory : List LedgerStep :=
  [.restart (fun _ => 1) none, .begins "build-1" 2 (some 20), .restart (fun _ => 3) none,
    .begins "build-2" 4 none, .stops, .restart (fun _ => 5) none, .begins "build-2" 6 none]

theorem joined_grant_forgotten :
    allSteps entryCodec false 10000 (roomStep entryCodec 10000) {} joinedGrantHistory = true
      ∧ ¬ Remembered entryCodec false 10000
        (LedgerWorld.run entryCodec false 10000 {} joinedGrantHistory) := by
  have htwice : (LedgerWorld.run entryCodec false 10000 {} joinedGrantHistory).granted
      = ["build-2", "build-2"] := by decide +kernel
  refine ⟨by decide +kernel, fun h => ?_⟩
  have hnodup := h.1
  rw [htwice] at hnodup
  simp at hnodup

end Ai00.Connector.CommandLedger
