import Ai00.Basic.RecordText

/-! # The file of the plan journal

`AppPlanJournal` keeps the events of an old snapshot and a file that events are appended to, one
a line. An instance remembers how far it has read and reads the rest before each append. An
append that is cut short leaves the first bytes of its line; the journal is then read as it is.
-/

namespace Ai00.Connector.PlanJournal

open RecordLines

structure AppJournalEvent where
  sequence : Nat
  kind : String
  planId : String
  data : String
  deriving DecidableEq

/-- An instance of the journal, open in some process. -/
structure AppPlanJournal where
  events : List AppJournalEvent
  appendTailSequence : Nat
  appendTailOffset : Nat

/-! ## The code -/

section

variable (codec : RecordCodec AppJournalEvent)

/-- The loop of `ReadAppendEventsLocked`; what it has added stays when it throws. -/
def readEvents : AppPlanJournal → Nat → List Bytes → AppPlanJournal × Option String
  | j, _, [] => (j, none)
  | j, previousSequence, line :: rest =>
    if line.all RecordLines.isSpace then readEvents j previousSequence rest
    else match codec.decode line with
      | none => (j, some "journal_invalid")
      | some item =>
        if item.sequence ≤ previousSequence then (j, some "journal_sequence_invalid")
        else if item.sequence ≤ j.appendTailSequence then
          if j.events[item.sequence - 1]? = some item then readEvents j item.sequence rest
          else (j, some "journal_sequence_invalid")
        else if item.sequence ≠ j.events.length + 1 then (j, some "journal_sequence_invalid")
        else readEvents { j with
          events := j.events ++ [item], appendTailSequence := item.sequence }
          item.sequence rest

/-- `ReadAppendEventsLocked`. -/
def readAppendEvents (file : Bytes) (j : AppPlanJournal) : AppPlanJournal × Option String :=
  if file.length < j.appendTailOffset then (j, some "journal_sequence_invalid")
  else if j.appendTailOffset = file.length then (j, none)
  else
    let previousSequence := if j.appendTailOffset = 0 then 0 else j.appendTailSequence
    match readEvents codec j previousSequence (readLines (file.drop j.appendTailOffset)) with
    | (j, none) => ({ j with appendTailOffset := file.length }, none)
    | (j, some error) => (j, some error)

/-- Each event has its position as its number. -/
def inSequence (events : List AppJournalEvent) : Bool :=
  events.zipIdx.all (fun e => e.1.sequence == e.2 + 1)

/-- The constructor, over a snapshot and the bytes of the append file. -/
def openJournal (snapshot : List AppJournalEvent) (file : Bytes) :
    Except String AppPlanJournal :=
  if inSequence snapshot = false then .error "journal_sequence_invalid"
  else match readAppendEvents codec file ⟨snapshot, snapshot.length, 0⟩ with
    | (j, none) => .ok j
    | (_, some error) => .error error

/-- The bytes an append writes. -/
def written (item : AppJournalEvent) : Bytes := codec.encode item ++ [lf]

/-- `Append`. With `cut` it stops when that many bytes are written, by a crash or a failed write;
the event it wrote is given with whether the call returned. -/
def append (file : Bytes) (j : AppPlanJournal) (kind planId data : String) (cut : Option Nat) :
    AppPlanJournal × Bytes × Option (AppJournalEvent × Bool) :=
  match readAppendEvents codec file j with
  | (j, some _) => (j, file, none)
  | (j, none) =>
    let item : AppJournalEvent := ⟨j.events.length + 1, kind, planId, data⟩
    match cut with
    | none =>
      ({ events := j.events ++ [item], appendTailSequence := item.sequence
         appendTailOffset := (file ++ written codec item).length },
        file ++ written codec item, some (item, true))
    | some n => (j, file ++ (written codec item).take n, some (item, false))

end

/-! ## Histories -/

/-- The append file, the instances that are open, and the appends that wrote, in order. -/
structure JournalWorld where
  snapshot : List AppJournalEvent
  file : Bytes := []
  instances : List AppPlanJournal := []
  appends : List (AppJournalEvent × Bool) := []

/-- An instance is opened, or one appends; one that is not used again has crashed. -/
inductive JournalStep where
  | opens
  | appends (i : Nat) (kind planId data : String) (cut : Option Nat)

section

variable (codec : RecordCodec AppJournalEvent)

def JournalWorld.step (w : JournalWorld) : JournalStep → JournalWorld
  | .opens => match openJournal codec w.snapshot w.file with
    | .ok j => { w with instances := w.instances ++ [j] }
    | .error _ => w
  | .appends i kind planId data cut => match w.instances[i]? with
    | none => w
    | some j =>
      let (j, file, wrote) := append codec w.file j kind planId data cut
      { w with
        file := file
        instances := w.instances.set i j
        appends := w.appends ++ wrote.toList }

def JournalWorld.run (w : JournalWorld) (steps : List JournalStep) : JournalWorld :=
  steps.foldl (JournalWorld.step codec) w

/-- Opening the journal succeeds. It yields the snapshot and, in order, the events of some of the
appends, all that returned among them, and numbers its events from one. -/
def JournalKept (w : JournalWorld) (j : AppPlanJournal) : Prop :=
  openJournal codec w.snapshot w.file = .ok j
    ∧ (∃ kept, List.Sublist kept w.appends
      ∧ kept.filter Prod.snd = w.appends.filter Prod.snd
      ∧ j.events = w.snapshot ++ kept.map Prod.fst)
    ∧ inSequence j.events = true

end

/-! ## The serializer -/

/-- Events as the serializer writes them. -/
def eventMember : Member AppJournalEvent :=
  ((Member.word (ascii "\"Sequence\":") (inner_ascii rfl)).seq
    ((Member.number 44 Member.stop_comma).seq
      ((Member.word (ascii "\"Kind\":\"") (inner_ascii rfl)).seq
        (Member.text.seq ((Member.word (ascii ",\"PlanId\":\"") (inner_ascii rfl)).seq
          (Member.text.seq ((Member.word (ascii ",\"Data\":\"") (inner_ascii rfl)).seq
            (Member.text.seq (Member.word (ascii "\x7d") (inner_ascii rfl)))))))))).map
    (fun (_, sequence, _, kind, _, planId, _, data, _) => ⟨sequence, kind, planId, data⟩)
    (fun e => ((), e.sequence, (), e.kind, (), e.planId, (), e.data, ())) (fun _ => rfl)

def eventCodec : RecordCodec AppJournalEvent := recordCodec eventMember

/-! ## Clean histories -/

section

variable (codec : RecordCodec AppJournalEvent)

/-- The event an append would write now. -/
def nextEvent (file : Bytes) (j : AppPlanJournal) (kind planId data : String) : AppJournalEvent :=
  ⟨(readAppendEvents codec file j).1.events.length + 1, kind, planId, data⟩

/-- Appends start where a line starts, and one that is cut short leaves nothing, its whole line,
or its line without the line feed. -/
def cleanStep (w : JournalWorld) : JournalStep → Bool
  | .opens => true
  | .appends i kind planId data cut => w.instances[i]?.all fun j =>
    endsLine w.file && cut.all fun n =>
      n == 0 || (written codec (nextEvent codec w.file j kind planId data)).length ≤ n + 1

def cleanRun : JournalWorld → List JournalStep → Bool
  | _, [] => true
  | w, step :: steps => cleanStep codec w step && cleanRun (w.step codec step) steps

end

/-! ## Numbers -/

theorem inSequence_concat (events : List AppJournalEvent) (e : AppJournalEvent) :
    inSequence (events ++ [e]) = true
      ↔ inSequence events = true ∧ e.sequence = events.length + 1 := by
  rw [inSequence, inSequence, List.zipIdx_append, List.all_append, Bool.and_eq_true]
  simp

theorem inSequence_left {events more : List AppJournalEvent}
    (h : inSequence (events ++ more) = true) : inSequence events = true := by
  induction more using List.reverseRecOn with
  | nil => rwa [List.append_nil] at h
  | append_singleton more e ih =>
    rw [← List.append_assoc, inSequence_concat] at h
    exact ih h.1

/-! ## What the file holds -/

section

variable (codec : RecordCodec AppJournalEvent)

/-- The file holds these records; the last one may lack its line feed. -/
def Holds (file : Bytes) (records : List AppJournalEvent) : Prop :=
  file = render codec.toLineCodec records
    ∨ ∃ front last, records = front ++ [last]
      ∧ file = render codec.toLineCodec front ++ codec.encode last

variable {codec} {file : Bytes} {records front back : List AppJournalEvent}

theorem Holds.readLines (h : Holds codec file records) :
    RecordLines.readLines file = records.map codec.encode := by
  rcases h with rfl | ⟨front, last, rfl, rfl⟩
  · exact readLines_render records
  · exact readLines_render_open front last

theorem Holds.closed (h : Holds codec file records) (hends : endsLine file = true) :
    file = render codec.toLineCodec records := by
  rcases h with h | ⟨front, last, -, rfl⟩
  · exact h
  · rw [endsLine_append (encode_ne_nil _ last) (codec.plain last)] at hends
    cases hends

theorem Holds.ne_nil (h : Holds codec file records) (hne : records ≠ []) : file ≠ [] := by
  rcases h with rfl | ⟨front, last, -, rfl⟩
  · obtain ⟨e, rest, rfl⟩ := List.exists_cons_of_ne_nil hne
    simp [render]
  · exact List.append_ne_nil_of_right_ne_nil _ (encode_ne_nil _ last)

theorem Holds.drop (h : Holds codec file (front ++ back)) (hback : back ≠ []) :
    ∃ rest, file = render codec.toLineCodec front ++ rest ∧ Holds codec rest back := by
  rcases h with h | ⟨before, last, hsplit, h⟩
  · exact ⟨render codec.toLineCodec back, by rw [h, render_append], Or.inl rfl⟩
  · obtain ⟨back, e, rfl⟩ : ∃ b e, back = b ++ [e] :=
      ⟨_, _, (List.dropLast_append_getLast hback).symm⟩
    rw [← List.append_assoc] at hsplit
    obtain ⟨hbefore, hlast⟩ := List.append_inj' hsplit rfl
    cases hlast
    refine ⟨render codec.toLineCodec back ++ codec.encode last, ?_, Or.inr ⟨back, last, rfl, rfl⟩⟩
    rw [h, ← hbefore, render_append, List.append_assoc]

/-- An instance has the snapshot and the first records, and goes on behind them. -/
structure Follows (codec : RecordCodec AppJournalEvent) (snapshot records : List AppJournalEvent)
    (file : Bytes) (j : AppPlanJournal) : Prop where
  sequence : j.appendTailSequence = j.events.length
  split : ∃ front back, records = front ++ back ∧ j.events = snapshot ++ front
    ∧ j.appendTailOffset
      = if back = [] then file.length else (render codec.toLineCodec front).length

theorem readEvents_records {j : AppPlanJournal} {previous : Nat}
    (hsequence : j.appendTailSequence = j.events.length) (hprevious : previous ≤ j.events.length)
    (hnumbers : inSequence (j.events ++ back) = true) :
    readEvents codec j previous (back.map codec.encode)
      = (⟨j.events ++ back, (j.events ++ back).length, j.appendTailOffset⟩, none) := by
  induction back generalizing j previous with
  | nil =>
    rw [List.append_nil, ← hsequence]
    rfl
  | cons e back ih =>
    have hsplit : j.events ++ e :: back = (j.events ++ [e]) ++ back := by simp
    rw [hsplit] at hnumbers ⊢
    obtain ⟨-, hnumber⟩ := (inSequence_concat _ _).mp (inSequence_left hnumbers)
    rw [List.map_cons, readEvents, codec.visible e, if_neg (by simp), codec.decode_encode e]
    simp only
    rw [if_neg (by omega), if_neg (by omega), if_neg (by omega)]
    refine ih ?_ ?_ hnumbers
    · rw [List.length_append, List.length_singleton, hnumber]
    · rw [List.length_append, List.length_singleton, hnumber]

theorem Follows.read {snapshot : List AppJournalEvent} {j : AppPlanJournal}
    (h : Follows codec snapshot records file j) (hfile : Holds codec file records)
    (hnumbers : inSequence (snapshot ++ records) = true) :
    readAppendEvents codec file j = (⟨snapshot ++ records, (snapshot ++ records).length, file.length⟩, none) := by
  obtain ⟨front, back, rfl, hevents, hoffset⟩ := h.split
  have hsequence := h.sequence
  by_cases hback : back = []
  · rw [if_pos hback] at hoffset
    rw [readAppendEvents, hoffset, if_neg (lt_irrefl _), if_pos rfl, hback, List.append_nil,
      ← hevents, ← hsequence, ← hoffset]
  · rw [if_neg hback] at hoffset
    obtain ⟨rest, hrest, hholds⟩ := hfile.drop hback
    have hlength : 0 < rest.length := List.length_pos_iff.mpr (hholds.ne_nil hback)
    have hbehind : j.appendTailOffset < file.length := by
      rw [hoffset, hrest, List.length_append]
      omega
    have hdrop : file.drop j.appendTailOffset = rest := by
      rw [hoffset, hrest, List.drop_left]
    have hprevious : (if j.appendTailOffset = 0 then 0 else j.appendTailSequence)
        ≤ j.events.length := by split_ifs <;> omega
    have hbehind' : inSequence (j.events ++ back) = true := by
      rw [hevents, List.append_assoc]
      exact hnumbers
    have hread : readEvents codec j _ (back.map codec.encode) = _ :=
      readEvents_records hsequence hprevious hbehind'
    rw [readAppendEvents, if_neg (by omega), if_neg (by omega), hdrop, hholds.readLines]
    simp only
    rw [hread, hevents, List.append_assoc]

end

/-! ## Clean histories keep their events -/

section

variable {codec : RecordCodec AppJournalEvent}

/-- **The invariant**: the file holds `records`, the events of the appends `kept`. -/
structure Sound (codec : RecordCodec AppJournalEvent) (w : JournalWorld)
    (kept : List (AppJournalEvent × Bool)) : Prop where
  file : Holds codec w.file (kept.map Prod.fst)
  numbers : inSequence (w.snapshot ++ kept.map Prod.fst) = true
  instances : ∀ j ∈ w.instances, Follows codec w.snapshot (kept.map Prod.fst) w.file j
  appends : List.Sublist kept w.appends
  returned : kept.filter Prod.snd = w.appends.filter Prod.snd

variable {w : JournalWorld} {kept : List (AppJournalEvent × Bool)}

/-- A new instance reads everything. -/
theorem Sound.opens (h : Sound codec w kept) :
    openJournal codec w.snapshot w.file = .ok ⟨w.snapshot ++ kept.map Prod.fst,
      (w.snapshot ++ kept.map Prod.fst).length, w.file.length⟩ := by
  have hstart : Follows codec w.snapshot (kept.map Prod.fst) w.file
      ⟨w.snapshot, w.snapshot.length, 0⟩ := by
    refine ⟨rfl, [], kept.map Prod.fst, rfl, (List.append_nil _).symm, ?_⟩
    split_ifs with hempty
    · rcases h.file with hfile | ⟨front, last, hsplit, -⟩
      · rw [hfile, hempty]
        rfl
      · rw [hempty] at hsplit
        exact absurd hsplit (List.append_ne_nil_of_right_ne_nil _ (List.cons_ne_nil _ _)).symm
    · rfl
  rw [openJournal, inSequence_left h.numbers, hstart.read h.file h.numbers]
  rfl

theorem Sound.journalKept (h : Sound codec w kept) :
    ∃ j, JournalKept codec w j ∧ j.events = w.snapshot ++ kept.map Prod.fst :=
  ⟨_, ⟨h.opens, ⟨kept, h.appends, h.returned, rfl⟩, h.numbers⟩, rfl⟩

theorem follows_end (snapshot records : List AppJournalEvent) (file : Bytes) :
    Follows codec snapshot records file ⟨snapshot ++ records, (snapshot ++ records).length, file.length⟩ :=
  ⟨rfl, records, [], (List.append_nil _).symm, rfl, (if_pos rfl).symm⟩

theorem follows_append {snapshot records : List AppJournalEvent} {item : AppJournalEvent}
    (hnumber : item.sequence = (snapshot ++ records).length + 1) (file : Bytes) :
    Follows codec snapshot (records ++ [item]) file
      ⟨(snapshot ++ records) ++ [item], item.sequence, file.length⟩ := by
  refine ⟨?_, records ++ [item], [], (List.append_nil _).symm, List.append_assoc .., ?_⟩
  · show item.sequence = ((snapshot ++ records) ++ [item]).length
    simp [hnumber, Nat.add_assoc]
  · exact (if_pos rfl).symm

/-- The other instances are behind when a record is added to a file that ends its line. -/
theorem Follows.grow {snapshot records : List AppJournalEvent} {file : Bytes} {j : AppPlanJournal}
    (h : Follows codec snapshot records file j)
    (hfile : file = render codec.toLineCodec records) (e : AppJournalEvent) (more : Bytes) :
    Follows codec snapshot (records ++ [e]) (file ++ more) j := by
  obtain ⟨front, back, hrecords, hevents, hoffset⟩ := h.split
  refine ⟨h.sequence, front, back ++ [e], by rw [hrecords, List.append_assoc], hevents, ?_⟩
  rw [if_neg (List.append_ne_nil_of_right_ne_nil _ (List.cons_ne_nil _ _)), hoffset]
  split_ifs with hback
  · rw [hfile, hrecords, hback, List.append_nil]
  · rfl

theorem Sound.record (h : Sound codec w kept) (hends : endsLine w.file = true)
    {item : AppJournalEvent} (hnumber : item.sequence = (w.snapshot ++ kept.map Prod.fst).length + 1)
    {more : Bytes} (hmore : more = written codec item ∨ more = codec.encode item)
    {instances : List AppPlanJournal} (hinstances : ∀ j ∈ instances, j ∈ w.instances
      ∨ Follows codec w.snapshot (kept.map Prod.fst) w.file j
      ∨ Follows codec w.snapshot ((kept.map Prod.fst) ++ [item]) (w.file ++ more) j)
    (returned : Bool) :
    Sound codec { w with
      file := w.file ++ more, instances := instances, appends := w.appends ++ [(item, returned)] }
      (kept ++ [(item, returned)]) := by
  have hclosed := h.file.closed hends
  have hrecords : (kept ++ [(item, returned)]).map Prod.fst = kept.map Prod.fst ++ [item] := by
    rw [List.map_append, List.map_singleton]
  refine ⟨?_, ?_, fun j hj => ?_, h.appends.append (List.Sublist.refl _), ?_⟩
  · rw [hrecords]
    rcases hmore with rfl | rfl
    · exact Or.inl (by rw [render_concat, hclosed, List.append_assoc]; rfl)
    · exact Or.inr ⟨_, item, rfl, by rw [← hclosed]⟩
  · rw [hrecords, ← List.append_assoc, inSequence_concat]
    exact ⟨h.numbers, hnumber⟩
  · rw [hrecords]
    rcases hinstances j hj with hj | hj | hj
    · exact (h.instances j hj).grow hclosed item more
    · exact hj.grow hclosed item more
    · exact hj
  · rw [List.filter_append, List.filter_append, h.returned]

theorem take_written (item : AppJournalEvent) {n : Nat}
    (h : (written codec item).length ≤ n + 1) :
    (written codec item).take n = written codec item ∨ (written codec item).take n = codec.encode item := by
  have hlength : (written codec item).length = (codec.encode item).length + 1 := by
    rw [written, List.length_append, List.length_singleton]
  by_cases hwhole : n = (codec.encode item).length
  · exact Or.inr (by rw [written, hwhole, List.take_left])
  · exact Or.inl (List.take_of_length_le (by omega))

/-- **One step** of a clean history keeps the events and may add one. -/
theorem Sound.step (h : Sound codec w kept) {step : JournalStep} (hclean : cleanStep codec w step = true) :
    ∃ kept', Sound codec (w.step codec step) kept' ∧ kept <+: kept'
      ∧ (w.step codec step).snapshot = w.snapshot := by
  cases step with
  | opens =>
    rw [JournalWorld.step, h.opens]
    refine ⟨kept, ⟨h.file, h.numbers, fun j hj => ?_, h.appends, h.returned⟩, List.prefix_rfl, rfl⟩
    rcases List.mem_append.mp hj with hj | hj
    · exact h.instances j hj
    · rw [List.mem_singleton] at hj
      rw [hj]
      exact follows_end _ _ _
  | appends i kind planId data cut =>
    rw [JournalWorld.step]
    split
    · exact ⟨kept, h, List.prefix_rfl, rfl⟩
    · rename_i j hj
      rw [cleanStep, hj, Option.all_some, Bool.and_eq_true] at hclean
      obtain ⟨hends, hcut⟩ := hclean
      have hread := (h.instances j (List.mem_of_getElem? hj)).read h.file h.numbers
      have hclosed := h.file.closed hends
      rw [nextEvent, hread] at hcut
      rw [append, hread]
      have hset : ∀ {J j' : AppPlanJournal}, j' ∈ w.instances.set i J →
          j' ∈ w.instances ∨ j' = J := fun hj' => List.mem_or_eq_of_mem_set hj'
      have hend : Follows codec w.snapshot (kept.map Prod.fst) w.file _ :=
        follows_end w.snapshot (kept.map Prod.fst) w.file
      cases cut with
      | none =>
        refine ⟨_, h.record hends rfl (Or.inl rfl) (fun j' hj' => ?_) true, List.prefix_append _ _, rfl⟩
        rcases hset hj' with hj' | rfl
        · exact Or.inl hj'
        · exact Or.inr (Or.inr (follows_append rfl _))
      | some n =>
        rw [Option.all_some, Bool.or_eq_true, beq_iff_eq, decide_eq_true_eq] at hcut
        rcases hcut with rfl | hn
        · -- nothing was written
          refine ⟨kept, ⟨?_, h.numbers, fun j' hj' => ?_,
            h.appends.trans (List.sublist_append_left _ _), ?_⟩, List.prefix_rfl, rfl⟩
          · simpa using h.file
          · rcases hset hj' with hj' | rfl
            · simpa using h.instances j' hj'
            · simpa using hend
          · simp [h.returned]
        · refine ⟨_, h.record hends rfl (take_written _ hn) (fun j' hj' => ?_) false, List.prefix_append _ _, rfl⟩
          rcases hset hj' with hj' | rfl
          · exact Or.inl hj'
          · exact Or.inr (Or.inl hend)

theorem Sound.run (h : Sound codec w kept) {steps : List JournalStep}
    (hclean : cleanRun codec w steps = true) :
    ∃ kept', Sound codec (w.run codec steps) kept' ∧ kept <+: kept'
      ∧ (w.run codec steps).snapshot = w.snapshot := by
  induction steps generalizing w kept with
  | nil => exact ⟨kept, h, List.prefix_rfl, rfl⟩
  | cons step steps ih =>
    rw [cleanRun, Bool.and_eq_true] at hclean
    obtain ⟨between, hbetween, hfirst, hsnapshot⟩ := h.step hclean.1
    obtain ⟨last, hlast, hsecond, hsnapshot'⟩ := ih hbetween hclean.2
    exact ⟨last, hlast, hfirst.trans hsecond, hsnapshot'.trans hsnapshot⟩

theorem cleanRun_append {steps more : List JournalStep}
    (h : cleanRun codec w (steps ++ more) = true) :
    cleanRun codec w steps = true ∧ cleanRun codec (w.run codec steps) more = true := by
  induction steps generalizing w with
  | nil => exact ⟨rfl, h⟩
  | cons step steps ih =>
    rw [List.cons_append, cleanRun, Bool.and_eq_true] at h
    obtain ⟨hsteps, hmore⟩ := ih h.2
    rw [cleanRun, Bool.and_eq_true]
    exact ⟨⟨h.1, hsteps⟩, hmore⟩

/-- **The journal keeps its events** in every clean history: at any time it opens with the events
of the appends that returned, and keeps what it has opened with in any clean continuation; and no
open instance is stuck. -/
theorem clean_journal_kept (codec : RecordCodec AppJournalEvent)
    (snapshot : List AppJournalEvent) (hsnapshot : inSequence snapshot = true)
    (steps more : List JournalStep)
    (hclean : cleanRun codec { snapshot := snapshot } (steps ++ more) = true) :
    let w := JournalWorld.run codec { snapshot := snapshot } steps
    let last := w.run codec more
    (∃ j j', JournalKept codec w j ∧ JournalKept codec last j' ∧ j.events <+: j'.events)
      ∧ ∀ j ∈ w.instances, (readAppendEvents codec w.file j).2 = none := by
  have hempty : Sound codec { snapshot := snapshot } [] :=
    ⟨Or.inl rfl, by rw [List.map_nil, List.append_nil]; exact hsnapshot, nofun, List.Sublist.refl _,
      rfl⟩
  obtain ⟨hsteps, hmore⟩ := cleanRun_append hclean
  obtain ⟨kept, hkept, -, hsame⟩ := hempty.run hsteps
  obtain ⟨kept', hkept', hprefixed, hsame'⟩ := hkept.run hmore
  obtain ⟨j, hj, hevents⟩ := hkept.journalKept
  obtain ⟨j', hj', hevents'⟩ := hkept'.journalKept
  refine ⟨⟨j, j', hj, hj', ?_⟩, fun i hi => ?_⟩
  · rw [hevents, hevents', hsame']
    obtain ⟨rest, rfl⟩ := hprefixed
    exact ⟨rest.map Prod.fst, by rw [List.map_append, List.append_assoc]⟩
  · rw [(hkept.instances i hi).read hkept.file hkept.numbers]

end

/-- An append that leaves its record without the line feed is read, and may be the last. -/
def unfinishedHistory : List JournalStep :=
  [.opens, .appends 0 "received" "plan-1" "x" none,
    .appends 0 "started" "plan-1" "y"
      (some (eventCodec.encode ⟨2, "started", "plan-1", "y"⟩).length)]

theorem unfinished_journal_kept :
    let w := JournalWorld.run eventCodec { snapshot := [] } unfinishedHistory
    let last := w.run eventCodec [.opens]
    (∃ j j', JournalKept eventCodec w j ∧ JournalKept eventCodec last j' ∧ j.events <+: j'.events)
      ∧ ∀ j ∈ w.instances, (readAppendEvents eventCodec w.file j).2 = none :=
  clean_journal_kept eventCodec [] (by decide) unfinishedHistory [.opens] (by decide +kernel)

/-- Then another instance opens the journal and appends: the two records become one line, and
the event of the append that returned is lost with the journal. -/
def joinedHistory : List JournalStep :=
  unfinishedHistory ++ [.opens, .appends 1 "terminal" "plan-1" "z" none]

/-- A crash in the middle of a record. -/
def tornHistory : List JournalStep :=
  [.opens, .appends 0 "received" "plan-1" "x" none, .appends 0 "started" "plan-1" "y" (some 20)]

theorem torn_and_joined_journals_lost :
    (∀ j, ¬ JournalKept eventCodec
      (JournalWorld.run eventCodec { snapshot := [] } joinedHistory) j)
    ∧ ∀ j, ¬ JournalKept eventCodec
      (JournalWorld.run eventCodec { snapshot := [] } tornHistory) j := by
  have lost : ∀ w : JournalWorld, (openJournal eventCodec w.snapshot w.file).isOk = false →
      ∀ j, ¬ JournalKept eventCodec w j := by
    rintro w hlost j ⟨hopen, -⟩
    rw [hopen] at hlost
    cases hlost
  exact ⟨lost _ (by decide +kernel), lost _ (by decide +kernel)⟩

end Ai00.Connector.PlanJournal
