import Ai00.Basic.Checks
import Ai00.Basic.ListSort
import Ai00.Json.Builtins

/-! # Plans that capture processes in reverse

`domain/process_capture_plan.py` of the simulation plugin. The processes are put in the order in which
they are executed; each adds the occurrences that its operations load to those that are visible, and
hides them again when the plan is replayed in reverse.

A replay undoes the additions one by one. It does if every addition is new, that is, if no process
loads what is there from the beginning (`plan_replays_iff`); that no two processes load the same is
checked.
-/

namespace Ai00.Simulation

/-! ## Undoing additions -/

section

variable {α : Type} [DecidableEq α]

def additions (s : Finset α) : List (Finset α) → List (Finset α × Finset α)
  | [] => []
  | added :: more => (s ∪ added, added) :: additions (s ∪ added) more

def total (s : Finset α) (more : List (Finset α)) : Finset α := more.foldl (· ∪ ·) s

/-- Taking away what each pair names leads to the next one, and from the last one to the start. -/
def Undoes (s : Finset α) : List (Finset α × Finset α) → Prop
  | [] => True
  | (present, added) :: rest =>
    present \ added = (rest.head?.map Prod.fst).getD s ∧ Undoes s rest

variable {s : Finset α}

theorem total_concat (more : List (Finset α)) (added : Finset α) :
    total s (more ++ [added]) = total s more ∪ added := List.foldl_concat ..

theorem additions_concat (more : List (Finset α)) (added : Finset α) :
    additions s (more ++ [added]) = additions s more ++ [(total s more ∪ added, added)] := by
  induction more generalizing s with
  | nil => rfl
  | cons first more ih =>
    rw [List.cons_append, additions, ih, additions, List.cons_append]
    rfl

/-- Seen from the start, the pairs undo one another in reverse if each leads back to the one before. -/
theorem undoes_reverse_cons (present added : Finset α) (rest : List (Finset α × Finset α)) :
    Undoes s ((present, added) :: rest).reverse ↔ present \ added = s ∧ Undoes present rest.reverse := by
  have hconcat : ∀ pairs : List (Finset α × Finset α), Undoes s (pairs ++ [(present, added)])
      ↔ present \ added = s ∧ Undoes present pairs := by
    intro pairs
    induction pairs with
    | nil => exact Iff.rfl
    | cons pair pairs ih =>
      show pair.1 \ pair.2 = ((pairs ++ [(present, added)]).head?.map Prod.fst).getD s
        ∧ Undoes s (pairs ++ [(present, added)]) ↔ _
      have hhead : ((pairs ++ [(present, added)]).head?.map Prod.fst).getD s
          = (pairs.head?.map Prod.fst).getD present := by
        cases pairs <;> rfl
      rw [ih, hhead]
      exact and_left_comm
  rw [List.reverse_cons, hconcat]

/-- **Additions are undone in reverse** exactly if each of them is new. -/
theorem undoes_additions_iff {more : List (Finset α)} (hdisjoint : more.Pairwise Disjoint) :
    Undoes s (additions s more).reverse ↔ ∀ added ∈ more, Disjoint s added := by
  induction more generalizing s with
  | nil => exact iff_of_true trivial (by simp)
  | cons added more ih =>
    obtain ⟨hfirst, hrest⟩ := List.pairwise_cons.mp hdisjoint
    have hnew : (s ∪ added) \ added = s ↔ Disjoint s added := by
      rw [Finset.union_sdiff_right, Finset.sdiff_eq_self_iff_disjoint]
    rw [additions, undoes_reverse_cons, hnew, ih hrest, List.forall_mem_cons]
    refine and_congr_right fun _ => forall₂_congr fun other hother => ?_
    rw [Finset.disjoint_union_left]
    exact and_iff_left (hfirst other hother)

end

/-! ## Data -/

structure CapturePart where
  occurrenceGid : Str
  role : Str

structure CaptureOperation where
  operationGid : Str
  resources : List Str
  parts : List CapturePart

/-- A process, with what `get` finds for its two orders. -/
structure CaptureProcess where
  processGid : Str
  stationOrder : Json
  processOrder : Json
  operations : List CaptureOperation

/-- What the first loop collects for a process. -/
structure ForwardProcess where
  processGid : Str
  operationGids : List Str
  visible : List Str
  highlight : List Str
  hide : List Str
  resources : List Str

structure ProcessCaptureStep where
  reverseIndex : ℕ
  processGid : Str
  operationGids : List Str
  visibleOccurrenceGids : List Str
  highlightOccurrenceGids : List Str
  hideAfterCaptureOccurrenceGids : List Str
  resourceOccurrenceGids : List Str
deriving DecidableEq

structure ProcessCapturePlan where
  algorithmVersion : Str
  sourceHashes : List (Str × Str)
  steps : List ProcessCaptureStep
  planHash : Str

inductive CapturePlanError where
  | valueError (code : String)
  /-- What `float` raises. -/
  | notANumber
deriving DecidableEq

/-- What is used of Python: `float` on the values of a mapping, `sorted`, and the hash of the
canonical JSON text of a version, hashes and steps. -/
structure CapturePlanBuiltins where
  float : Json → Option PyFloat
  sorted : ListSort
  canonicalHash : Str → List (Str × Str) → List ProcessCaptureStep → Str

/-! ## The order of the processes -/

/-- The value of a float, infinite ones at the ends; NaN has none. -/
def floatRank : PyFloat → Option (ℤ ×ₗ ℚ)
  | .finite x => some (toLex (0, x.toRat))
  | .inf neg => some (toLex (if neg then -1 else 1, 0))
  | .nan => none

/-- `(station, process, gid)`. -/
structure OrderKey where
  station : PyFloat
  process : PyFloat
  processGid : Str

/-- `<` of two keys: the first items that are not equal decide. -/
def OrderKey.less (a b : OrderKey) : Bool :=
  if floatRank a.station ≠ none ∧ floatRank a.station = floatRank b.station then
    if floatRank a.process ≠ none ∧ floatRank a.process = floatRank b.process then decide (a.processGid < b.processGid)
    else ListSort.lessBy floatRank a.process b.process
  else ListSort.lessBy floatRank a.station b.station

section

variable (py : CapturePlanBuiltins)

def orderKey (item : CaptureProcess) : Except CapturePlanError OrderKey := do
  let station ← found (py.float (item.stationOrder.orElse (.int 0))) .notANumber
  let process ← found (py.float (item.processOrder.orElse (.int 0))) .notANumber
  return ⟨station, process, item.processGid⟩

/-- `ordered`. -/
def orderedProcesses (processes : List CaptureProcess) : Except CapturePlanError (List CaptureProcess) := do
  let keyed ← processes.mapM fun item => do
    let key ← orderKey py item
    return (key, item)
  return (py.sorted.sort (fun a b => a.1.less b.1) keyed).map Prod.snd

/-! ## The state of assembly -/

/-- `tuple(sorted(values))`. -/
def sortedTuple (values : Finset Str) : List Str := values.sort

/-- What the loops over the operations of a process change. -/
structure ProcessBindings where
  loadOwner : List (Str × Str)
  operationGids : List Str
  highlights : Finset Str
  resources : Finset Str
  loads : Finset Str

/-- One round of `for raw_part in operation.get("parts", ())`. -/
def bindPart (processGid : Str) (t : ProcessBindings) (part : CapturePart) :
    Except CapturePlanError ProcessBindings := do
  require (part.occurrenceGid ≠ [] ∧ (part.role = "load".toList ∨ part.role = "operate".toList))
    (.valueError "part_binding_invalid")
  let t := { t with highlights := insert part.occurrenceGid t.highlights }
  if part.role = "load".toList then
    match t.loadOwner.lookup part.occurrenceGid with
    | some priorOwner =>
      require (priorOwner = processGid) (.valueError "duplicate_load_binding")
      return { t with loads := insert part.occurrenceGid t.loads }
    | none =>
      return { t with
        loadOwner := t.loadOwner ++ [(part.occurrenceGid, processGid)]
        loads := insert part.occurrenceGid t.loads }
  else return t

/-- One round of `for operation in operations`. -/
def bindOperation (processGid : Str) (t : ProcessBindings) (operation : CaptureOperation) :
    Except CapturePlanError ProcessBindings :=
  let t := { t with
    operationGids := if operation.operationGid = [] then t.operationGids
      else t.operationGids ++ [operation.operationGid]
    resources := t.resources ∪ (operation.resources.filter (· ≠ [])).toFinset }
  operation.parts.foldlM (bindPart processGid) t

/-- What the loop over the processes changes. -/
structure Assembly where
  loaded : Finset Str
  loadOwner : List (Str × Str)
  forward : List ForwardProcess

/-- One round of `for process in ordered`. -/
def assemble (a : Assembly) (process : CaptureProcess) : Except CapturePlanError Assembly := do
  require (process.processGid ≠ []) (.valueError "process_gid_required")
  let t ← process.operations.foldlM (bindOperation process.processGid)
    { loadOwner := a.loadOwner, operationGids := [], highlights := ∅, resources := ∅, loads := ∅ }
  let loaded := a.loaded ∪ t.loads
  return {
    loaded
    loadOwner := t.loadOwner
    forward := a.forward ++ [{
      processGid := process.processGid
      operationGids := t.operationGids
      visible := sortedTuple loaded
      highlight := sortedTuple t.highlights
      hide := sortedTuple t.loads
      resources := sortedTuple t.resources }] }

def ForwardProcess.step (item : ForwardProcess) (index : ℕ) : ProcessCaptureStep where
  reverseIndex := index
  processGid := item.processGid
  operationGids := item.operationGids
  visibleOccurrenceGids := item.visible
  highlightOccurrenceGids := item.highlight
  hideAfterCaptureOccurrenceGids := item.hide
  resourceOccurrenceGids := item.resources

def requiredHashes : Finset Str :=
  {"environment".toList, "snapshot".toList, "bop".toList, "profile".toList}

/-- `{str(value) for value in initial_loaded_occurrence_gids if str(value)}`. -/
def initialLoaded (occurrenceGids : List Str) : Finset Str := (occurrenceGids.filter (· ≠ [])).toFinset

def buildProcessCapturePlan (processes : List CaptureProcess) (initialLoadedOccurrenceGids : List Str)
    (sourceHashes : List (Str × Str)) (algorithmVersion : Str) : Except CapturePlanError ProcessCapturePlan := do
  require ((sourceHashes.map Prod.fst).toFinset = requiredHashes ∧ ∀ e ∈ sourceHashes, e.2 ≠ [])
    (.valueError "source_hashes_invalid")
  let ordered ← orderedProcesses py processes
  let a ← ordered.foldlM assemble
    { loaded := initialLoaded initialLoadedOccurrenceGids, loadOwner := [], forward := [] }
  let steps := (a.forward.reverse.zipIdx 1).map fun item => item.1.step item.2
  let hashes := sourceHashes.mergeSort fun a b => a.1 ≤ b.1
  return {
    algorithmVersion
    sourceHashes := hashes
    steps
    planHash := py.canonicalHash algorithmVersion hashes steps }

end

/-! ## What the loops collect -/

def CapturePart.loads (part : CapturePart) : Finset Str :=
  if part.role = "load".toList then {part.occurrenceGid} else ∅

def CaptureOperation.loads (operation : CaptureOperation) : Finset Str :=
  operation.parts.foldr (fun part loads => part.loads ∪ loads) ∅

def CaptureProcess.loads (process : CaptureProcess) : Finset Str :=
  process.operations.foldr (fun operation loads => operation.loads ∪ loads) ∅

/-- What a loop over parts of a process adds: loads, and their owner where there was none. -/
structure Binds (processGid : Str) (loads : Finset Str) (t t' : ProcessBindings) : Prop where
  loads_eq : t'.loads = t.loads ∪ loads
  owned : ∀ gid ∈ loads, t'.loadOwner.lookup gid = some processGid
  kept : ∀ gid owner, t.loadOwner.lookup gid = some owner → t'.loadOwner.lookup gid = some owner

variable {processGid : Str} {t t' t'' : ProcessBindings}

theorem Binds.refl (processGid : Str) (t : ProcessBindings) : Binds processGid ∅ t t where
  loads_eq := (Finset.union_empty _).symm
  owned _ hgid := absurd hgid (Finset.notMem_empty _)
  kept _ _ h := h

theorem Binds.trans {loads more : Finset Str} (h : Binds processGid loads t t')
    (h' : Binds processGid more t' t'') : Binds processGid (loads ∪ more) t t'' where
  loads_eq := by rw [h'.loads_eq, h.loads_eq, Finset.union_assoc]
  owned gid hgid := by
    rcases Finset.mem_union.mp hgid with hgid | hgid
    · exact h'.kept gid processGid (h.owned gid hgid)
    · exact h'.owned gid hgid
  kept gid owner howner := h'.kept gid owner (h.kept gid owner howner)

theorem bindPart_binds {part : CapturePart} (h : bindPart processGid t part = .ok t') :
    Binds processGid part.loads t t' := by
  obtain ⟨_, -, h⟩ := bind_eq_ok.mp h
  rw [CapturePart.loads]
  split_ifs at h ⊢ with hrole
  · cases hlookup : t.loadOwner.lookup part.occurrenceGid with
    | some priorOwner =>
      simp only [hlookup] at h
      obtain ⟨_, howner, h⟩ := bind_eq_ok.mp h
      cases h
      refine ⟨?_, fun gid hgid => ?_, fun _ _ h => h⟩
      · rw [Finset.union_comm]
        rfl
      · rw [Finset.mem_singleton.mp hgid]
        exact hlookup.trans (congrArg some (require_eq_ok.mp howner))
    | none =>
      simp only [hlookup] at h
      cases h
      refine ⟨?_, fun gid hgid => ?_, fun gid owner howner => ?_⟩
      · rw [Finset.union_comm]
        rfl
      · rw [Finset.mem_singleton.mp hgid]
        show (t.loadOwner ++ [(part.occurrenceGid, processGid)]).lookup part.occurrenceGid = _
        rw [List.lookup_append, hlookup]
        simp [List.lookup]
      · show (t.loadOwner ++ [(part.occurrenceGid, processGid)]).lookup gid = _
        rw [List.lookup_append, howner]
        rfl
  · cases h
    exact ⟨(Finset.union_empty _).symm, by simp, fun _ _ h => h⟩

theorem foldlM_binds {β : Type} {round : ProcessBindings → β → Except CapturePlanError ProcessBindings}
    {loads : β → Finset Str}
    (hround : ∀ t t' x, round t x = .ok t' → Binds processGid (loads x) t t')
    {t t' : ProcessBindings} {xs : List β} (h : xs.foldlM round t = .ok t') :
    Binds processGid (xs.foldr (fun x collected => loads x ∪ collected) ∅) t t' := by
  induction xs generalizing t with
  | nil =>
    cases h
    exact .refl processGid _
  | cons x xs ih =>
    rw [List.foldlM_cons] at h
    obtain ⟨next, hnext, h⟩ := bind_eq_ok.mp h
    exact (hround _ _ _ hnext).trans (ih h)

theorem bindOperation_binds {operation : CaptureOperation} (h : bindOperation processGid t operation = .ok t') :
    Binds processGid operation.loads t t' := by
  have hparts := @foldlM_binds processGid _ (bindPart processGid) CapturePart.loads (fun _ _ _ => bindPart_binds) _ _ _ h
  exact ⟨hparts.loads_eq, hparts.owned, hparts.kept⟩

/-! ## The state of assembly, process by process -/

/-- What is visible after a process and what it adds. -/
def ForwardProcess.addition (item : ForwardProcess) : Finset Str × Finset Str :=
  (item.visible.toFinset, item.hide.toFinset)

/-- What has been collected of the processes that are done. -/
structure Assembled (initial : Finset Str) (done : List CaptureProcess) (a : Assembly) : Prop where
  loaded : a.loaded = total initial (done.map CaptureProcess.loads)
  forward : a.forward.map ForwardProcess.addition = additions initial (done.map CaptureProcess.loads)
  owned : ∀ process ∈ done, ∀ gid ∈ process.loads, a.loadOwner.lookup gid = some process.processGid

variable {initial : Finset Str} {done : List CaptureProcess} {a a' : Assembly} {process : CaptureProcess}

theorem Assembled.step (h : Assembled initial done a) (hstep : assemble a process = .ok a') :
    Assembled initial (done ++ [process]) a' := by
  obtain ⟨_, -, hstep⟩ := bind_eq_ok.mp hstep
  obtain ⟨t, hoperations, hstep⟩ := bind_eq_ok.mp hstep
  cases hstep
  have hbinds : Binds process.processGid process.loads _ t :=
    @foldlM_binds _ _ _ CaptureOperation.loads (fun _ _ _ => bindOperation_binds) _ _ _ hoperations
  have hloads : t.loads = process.loads := by rw [hbinds.loads_eq, Finset.empty_union]
  refine ⟨?_, ?_, fun other hother gid hgid => ?_⟩
  · rw [List.map_append, List.map_singleton, total_concat, ← h.loaded, hloads]
  · have hsorted : ∀ values : Finset Str, (sortedTuple values).toFinset = values := fun values =>
      Finset.sort_toFinset values _
    rw [List.map_append, List.map_append, h.forward, List.map_singleton, List.map_singleton, additions_concat,
      ← h.loaded, ForwardProcess.addition, hsorted, hsorted, hloads]
  · rcases List.mem_append.mp hother with hother | hother
    · exact hbinds.kept gid _ (h.owned other hother gid hgid)
    · rw [List.mem_singleton] at hother
      subst hother
      exact hbinds.owned gid hgid

theorem Assembled.run {more : List CaptureProcess} (h : Assembled initial done a)
    (hrun : more.foldlM assemble a = .ok a') : Assembled initial (done ++ more) a' := by
  induction more generalizing done a with
  | nil =>
    cases hrun
    rw [List.append_nil]
    exact h
  | cons process more ih =>
    rw [List.foldlM_cons] at hrun
    obtain ⟨next, hnext, hrun⟩ := bind_eq_ok.mp hrun
    have hall := ih (h.step hnext) hrun
    rwa [List.append_assoc] at hall

/-- Processes with gids of their own load different occurrences. -/
theorem Assembled.disjoint (h : Assembled initial done a) (hgids : (done.map CaptureProcess.processGid).Nodup) :
    (done.map CaptureProcess.loads).Pairwise Disjoint := by
  rw [List.pairwise_map]
  refine (List.pairwise_map.mp hgids).imp_of_mem fun {p q} hp hq hne => ?_
  refine Finset.disjoint_left.mpr fun gid hgid hgid' => hne ?_
  exact Option.some.inj ((h.owned p hp gid hgid).symm.trans (h.owned q hq gid hgid'))

theorem orderedProcesses_perm {py : CapturePlanBuiltins} {processes ordered : List CaptureProcess}
    (h : orderedProcesses py processes = .ok ordered) : ordered.Perm processes := by
  obtain ⟨keyed, hkeyed, h⟩ := bind_eq_ok.mp h
  cases h
  have hitems : keyed.map Prod.snd = processes := by
    clear h
    induction processes generalizing keyed with
    | nil =>
      cases hkeyed
      rfl
    | cons item processes ih =>
      rw [List.mapM_cons] at hkeyed
      obtain ⟨first, hfirst, hkeyed⟩ := bind_eq_ok.mp hkeyed
      obtain ⟨rest, hrest, hkeyed⟩ := bind_eq_ok.mp hkeyed
      obtain ⟨key, -, hfirst⟩ := bind_eq_ok.mp hfirst
      cases hfirst
      cases hkeyed
      rw [List.map_cons, ih rest hrest]
  rw [← hitems]
  exact (py.sorted.perm _ _).map Prod.snd

/-! ## Replaying a plan -/

/-- The visible set of each step without what is hidden after it is that of the next step, and after
the last one it is the initial one. -/
def ReplaysInReverse (initial : Finset Str) (steps : List ProcessCaptureStep) : Prop :=
  Undoes initial (steps.map fun step =>
    (step.visibleOccurrenceGids.toFinset, step.hideAfterCaptureOccurrenceGids.toFinset))

/-- **A plan replays in reverse** exactly if no process loads what is there from the beginning. -/
theorem plan_replays_iff (py : CapturePlanBuiltins) {processes : List CaptureProcess}
    {initialLoadedOccurrenceGids : List Str} {sourceHashes : List (Str × Str)} {algorithmVersion : Str}
    {plan : ProcessCapturePlan} (hgids : (processes.map CaptureProcess.processGid).Nodup)
    (hplan : buildProcessCapturePlan py processes initialLoadedOccurrenceGids sourceHashes algorithmVersion
      = .ok plan) :
    ReplaysInReverse (initialLoaded initialLoadedOccurrenceGids) plan.steps
      ↔ ∀ process ∈ processes, Disjoint (initialLoaded initialLoadedOccurrenceGids) process.loads := by
  obtain ⟨_, -, hplan⟩ := bind_eq_ok.mp hplan
  obtain ⟨ordered, hordered, hplan⟩ := bind_eq_ok.mp hplan
  obtain ⟨a, hassemble, hplan⟩ := bind_eq_ok.mp hplan
  cases hplan
  have hperm := orderedProcesses_perm hordered
  have hassembled : Assembled (initialLoaded initialLoadedOccurrenceGids) ordered a :=
    Assembled.run (show Assembled _ [] _ from ⟨rfl, rfl, by simp⟩) hassemble
  have hpairs : ((a.forward.reverse.zipIdx 1).map fun item => item.1.step item.2).map
      (fun step => (step.visibleOccurrenceGids.toFinset, step.hideAfterCaptureOccurrenceGids.toFinset))
        = (additions (initialLoaded initialLoadedOccurrenceGids) (ordered.map CaptureProcess.loads)).reverse := by
    calc _ = ((a.forward.reverse.zipIdx 1).map Prod.fst).map ForwardProcess.addition := by
          rw [List.map_map, List.map_map]
          rfl
      _ = (a.forward.map ForwardProcess.addition).reverse := by rw [List.zipIdx_map_fst, List.map_reverse]
      _ = _ := by rw [hassembled.forward]
  have hdisjoint := hassembled.disjoint ((hperm.map CaptureProcess.processGid).nodup_iff.mpr hgids)
  rw [ReplaysInReverse, hpairs, undoes_additions_iff hdisjoint, List.forall_mem_map]
  exact forall_congr' fun process => imp_congr_left hperm.mem_iff

/-- Python for orders that are missing and read as `0`. -/
def unordered : CapturePlanBuiltins where
  float
    | .int 0 => some (.finite .zero)
    | _ => none
  sorted := ListSort.natural
  canonicalHash _ _ _ := "sha256:".toList

def loadsOne (processGid occurrenceGid : Str) : CaptureProcess where
  processGid := processGid
  stationOrder := .null
  processOrder := .null
  operations := [⟨"7".toList, [], [⟨occurrenceGid, "load".toList⟩]⟩]

def fourHashes : List (Str × Str) :=
  [("environment".toList, ['e']), ("snapshot".toList, ['s']), ("bop".toList, ['b']), ("profile".toList, ['p'])]

theorem plan_replays_loadsOne : ∃ plan,
    buildProcessCapturePlan unordered [loadsOne ['1'] ['b']] [] fourHashes ['v'] = .ok plan
      ∧ plan.steps.map ProcessCaptureStep.visibleOccurrenceGids = [[['b']]]
      ∧ ReplaysInReverse (initialLoaded []) plan.steps := by
  have hvisible : (buildProcessCapturePlan unordered [loadsOne ['1'] ['b']] [] fourHashes ['v']).map
      (fun plan => plan.steps.map ProcessCaptureStep.visibleOccurrenceGids) = .ok [[['b']]] := by decide +kernel
  cases hplan : buildProcessCapturePlan unordered [loadsOne ['1'] ['b']] [] fourHashes ['v'] with
  | error e =>
    rw [hplan] at hvisible
    cases hvisible
  | ok plan =>
    rw [hplan] at hvisible
    exact ⟨plan, rfl, Except.ok.inj hvisible, (plan_replays_iff unordered (by decide) hplan).mpr (by decide)⟩

theorem not_replayed_initial : ∃ plan,
    buildProcessCapturePlan unordered [loadsOne ['1'] ['b']] [['b']] fourHashes ['v'] = .ok plan
      ∧ ¬ ReplaysInReverse (initialLoaded [['b']]) plan.steps := by
  have hsteps : (buildProcessCapturePlan unordered [loadsOne ['1'] ['b']] [['b']] fourHashes ['v']).map
      ProcessCapturePlan.steps = .ok [⟨1, ['1'], [['7']], [['b']], [['b']], [['b']], []⟩] := by decide +kernel
  cases hplan : buildProcessCapturePlan unordered [loadsOne ['1'] ['b']] [['b']] fourHashes ['v'] with
  | error e =>
    rw [hplan] at hsteps
    cases hsteps
  | ok plan =>
    rw [hplan] at hsteps
    refine ⟨plan, rfl, fun hreplays => ?_⟩
    rw [ReplaysInReverse, Except.ok.inj hsteps] at hreplays
    exact absurd hreplays.1 (by decide)

end Ai00.Simulation
