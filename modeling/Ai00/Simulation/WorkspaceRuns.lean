import Ai00.Simulation.WorkspaceEdits
import Ai00.Basic.Successive

/-! # What a workspace promises over its calls

A call is a replay, is refused and changes nothing, or is done and recorded (`Outcome`, one lemma for
each of the four calls). The invariant goes through any calls, and what was recorded for a key stays
(`recorded_after`), so that a call repeated at any later time is a replay.
-/

namespace Ai00.Simulation

open Relation KeyedRows Parents Ancestors Stateful

namespace SimulationWorkspace

variable {ambient : WorkspaceAmbient} {s s' : SimulationWorkspace} {key : Str}
  {payload : WorkspacePayload} {expected : ℤ}

/-! ## Bodies -/

/-- How the body of a call ends. -/
inductive Settled (ambient : WorkspaceAmbient) (s : SimulationWorkspace) :
    Except WorkspaceFailure WorkspaceChange × SimulationWorkspace → Prop
  | refused {e : WorkspaceFailure} (he : e.IsWorkspaceError) : Settled ambient s (.error e, s)
  | done {change : WorkspaceChange} {s' : SimulationWorkspace} (hlawful : Lawful ambient s')
      (hversion : s'.rowVersion = s.rowVersion + 1) (hledger : s'.idempotency = s.idempotency)
      (hchange : change.rowVersion = s'.rowVersion) : Settled ambient s (.ok change, s')

theorem settled_require {p : Prop} [Decidable p] {code : String}
    {f : Unit → WorkspaceCall WorkspaceChange} (h : p → Settled ambient s (f () s)) :
    Settled ambient s ((lift (require p (.ruleError code)) >>= f) s) := by
  by_cases hp : p
  · rw [lift_bind_ok (require_eq_ok.mpr hp)]
    exact h hp
  · have hrefuse : require p (WorkspaceFailure.ruleError code) = .error (.ruleError code) :=
      if_neg hp
    rw [lift_bind_error hrefuse]
    exact .refused trivial

theorem settled_found {α : Type} {o : Option α} {code : String}
    {f : α → WorkspaceCall WorkspaceChange} (h : ∀ a, o = some a → Settled ambient s (f a s)) :
    Settled ambient s ((lift (found o (.ruleError code)) >>= f) s) := by
  cases ho : o with
  | none => exact .refused trivial
  | some a => exact h a ho

theorem nextGid_ok (hfresh : ambient.Fresh) :
    nextGid ambient s = (.ok (ambient.gidFactory s.drawn), { s with drawn := s.drawn + 1 }) := by
  obtain ⟨v, hv, hpos⟩ := hfresh.decimal s.drawn
  have hcheck : ∃ v ∈ ambient.int (ambient.gidFactory s.drawn), 0 < v := ⟨v, hv, hpos⟩
  unfold nextGid
  rw [read_bind, modify_bind, lift_bind_ok (require_eq_ok (u := ()) |>.mpr hcheck), pure_apply]

/-! ## Outcomes -/

/-- How a call ends. -/
inductive Outcome (ambient : WorkspaceAmbient) (key : Str) (payload : WorkspacePayload)
    (s : SimulationWorkspace) : Except WorkspaceFailure WorkspaceChange × SimulationWorkspace → Prop
  | replayed {entry : WorkspaceEntry} (hentry : lookup WorkspaceEntry.key key s.idempotency = some entry)
      (hdigest : entry.digest = ambient.fingerprint payload) :
      Outcome ambient key payload s (.ok entry.result, s)
  | refused {e : WorkspaceFailure} (he : e.IsWorkspaceError) :
      Outcome ambient key payload s (.error e, s)
  | accepted {change : WorkspaceChange} {s' : SimulationWorkspace}
      (hnew : lookup WorkspaceEntry.key key s.idempotency = none) (hlawful : Lawful ambient s')
      (hversion : s'.rowVersion = s.rowVersion + 1) (hchange : change.rowVersion = s'.rowVersion)
      (hledger : s'.idempotency
        = upsert WorkspaceEntry.key ⟨key, ambient.fingerprint payload, change⟩ s.idempotency) :
      Outcome ambient key payload s (.ok change, s')

theorem Lawful.ledger (h : Lawful ambient s) (idempotency : List WorkspaceEntry) :
    Lawful ambient { s with idempotency } :=
  ⟨h.nodeGids, h.nodesDrawn, h.bindingsDrawn, h.parents, h.acyclic, h.bound, h.loads⟩

variable {entry : WorkspaceEntry}

theorem begin_recorded (hentry : lookup WorkspaceEntry.key key s.idempotency = some entry) :
    begin ambient key payload expected s = if entry.digest = ambient.fingerprint payload
      then (.ok (some entry.result), s) else (.error (.conflict "idempotency_conflict"), s) := by
  unfold begin
  rw [read_bind, id_eq, hentry]
  by_cases hdigest : entry.digest = ambient.fingerprint payload
  · rw [if_pos hdigest]
    exact lift_bind_ok (if_pos hdigest)
  · rw [if_neg hdigest]
    exact lift_bind_error (if_neg hdigest)

theorem begin_new (hnew : lookup WorkspaceEntry.key key s.idempotency = none) :
    begin ambient key payload expected s = if expected = s.rowVersion
      then (.ok none, s) else (.error (.conflict "version_conflict"), s) := by
  unfold begin
  rw [read_bind, id_eq, hnew]
  by_cases hversion : expected = s.rowVersion
  · rw [if_pos hversion]
    exact lift_bind_ok (if_pos hversion)
  · rw [if_neg hversion]
    exact lift_bind_error (if_neg hversion)

variable {body : WorkspaceCall WorkspaceChange}

theorem mutation_recorded (hentry : lookup WorkspaceEntry.key key s.idempotency = some entry) :
    mutation ambient key payload expected body s = if entry.digest = ambient.fingerprint payload
      then (.ok entry.result, s) else (.error (.conflict "idempotency_conflict"), s) := by
  have hbegin : begin ambient key payload expected s = _ := begin_recorded hentry
  unfold mutation
  by_cases hdigest : entry.digest = ambient.fingerprint payload
  · rw [if_pos hdigest] at hbegin ⊢
    rw [bind_ok hbegin]
    rfl
  · rw [if_neg hdigest] at hbegin ⊢
    rw [bind_error hbegin]

/-- **What the four calls share.** -/
theorem mutation_outcome (hbody : Settled ambient s (body s)) :
    Outcome ambient key payload s (mutation ambient key payload expected body s) := by
  cases hentry : lookup WorkspaceEntry.key key s.idempotency with
  | some entry =>
    rw [mutation_recorded hentry]
    split_ifs with hdigest
    · exact .replayed hentry hdigest
    · exact .refused trivial
  | none =>
    have hbegin : begin ambient key payload expected s = _ := begin_new hentry
    unfold mutation
    split_ifs at hbegin
    · rw [bind_ok hbegin]
      show Outcome ambient key payload s ((body >>= finish ambient key payload) s)
      generalize hresult : body s = result at hbody
      cases hbody with
      | refused he =>
        rw [bind_error hresult]
        exact .refused he
      | done hlawful hversion hledger hchange =>
        rw [bind_ok hresult, finish, modify_bind, pure_apply]
        refine .accepted hentry (hlawful.ledger _) hversion hchange ?_
        rw [hledger]
    · rw [bind_error hbegin]
      exact .refused trivial

/-! ## The four calls -/

section

variable (h : Lawful ambient s)

include h

theorem moveNode_outcome (nodeGid : Str) (newParentGid : Option Str) :
    Outcome ambient key (.move nodeGid newParentGid) s
      (moveNode ambient nodeGid newParentGid expected key s) := by
  refine mutation_outcome ?_
  rw [read_bind, id_eq]
  refine settled_found fun node hnode => settled_require fun hparent => ?_
  obtain ⟨hfound, hlive⟩ := Option.filter_eq_some_iff.mp hnode
  rcases h.walk_cases nodeGid hparent with hcycle | ⟨hends, hbelow⟩
  · rw [lift_bind_error hcycle]
    exact .refused trivial
  · rw [lift_bind_ok hends]
    have hgid := gid_of_node? hfound
    refine .done (h.putNode (le_refl _) ?_ rfl hparent ?_) rfl rfl rfl
    · exact h.nodesDrawn node (mem_of_node? hfound)
    · exact fun p hp => hgid.symm ▸ hbelow p hp

variable (hfresh : ambient.Fresh)

include hfresh

theorem createNode_outcome (parentGid : Option Str) (nodeType name : Str) :
    Outcome ambient key (.create parentGid nodeType (strip name)) s
      (createNode ambient parentGid nodeType name expected key s) := by
  refine mutation_outcome ?_
  rw [read_bind, id_eq]
  refine settled_require fun hparent => settled_require fun _ => ?_
  rw [bind_ok (nextGid_ok hfresh)]
  have hgid : ∃ i < s.drawn + 1, ambient.gidFactory s.drawn = ambient.gidFactory i :=
    ⟨s.drawn, Nat.lt_succ_self _, rfl⟩
  refine .done (h.putNode (Nat.le_succ _) hgid rfl hparent fun p hp hreach => ?_) rfl rfl rfl
  -- nothing leads to a node whose gid is new
  obtain ⟨m, hm⟩ : ∃ m, s.node? (ambient.gidFactory s.drawn) = some m := by
    rcases reflTransGen_iff_eq_or_transGen.mp hreach with heq | hreach
    · obtain ⟨m, hm, -⟩ := hasLive_iff.mp (hparent p hp)
      have hsame : p = ambient.gidFactory s.drawn := heq.symm
      exact ⟨m, hsame ▸ hm⟩
    · exact h.exists_ancestor hreach
  rw [h.node?_fresh hfresh] at hm
  cases hm

theorem removeNode_outcome (nodeGid : Str) :
    Outcome ambient key (.remove nodeGid) s (removeNode ambient nodeGid expected key s) := by
  refine mutation_outcome ?_
  rw [read_bind, id_eq]
  refine settled_require fun hlive => ?_
  obtain ⟨removed, hremoved, hclosed, hexists⟩ := h.subtree_ok hlive
  have hints : ∀ x ∈ removed, ∃ v, ambient.int x = some v := by
    intro x hx
    obtain ⟨n, hn⟩ := hexists x hx
    obtain ⟨i, -, hi⟩ := h.nodesDrawn n (mem_of_node? hn)
    obtain ⟨v, hv, -⟩ := hfresh.decimal i
    rw [gid_of_node? hn] at hi
    exact ⟨v, hi ▸ hv⟩
  obtain ⟨sorted, hsorted⟩ := sortedByInt_ok hints
  rw [lift_bind_ok (found_eq_ok.mpr hremoved), bind_ok (forM_removeOne removed h.nodeGids hexists)]
  show Settled ambient s ((lift (sortedByInt ambient removed) >>= _) (s.markRemoved removed))
  rw [lift_bind_ok hsorted]
  exact .done (h.markRemoved hclosed) rfl rfl rfl

theorem createBinding_outcome (nodeGid occurrenceGid role : Str) :
    Outcome ambient key (.bind nodeGid occurrenceGid role) s
      (createBinding ambient nodeGid occurrenceGid role expected key s) := by
  refine mutation_outcome ?_
  rw [read_bind, id_eq]
  refine settled_require fun hlive => settled_require fun _ => settled_require fun hload => ?_
  rw [bind_ok (nextGid_ok hfresh)]
  let binding : WorkspaceBinding :=
    ⟨ambient.gidFactory s.drawn, nodeGid, occurrenceGid, role, false⟩
  exact .done (h.putBinding (b := binding) hfresh rfl hlive hload) rfl rfl rfl

/-- **Every call** is a replay, is refused, or is done and recorded. -/
theorem call_outcome (m : WorkspaceMutation) : Outcome ambient m.key m.payload s (m.call ambient s) := by
  cases m with
  | createNode parentGid nodeType name expected key =>
    exact createNode_outcome h hfresh parentGid nodeType name
  | moveNode nodeGid newParentGid expected key => exact moveNode_outcome h nodeGid newParentGid
  | removeNode nodeGid expected key => exact removeNode_outcome h hfresh nodeGid
  | createBinding nodeGid occurrenceGid role expected key =>
    exact createBinding_outcome h hfresh nodeGid occurrenceGid role

end

/-! ## Runs -/

theorem Lawful.next (h : Lawful ambient s) (hfresh : ambient.Fresh) (m : WorkspaceMutation) :
    Lawful ambient (s.next ambient m) := by
  have houtcome := call_outcome h hfresh m
  unfold SimulationWorkspace.next
  generalize m.call ambient s = result at houtcome
  cases houtcome with
  | replayed _ _ => exact h
  | refused _ => exact h
  | accepted _ hlawful _ _ _ => exact hlawful

theorem Lawful.recorded_next (h : Lawful ambient s) (hfresh : ambient.Fresh) (m : WorkspaceMutation)
    (hentry : lookup WorkspaceEntry.key key s.idempotency = some entry) :
    lookup WorkspaceEntry.key key (s.next ambient m).idempotency = some entry := by
  have houtcome := call_outcome h hfresh m
  unfold SimulationWorkspace.next
  generalize m.call ambient s = result at houtcome
  cases houtcome with
  | replayed _ _ => exact hentry
  | refused _ => exact hentry
  | accepted hnew _ _ _ hledger =>
    have hne : m.key ≠ key := by
      rintro rfl
      rw [hnew] at hentry
      cases hentry
    rw [hledger, lookup_upsert, if_neg hne, hentry]

theorem recorded_after (hfresh : ambient.Fresh) (more : List WorkspaceMutation)
    (h : Lawful ambient s)
    (hentry : lookup WorkspaceEntry.key key s.idempotency = some entry) :
    lookup WorkspaceEntry.key key (Successive.after (next ambient) s more).idempotency
      = some entry := by
  induction more generalizing s with
  | nil => exact hentry
  | cons m more ih => exact ih (h.next hfresh m) (h.recorded_next hfresh m hentry)

variable {gid tenantGid ownerGid name : Str}

theorem create_lawful (h : create gid tenantGid ownerGid name = .ok s) : Lawful ambient s := by
  obtain ⟨-, -, h⟩ := bind_eq_ok.mp h
  cases h
  have hnone : ∀ a b, ¬ Edge (fun _ : Str => (none : Option Str)) a b := fun a b hab => by cases hab
  refine ⟨List.nodup_nil, ?_, ?_, ?_, fun a ha => ?_, ?_, fun _ => Nat.zero_le _⟩
  · simp
  · simp
  · simp
  · cases ha with
    | single hab => exact hnone _ _ hab
    | tail _ hab => exact hnone _ _ hab
  · simp

theorem recorded_of_ok (h : Lawful ambient s) (hfresh : ambient.Fresh) {m : WorkspaceMutation}
    {change : WorkspaceChange} (hcall : m.call ambient s = (.ok change, s')) :
    ∃ entry, lookup WorkspaceEntry.key m.key s'.idempotency = some entry
      ∧ entry.digest = ambient.fingerprint m.payload ∧ entry.result = change := by
  have houtcome := call_outcome h hfresh m
  rw [hcall] at houtcome
  cases houtcome with
  | replayed hentry hdigest => exact ⟨_, hentry, hdigest, rfl⟩
  | accepted _ _ _ _ hledger =>
    refine ⟨⟨m.key, ambient.fingerprint m.payload, change⟩, ?_, rfl, rfl⟩
    rw [hledger, lookup_upsert, if_pos rfl]

theorem call_recorded {m : WorkspaceMutation}
    (hentry : lookup WorkspaceEntry.key m.key s.idempotency = some entry)
    (hdigest : entry.digest = ambient.fingerprint m.payload) :
    m.call ambient s = (.ok entry.result, s) := by
  cases m <;> exact (mutation_recorded hentry).trans (if_pos hdigest)

/-! ## What holds of every run -/

/-- The structure of a workspace: an acyclic forest of live nodes whose parents are live, no live
binding at a removed node, and at most one live load binding of an occurrence. -/
structure WellFormed (s : SimulationWorkspace) : Prop where
  unique : (s.nodes.map WorkspaceNode.gid).Nodup
  acyclic : Acyclic fun a b => ∃ n ∈ s.nodes, n.gid = a ∧ n.removed = false ∧ n.parentGid = some b
  parents : ∀ n ∈ s.nodes, n.removed = false → ∀ p ∈ n.parentGid,
    ∃ m ∈ s.nodes, m.gid = p ∧ m.removed = false
  bindings : ∀ b ∈ s.bindings, b.removed = false →
    ∃ n ∈ s.nodes, n.gid = b.nodeGid ∧ n.removed = false
  loads : ∀ occurrenceGid, (s.bindings.filter fun b =>
    b.occurrenceGid = occurrenceGid && b.role = "load".toList && !b.removed).length ≤ 1

/-- What a call does to the workspace it is made on. -/
structure AnswersWell (ambient : WorkspaceAmbient) (s : SimulationWorkspace)
    (m : WorkspaceMutation) : Prop where
  /-- A refused call raises an error of the module and changes nothing. -/
  refused : ∀ e s', m.call ambient s = (.error e, s') → e.IsWorkspaceError ∧ s' = s
  /-- A call of a key that was not recorded moves the row version by one. -/
  accepted : ∀ change s', m.call ambient s = (.ok change, s') →
    lookup WorkspaceEntry.key m.key s.idempotency = none →
      s'.rowVersion = s.rowVersion + 1 ∧ change.rowVersion = s'.rowVersion
  /-- A call of a recorded key that goes through changes nothing. -/
  replayed : ∀ change s', m.call ambient s = (.ok change, s') →
    lookup WorkspaceEntry.key m.key s.idempotency ≠ none → s' = s
  /-- Whatever calls come between, a call made again with its key and payload returns the same and
  changes nothing. -/
  repeated : ∀ change s' more (m' : WorkspaceMutation), m.call ambient s = (.ok change, s') →
    m'.key = m.key → m'.payload = m.payload →
      m'.call ambient (Successive.after (next ambient) s' more)
        = (.ok change, Successive.after (next ambient) s' more)

theorem Lawful.wellFormed (h : Lawful ambient s) : s.WellFormed where
  unique := h.nodeGids
  acyclic := by
    refine h.acyclic.mono ?_
    rintro a b ⟨n, hn, rfl, -, hp⟩
    have hfound : s.node? n.gid = some n := lookup_of_mem h.nodeGids hn
    rw [Edge, parent, hfound]
    exact hp
  parents n hn hlive p hp := by
    obtain ⟨m, hm, hmlive⟩ := h.parents n hn p hp
    exact ⟨m, mem_of_node? hm, gid_of_node? hm, hmlive hlive⟩
  bindings b hb hlive := by
    obtain ⟨n, hn, hnlive⟩ := hasLive_iff.mp (h.bound b hb hlive)
    exact ⟨n, mem_of_node? hn, gid_of_node? hn, hnlive⟩
  loads occurrenceGid := by
    rw [← List.countP_eq_length_filter]
    exact h.loads occurrenceGid

theorem Lawful.answersWell (h : Lawful ambient s) (hfresh : ambient.Fresh) (m : WorkspaceMutation) :
    AnswersWell ambient s m where
  refused e s' hcall := by
    have houtcome := call_outcome h hfresh m
    rw [hcall] at houtcome
    cases houtcome with
    | refused he => exact ⟨he, rfl⟩
  accepted change s' hcall hnone := by
    have houtcome := call_outcome h hfresh m
    rw [hcall] at houtcome
    cases houtcome with
    | replayed hentry _ =>
      rw [hnone] at hentry
      cases hentry
    | accepted _ _ hversion hchange _ => exact ⟨hversion, hchange⟩
  replayed change s' hcall hrecorded := by
    have houtcome := call_outcome h hfresh m
    rw [hcall] at houtcome
    cases houtcome with
    | replayed _ _ => rfl
    | accepted hnew _ _ _ _ => exact absurd hnew hrecorded
  repeated change s' more m' hcall hkey hpayload := by
    obtain ⟨entry, hentry, hdigest, rfl⟩ := recorded_of_ok h hfresh hcall
    have hlawful : Lawful ambient s' := by
      have hnext := h.next hfresh m
      unfold SimulationWorkspace.next at hnext
      rwa [hcall] at hnext
    refine call_recorded ?_ (hpayload ▸ hdigest)
    rw [hkey]
    exact recorded_after hfresh more hlawful hentry

/-- **After any calls a workspace is well formed, and every further call is answered well.** -/
theorem workspace_promises_kept (hfresh : ambient.Fresh)
    {start : SimulationWorkspace} (hstart : create gid tenantGid ownerGid name = .ok start)
    (calls : List WorkspaceMutation) :
    (Successive.after (next ambient) start calls).WellFormed
      ∧ ∀ m, AnswersWell ambient (Successive.after (next ambient) start calls) m := by
  have hlawful : Lawful ambient (Successive.after (next ambient) start calls) :=
    Successive.after_keeps (create_lawful hstart) fun s m h => h.next hfresh m
  exact ⟨hlawful.wellFormed, hlawful.answersWell hfresh⟩

/-! ## A workspace with the gids 1, 11, 111, … -/

def repunits : WorkspaceAmbient where
  digit c := if c.isDigit then some (c.toNat - 48) else none
  fingerprint
    | .create parentGid nodeType name => "create ".toList ++ parentGid.getD [] ++ nodeType ++ name
    | .move nodeGid parentGid => "move ".toList ++ nodeGid ++ parentGid.getD []
    | .remove nodeGid => "remove ".toList ++ nodeGid
    | .bind nodeGid occurrenceGid role => "bind ".toList ++ nodeGid ++ occurrenceGid ++ role
  gidFactory i := List.replicate (i + 1) '1'

theorem repunits_fresh : repunits.Fresh where
  injective i j h := by
    have hlength := congrArg List.length h
    simpa [repunits] using hlength
  decimal i := by
    have hdigits : (List.replicate (i + 1) '1').mapM repunits.digit = some (List.replicate (i + 1) 1) := by
      induction i with
      | zero => rfl
      | succ i ih =>
        rw [List.replicate_succ, List.mapM_cons, ih]
        rfl
    have hpos : ∀ (digits : List ℕ) (n : ℕ), 0 < n → 0 < digits.foldl (fun n d => 10 * n + d) n := by
      intro digits
      induction digits with
      | nil => exact fun n hn => hn
      | cons d digits ih => exact fun n hn => ih _ (show 0 < 10 * n + d by omega)
    refine ⟨_, ?_, hpos (List.replicate i 1) (10 * 0 + 1) (by decide)⟩
    have hne : repunits.gidFactory i ≠ [] := by simp [repunits]
    rw [WorkspaceAmbient.int, if_neg hne]
    show ((List.replicate (i + 1) '1').mapM repunits.digit).map _ = _
    rw [hdigits]
    rfl

/-- A line with a station that is bound, moved to the top and removed. -/
def editedCalls : List WorkspaceMutation :=
  [.createNode none "line".toList "L".toList 1 "a".toList,
    .createNode (some "1".toList) "station".toList "S".toList 2 "b".toList,
    .createBinding "11".toList "900".toList "load".toList 3 "c".toList,
    .moveNode "11".toList none 4 "d".toList,
    .moveNode "1".toList (some "11".toList) 5 "e".toList,
    .removeNode "11".toList 6 "f".toList]

theorem workspace_promises_kept_edited :
    ∃ start, create "10".toList "20".toList "30".toList " W ".toList = .ok start
      ∧ (Successive.after (next repunits) start editedCalls).rowVersion = 7
      ∧ (Successive.after (next repunits) start editedCalls).WellFormed
      ∧ ∀ m, AnswersWell repunits (Successive.after (next repunits) start editedCalls) m := by
  have hrun : ∃ start, create "10".toList "20".toList "30".toList " W ".toList = .ok start
      ∧ (Successive.after (next repunits) start editedCalls).rowVersion = 7 :=
    ⟨_, rfl, by decide +kernel⟩
  obtain ⟨start, hstart, hversion⟩ := hrun
  exact ⟨start, hstart, hversion, workspace_promises_kept repunits_fresh hstart editedCalls⟩

end SimulationWorkspace

end Ai00.Simulation
