import Ai00.Basic.Checks
import Ai00.Basic.Successive
import Ai00.Connector.Worker

/-! # The viewer interaction session

`ViewerInteractionSession` holds the grant under which a viewer may be used: one at a time, renewed by grants
of the same nonce, and retired for good when it is invalidated. Work is dispatched under a lease, and is
authorized while the grant that it was begun with still stands.

The session keeps the grant of one dispatch, and whichever lease is disposed clears it. Those that begin a
dispatch hold the serial gate of the viewer until its lease is disposed, so that leases follow one another;
`viewer_session_promises` is about every run, and in its last part about the runs in which they do.
-/

namespace Ai00.Connector.ViewerSession

open Successive

/-- What a renewal may not change. Two of these have the same canonical texts exactly when they are the same. -/
structure Scope where
  actorId : String
  tenantId : String
  deviceId : String
  runtimeInstanceId : String
  workspaceGid : String
  documentGid : String
  sourceAssociationId : String
  documentSession : String
  policyVersion : String
  /-- the id and the contract hash of each -/
  operations : List (String × String)
  deriving DecidableEq

structure ViewerInteractionGrant extends Scope where
  sessionNonce : String
  generation : ℕ
  issuedAt : Ticks
  expiresAt : Ticks

/-- What a call is given of the runtime and of the two clocks. -/
structure Moment where
  runtime : Option RuntimeSession
  now : Ticks
  monotonic : Ticks

structure ViewerInteractionSession where
  retired : Finset String := ∅
  grant : Option ViewerInteractionGrant := none
  dispatch : Option ViewerInteractionGrant := none
  deadline : Ticks := 0

/-! ## The operations -/

/-- `Matches`. -/
def ViewerInteractionGrant.isFor (value : ViewerInteractionGrant) (m : Moment) : Bool :=
  m.runtime.any fun runtime => runtime.deviceId = value.deviceId && runtime.tenantId = value.tenantId
    && runtime.instanceId = value.runtimeInstanceId && decide (m.now < runtime.expiresAt)

/-- The checks of `Install` where a grant is open. -/
def ViewerInteractionGrant.renewedBy (grant value : ViewerInteractionGrant) : Except String Unit := do
  require (grant.sessionNonce = value.sessionNonce) "interaction_already_open"
  require (grant.generation < value.generation ∧ grant.issuedAt ≤ value.issuedAt) "grant_generation_stale"
  require (grant.toScope = value.toScope) "interaction_scope_denied"

namespace ViewerInteractionSession

def install (s : ViewerInteractionSession) (value : ViewerInteractionGrant) (m : Moment) :
    Except String ViewerInteractionSession := do
  require (value.isFor m = true) "interaction_scope_denied"
  require (value.issuedAt ≤ m.now ∧ m.now < value.expiresAt) "authorization_expired"
  require (value.sessionNonce ∉ s.retired ∧ s.retired.card < 10000) "interaction_closed"
  s.grant.forM (·.renewedBy value)
  return { s with grant := some value, deadline := m.monotonic + (value.expiresAt - m.now) }

def validate (s : ViewerInteractionSession) (interactionId : String) (m : Moment) : Option String :=
  match s.grant with
  | none => some "interaction_closed"
  | some grant =>
    if grant.sessionNonce ≠ interactionId then some "interaction_closed"
    else if ¬ grant.isFor m then some "interaction_scope_denied"
    else if grant.expiresAt ≤ m.now ∨ s.deadline ≤ m.monotonic then some "authorization_expired"
    else none

def invalidate (s : ViewerInteractionSession) : ViewerInteractionSession :=
  { s with retired := s.grant.elim s.retired fun grant => insert grant.sessionNonce s.retired, grant := none }

def beginDispatch (s : ViewerInteractionSession) (expected : ViewerInteractionGrant) :
    ViewerInteractionSession := { s with dispatch := some expected }

/-- `DispatchLease.Dispose`, which does not look at the lease. -/
def dispose (s : ViewerInteractionSession) : ViewerInteractionSession := { s with dispatch := none }

def isDispatchAuthorized (s : ViewerInteractionSession) (m : Moment) : Bool :=
  match s.dispatch, s.grant with
  | some dispatch, some grant =>
    dispatch.sessionNonce = grant.sessionNonce && dispatch.sourceAssociationId = grant.sourceAssociationId
      && dispatch.documentSession = grant.documentSession && (s.validate dispatch.sessionNonce m).isNone
  | _, _ => false

/-- The current grant stands for a dispatch that was begun with `expected`. -/
def Allows (s : ViewerInteractionSession) (expected : ViewerInteractionGrant) (m : Moment) : Prop :=
  ∃ grant, s.grant = some grant ∧ expected.sessionNonce = grant.sessionNonce
    ∧ expected.sourceAssociationId = grant.sourceAssociationId
    ∧ expected.documentSession = grant.documentSession ∧ s.validate expected.sessionNonce m = none

variable {s s' : ViewerInteractionSession} {value : ViewerInteractionGrant} {m : Moment}

theorem isDispatchAuthorized_iff :
    s.isDispatchAuthorized m = true ↔ ∃ expected, s.dispatch = some expected ∧ s.Allows expected m := by
  rw [isDispatchAuthorized]
  split
  case h_1 dispatch grant hdispatch hgrant =>
    simp only [Bool.and_eq_true, decide_eq_true_eq, Option.isNone_iff_eq_none]
    constructor
    · rintro ⟨⟨⟨hnonce, hsource⟩, hdocument⟩, hvalid⟩
      exact ⟨dispatch, hdispatch, grant, hgrant, hnonce, hsource, hdocument, hvalid⟩
    · rintro ⟨expected, hexpected, grant', hgrant', hnonce, hsource, hdocument, hvalid⟩
      cases hdispatch.symm.trans hexpected
      cases hgrant.symm.trans hgrant'
      exact ⟨⟨⟨hnonce, hsource⟩, hdocument⟩, hvalid⟩
  case h_2 hnone =>
    refine iff_of_false Bool.false_ne_true ?_
    rintro ⟨expected, hexpected, grant, hgrant, -⟩
    exact hnone _ _ hexpected hgrant

theorem of_validate {nonce : String} (h : s.validate nonce m = none) :
    ∃ grant, s.grant = some grant ∧ grant.sessionNonce = nonce ∧ m.monotonic < s.deadline := by
  rw [validate] at h
  split at h
  · cases h
  case h_2 grant hgrant =>
    split_ifs at h with hnonce hmatches htime
    exact ⟨grant, hgrant, not_not.mp hnonce, not_le.mp fun hle => htime (.inr hle)⟩

theorem validate_of_ne {nonce : String} (h : ∀ grant, s.grant = some grant → grant.sessionNonce ≠ nonce) :
    s.validate nonce m = some "interaction_closed" := by
  rw [validate]
  split
  · rfl
  case h_2 grant hgrant => exact if_pos (h grant hgrant)

theorem install_eq_ok (h : s.install value m = .ok s') : value.sessionNonce ∉ s.retired
      ∧ (∀ grant, s.grant = some grant → grant.sessionNonce = value.sessionNonce
          ∧ grant.generation < value.generation ∧ grant.toScope = value.toScope)
      ∧ s' = { s with grant := some value, deadline := m.monotonic + (value.expiresAt - m.now) } := by
  rw [install] at h
  simp only [andThen_eq_ok] at h
  obtain ⟨-, -, hretired, hrenewed, h⟩ := h
  refine ⟨(require_eq_ok.mp hretired).1, ?_, (Except.ok.inj h).symm⟩
  intro grant hgrant
  rw [hgrant] at hrenewed
  obtain ⟨hnonce, hrenewed⟩ := andThen_eq_ok.mp hrenewed
  obtain ⟨hgeneration, hscope⟩ := andThen_eq_ok.mp hrenewed
  exact ⟨require_eq_ok.mp hnonce, (require_eq_ok.mp hgeneration).1, require_eq_ok.mp hscope⟩

end ViewerInteractionSession

/-! ## Runs -/

inductive Call where
  | install (value : ViewerInteractionGrant) (m : Moment)
  | validate (interactionId : String) (m : Moment)
  | invalidate
  | beginDispatch (expected : ViewerInteractionGrant)
  /-- the lease of the dispatch that was begun as the `lease`-th -/
  | dispose (lease : ℕ)

structure World where
  session : ViewerInteractionSession := {}
  /-- the grants that were accepted with the deadlines that they fixed, the last one first -/
  accepted : List (ViewerInteractionGrant × Ticks) := []
  begun : ℕ := 0
  /-- the leases that are not disposed, with what they were begun with -/
  held : List (ℕ × ViewerInteractionGrant) := []

def step (w : World) : Call → World
  | .install value m =>
    match w.session.install value m with
    | .ok session =>
      { w with session, accepted := (value, m.monotonic + (value.expiresAt - m.now)) :: w.accepted }
    | .error _ => w
  | .validate _ _ => w
  | .invalidate => { w with session := w.session.invalidate }
  | .beginDispatch expected =>
    { w with session := w.session.beginDispatch expected
             begun := w.begun + 1
             held := (w.begun, expected) :: w.held }
  | .dispose lease =>
    if lease < w.begun then
      { w with session := w.session.dispose, held := w.held.filter (·.1 ≠ lease) }
    else w

def run (calls : List Call) : World := after step {} calls

/-- Leases follow one another: none is begun while another is held, nor disposed twice while one is. -/
def Orderly (w : World) : Call → Prop
  | .beginDispatch _ => w.held = []
  | .dispose lease => w.held = [] ∨ lease ∈ w.held.map Prod.fst
  | _ => True

/-- Every dispatch is authorized from its beginning until its lease is disposed, exactly while the current
grant stands for it. -/
def World.Leased (w : World) : Prop :=
  ∀ m, (∀ lease ∈ w.held, w.session.isDispatchAuthorized m = true ↔ w.session.Allows lease.2 m)
    ∧ (w.held = [] → w.session.isDispatchAuthorized m = false)

/-- The generations of a nonce increase, and its scope stays. -/
def World.Renewed (w : World) : Prop :=
  w.accepted.Pairwise fun newer older => newer.1.sessionNonce = older.1.sessionNonce →
    older.1.generation < newer.1.generation ∧ newer.1.toScope = older.1.toScope

structure Promises (calls : List Call) : Prop where
  /-- What was invalidated never validates or authorizes a dispatch again. -/
  closed : ∀ past more grant m, past ++ .invalidate :: more = calls →
    (run past).session.grant = some grant →
      (run calls).session.validate grant.sessionNonce m = some "interaction_closed"
        ∧ ∀ dispatch, (run calls).session.dispatch = some dispatch →
            dispatch.sessionNonce = grant.sessionNonce → (run calls).session.isDispatchAuthorized m = false
  renewed : (run calls).Renewed
  /-- A nonce validates only until the deadline of its last accepted grant. -/
  timed : ∀ nonce m, (run calls).session.validate nonce m = none → ∃ grant deadline,
    (run calls).accepted.find? (·.1.sessionNonce = nonce) = some (grant, deadline) ∧ m.monotonic < deadline
  leased : (∀ past call, past ++ [call] <+: calls → Orderly (run past) call) → (run calls).Leased

/-! ## What a run keeps -/

/-- The accepted grants are those of the current nonce, the last one on top, and of retired nonces. -/
structure Sound (w : World) : Prop where
  renewed : w.Renewed
  known : ∀ x ∈ w.accepted, x.1.sessionNonce ∈ w.session.retired
    ∨ ∃ grant, w.session.grant = some grant ∧ grant.sessionNonce = x.1.sessionNonce
  current : ∀ grant, w.session.grant = some grant →
    grant.sessionNonce ∉ w.session.retired ∧ w.accepted.head? = some (grant, w.session.deadline)

variable {w : World}

theorem Sound.install (h : Sound w) {value : ViewerInteractionGrant} {m : Moment}
    {session : ViewerInteractionSession} (hok : w.session.install value m = .ok session) :
    Sound { w with session, accepted := (value, m.monotonic + (value.expiresAt - m.now)) :: w.accepted } := by
  obtain ⟨hretired, hrenews, rfl⟩ := ViewerInteractionSession.install_eq_ok hok
  refine ⟨List.pairwise_cons.mpr ⟨?_, h.renewed⟩, ?_, ?_⟩
  · intro older holder hnonce
    rcases h.known older holder with hold | ⟨grant, hgrant, hsame⟩
    · rw [← hnonce] at hold
      exact absurd hold hretired
    · obtain ⟨-, hgeneration, hscope⟩ := hrenews grant hgrant
      obtain ⟨rest, haccepted⟩ := List.head?_eq_some_iff.mp (h.current grant hgrant).2
      rw [haccepted] at holder
      rcases List.mem_cons.mp holder with rfl | holder
      · exact ⟨hgeneration, hscope.symm⟩
      · have hpairs := h.renewed
        rw [World.Renewed, haccepted, List.pairwise_cons] at hpairs
        obtain ⟨hlt, heq⟩ := hpairs.1 older holder hsame
        exact ⟨hlt.trans hgeneration, hscope.symm.trans heq⟩
  · intro x hx
    rcases List.mem_cons.mp hx with rfl | hx
    · exact .inr ⟨value, rfl, rfl⟩
    · rcases h.known x hx with hold | ⟨grant, hgrant, hsame⟩
      · exact .inl hold
      · exact .inr ⟨value, rfl, (hrenews grant hgrant).1.symm.trans hsame⟩
  · intro grant hgrant
    obtain rfl := Option.some.inj hgrant
    exact ⟨hretired, rfl⟩

theorem Sound.invalidate (h : Sound w) : Sound { w with session := w.session.invalidate } := by
  refine ⟨h.renewed, fun x hx => .inl ?_, nofun⟩
  rw [ViewerInteractionSession.invalidate]
  rcases h.known x hx with hold | ⟨grant, hgrant, hsame⟩
  · cases w.session.grant with
    | none => exact hold
    | some grant => exact Finset.mem_insert_of_mem hold
  · rw [hgrant, ← hsame]
    exact Finset.mem_insert_self _ _

theorem Sound.step (h : Sound w) (call : Call) : Sound (step w call) := by
  cases call with
  | install value m =>
    rw [ViewerSession.step]
    split
    case h_1 session hok => exact h.install hok
    case h_2 => exact h
  | validate => exact h
  | invalidate => exact h.invalidate
  | beginDispatch expected => exact ⟨h.renewed, h.known, h.current⟩
  | dispose lease =>
    rw [ViewerSession.step]
    split_ifs
    · exact ⟨h.renewed, h.known, h.current⟩
    · exact h

theorem sound_run (calls : List Call) : Sound (run calls) :=
  after_keeps ⟨List.Pairwise.nil, nofun, nofun⟩ fun _ call h => h.step call

theorem retired_subset_step (w : World) (call : Call) : w.session.retired ⊆ (step w call).session.retired := by
  cases call with
  | install value m =>
    rw [step]
    split
    case h_1 session hok =>
      obtain ⟨-, -, rfl⟩ := ViewerInteractionSession.install_eq_ok hok
      exact subset_rfl
    case h_2 => exact subset_rfl
  | invalidate =>
    rw [step, ViewerInteractionSession.invalidate]
    cases w.session.grant with
    | none => exact subset_rfl
    | some grant => exact Finset.subset_insert _ _
  | validate => exact subset_rfl
  | beginDispatch => exact subset_rfl
  | dispose =>
    rw [step]
    split_ifs <;> exact subset_rfl

theorem retired_subset (past more : List Call) :
    (run past).session.retired ⊆ (run (past ++ more)).session.retired := by
  rw [run, run, after_append]
  refine after_related (I := fun _ => True) (R := fun w w' : World => w.session.retired ⊆ w'.session.retired)
    (fun _ => subset_rfl) (fun _ _ _ h h' => h.trans h') trivial (fun _ _ _ => trivial) ?_
  exact fun w call _ => retired_subset_step w call

theorem retired_of_invalidate {past more : List Call} {grant : ViewerInteractionGrant}
    (h : (run past).session.grant = some grant) :
    grant.sessionNonce ∈ (run (past ++ .invalidate :: more)).session.retired := by
  rw [List.append_cons]
  refine retired_subset _ _ ?_
  rw [run, after_concat, step, ← run, ViewerInteractionSession.invalidate, h]
  exact Finset.mem_insert_self _ _

/-- The session dispatches for the one lease that is held, if any is. -/
structure Tidy (w : World) : Prop where
  dispatch : w.session.dispatch = w.held.head?.map Prod.snd
  one : w.held.length ≤ 1

theorem Tidy.step (h : Tidy w) {call : Call} (horderly : Orderly w call) : Tidy (step w call) := by
  cases call with
  | install value m =>
    rw [ViewerSession.step]
    split
    case h_1 session hok =>
      obtain ⟨-, -, rfl⟩ := ViewerInteractionSession.install_eq_ok hok
      exact ⟨h.dispatch, h.one⟩
    case h_2 => exact h
  | validate => exact h
  | invalidate => exact ⟨h.dispatch, h.one⟩
  | beginDispatch expected =>
    refine ⟨rfl, ?_⟩
    rw [ViewerSession.step, horderly]
    rfl
  | dispose lease =>
    rw [ViewerSession.step]
    split_ifs
    · have hnone : w.held.filter (·.1 ≠ lease) = [] := by
        rcases horderly with hheld | hmem
        · rw [hheld]
          rfl
        · obtain ⟨only, honly⟩ := List.length_eq_one_iff.mp
            (le_antisymm h.one (List.length_pos_of_mem (List.mem_map.mp hmem).choose_spec.1))
          rw [honly, List.map_singleton, List.mem_singleton] at hmem
          rw [honly, List.filter_singleton, hmem]
          simp
      rw [hnone]
      exact ⟨rfl, Nat.zero_le 1⟩
    · exact h

theorem Tidy.leased (h : Tidy w) : w.Leased := by
  intro m
  constructor
  · intro lease hlease
    obtain ⟨only, honly⟩ := List.length_eq_one_iff.mp (le_antisymm h.one (List.length_pos_of_mem hlease))
    rw [honly, List.mem_singleton] at hlease
    subst hlease
    have hdispatch : w.session.dispatch = some lease.2 := by rw [h.dispatch, honly, List.head?_cons, Option.map_some]
    rw [ViewerInteractionSession.isDispatchAuthorized_iff, hdispatch]
    constructor
    · rintro ⟨_, ⟨⟩, hallows⟩
      exact hallows
    · exact fun hallows => ⟨lease.2, rfl, hallows⟩
  · intro hheld
    rw [Bool.eq_false_iff, ne_eq, ViewerInteractionSession.isDispatchAuthorized_iff, h.dispatch, hheld]
    rintro ⟨_, ⟨⟩, -⟩

/-- **What the session promises**, whatever the clocks and the runtime are at each call. -/
theorem viewer_session_promises (calls : List Call) : Promises calls := by
  have hsound := sound_run calls
  refine ⟨?_, hsound.renewed, ?_, ?_⟩
  · rintro past more grant m rfl hgrant
    have hclosed : (run (past ++ .invalidate :: more)).session.validate grant.sessionNonce m
        = some "interaction_closed" := by
      refine ViewerInteractionSession.validate_of_ne fun current hcurrent hsame => ?_
      refine (hsound.current current hcurrent).1 ?_
      rw [hsame]
      exact retired_of_invalidate hgrant
    refine ⟨hclosed, fun dispatch hdispatch hnonce => ?_⟩
    rw [Bool.eq_false_iff, ne_eq, ViewerInteractionSession.isDispatchAuthorized_iff, hdispatch]
    rintro ⟨_, ⟨⟩, _, -, -, -, -, hvalid⟩
    rw [hnonce, hclosed] at hvalid
    cases hvalid
  · intro nonce m hvalid
    obtain ⟨grant, hgrant, hnonce, hbefore⟩ := ViewerInteractionSession.of_validate hvalid
    obtain ⟨rest, haccepted⟩ := List.head?_eq_some_iff.mp (hsound.current grant hgrant).2
    refine ⟨grant, _, ?_, hbefore⟩
    rw [haccepted, List.find?_cons_of_pos (by simpa using hnonce)]
  · intro horderly
    exact Tidy.leased (after_invariant ⟨rfl, Nat.zero_le 1⟩ (fun _ _ h horderly => h.step horderly) horderly)

/-! ## Leases that overlap -/

def sampleGrant : ViewerInteractionGrant :=
  ⟨⟨"actor-1", "12", "device-1", "runtime-1", "1", "2", "association-1",
    "sha256:0000000000000000000000000000000000000000000000000000000000000000", "policy-1",
    [("vismockup.node.selection.change@1", "sha256:1111111111111111111111111111111111111111111111111111111111111111")]⟩,
    "aaaaaaaaaaaaaaaaaaaaaaaaaaaaaaaaaaaaaaaaaaaaaaaaaaaaaaaaaaaaaaaa", 1, 0, 600000000⟩

def sampleMoment : Moment := ⟨some ⟨"device-1", "12", 1, "runtime-1", 36000000000⟩, 0, 0⟩

theorem first_disposal_ends_second : ¬ (run [.install sampleGrant sampleMoment, .beginDispatch sampleGrant,
    .beginDispatch sampleGrant, .dispose 0]).Leased := by
  intro h
  have hauthorized := ((h sampleMoment).1 (1, sampleGrant) (List.mem_singleton.mpr rfl)).mpr
    ⟨sampleGrant, rfl, rfl, rfl, rfl, rfl⟩
  exact Bool.false_ne_true hauthorized

end Ai00.Connector.ViewerSession
