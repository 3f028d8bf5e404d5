import Ai00.Basic.Successive
import Ai00.Plugin.Mounts

/-! # Lifecycle calls in any order

Each call is one transaction with the rows it reads locked, so an interleaving of calls is a list of
them. The registry keeps nothing: what it offered is used by the request that read it, at any later
time, which is why a session may be issued from what is no longer so.

`Effect` says once what a call can do to releases, installations and sessions.
-/

namespace Ai00.Plugin

inductive Call where
  | requestInstall (a : Ambient) (token : Str) (actor : Actor) (command : InstallCommand)
  | transitionUninstall (a : Ambient) (now : Int) (actor : Actor) (command : UninstallCommand)
  | install (a : Ambient) (token : Str) (context : Context) (pluginId version : Str)
      (granted : List Str)
  | transition (a : Ambient) (context : Context) (pluginId : Str) (target : State)
  | upgrade (a : Ambient) (context : Context) (pluginId version : Str) (granted : List Str)
  | finishUpgrade (a : Ambient) (context : Context) (pluginId : Str) (healthy : Bool)
  | rollback (a : Ambient) (context : Context) (pluginId : Str)
  | revokeRelease (pluginId version reason : Str) (expectedSha256 : Option Str)
  | submitRelease (a : Ambient) (manifest : Manifest) (publisherSignature : Str)
  | reviewRelease (a : Ambient) (pluginId version : Str) (approved : Bool)
      (expectedSha256 : Option Str)
  | tenantRegistry (tenant : Str)
  | issue (offer : Nat) (request : IssueRequest)

structure World where
  tables : Tables := {}
  /-- What the registry has listed to one request or another. -/
  offers : List RegistryItem := []

def Call.run (w : World) : Call → Except Error Tables
  | .requestInstall a token actor command =>
    (Plugin.requestInstall a token actor command w.tables).map Prod.snd
  | .transitionUninstall a now actor command =>
    (Plugin.transitionUninstall a now actor command w.tables).map Prod.snd
  | .install a token context pluginId version granted =>
    Plugin.install a token context pluginId version granted w.tables
  | .transition a context pluginId target => Plugin.transition a context pluginId target w.tables
  | .upgrade a context pluginId version granted =>
    Plugin.upgrade a context pluginId version granted w.tables
  | .finishUpgrade a context pluginId healthy =>
    Plugin.finishUpgrade a context pluginId healthy w.tables
  | .rollback a context pluginId => rollbackInstallation a context pluginId w.tables
  | .revokeRelease pluginId version reason expected =>
    (Plugin.revokeRelease pluginId version reason expected w.tables).map Prod.snd
  | .submitRelease a manifest signature => Plugin.submitRelease a manifest signature w.tables
  | .reviewRelease a pluginId version approved expected =>
    Plugin.reviewRelease a pluginId version approved expected w.tables
  | .tenantRegistry _ => .ok w.tables
  | .issue offer request =>
    match w.offers[offer]? with
    | none => .ok w.tables
    | some item => (Plugin.issue item request w.tables).map Prod.snd

/-- What a request reads of the registry. -/
def Call.offers (t : Tables) : Call → List RegistryItem
  | .tenantRegistry tenant => Plugin.tenantRegistry tenant t
  | _ => []

/-- One call; one that raises is rolled back. -/
def World.execute (w : World) (c : Call) : World where
  tables := (c.run w).toOption.getD w.tables
  offers := w.offers ++ c.offers w.tables

def worldAfter (calls : List Call) : World := Successive.after World.execute {} calls

variable {t t' : Tables} {i j : Installation} {r : Release} {tenant pluginId version : Str}

/-! ## What may happen to an installation -/

/-- Its release is published, and its grants are the permissions of that release. -/
def RunsPublished (t : Tables) (i : Installation) : Prop :=
  ∃ r, t.release i.pluginId i.currentVersion = some r ∧ r.status = .published
    ∧ i.grantedCapabilities.Perm r.manifest.permissions

/-- What the state of an installation promises about its release and its grants. -/
structure Earned (t : Tables) (i : Installation) : Prop where
  mounted : i.state.isMounted = true → RunsPublished t i
  uninstalled : i.state = .uninstalled → i.grantedCapabilities = []

/-- From a row to the next one with its key: installed, moved as `TRANSITIONS` says, or installed
again after it was uninstalled. -/
inductive ChangeAllowed : Option Installation → Option Installation → Prop
  | same (old : Option Installation) : ChangeAllowed old old
  | installed (i : Installation) (h : i.state = .disabled) : ChangeAllowed none (some i)
  | moved (i j : Installation)
      (h : j.state ∈ TRANSITIONS i.state ∨ (i.state = .uninstalled ∧ j.state = .disabled))
      (hrevision : i.revision < j.revision)
      (hmount : i.mountRevocationVersion < j.mountRevocationVersion) :
      ChangeAllowed (some i) (some j)

/-- The part of a session that no call changes. -/
def SessionRow.stamp (s : SessionRow) : Str × (Str × Str) × Nat :=
  (s.session.mountSessionId, s.session.key, s.session.revocationVersion)

def Tables.stamps (t : Tables) : List (Str × (Str × Str) × Nat) :=
  t.sessions.map SessionRow.stamp

theorem stamps_congr (h : t'.sessions = t.sessions) : t'.stamps = t.stamps :=
  congrArg (List.map SessionRow.stamp) h

def Installation.withRelease (pluginId version reason : Str) (i : Installation) : Installation :=
  if i.runs pluginId version && i.state != .revoked then
    Installation.bumped { i with state := .revoked, lastError := some (reason.take 4000) }
  else i

/-- **What a call that goes through does**, `offers` being what the registry has listed and `earned`
the condition under which the row that the call leaves is one that its state promises. -/
inductive Effect (offers : List RegistryItem) (earned : Prop) (t : Tables) : Tables → Prop
  | keeps (t' : Tables) (hreleases : t'.releases = t.releases)
      (hinstallations : t'.installations = t.installations) (hsessions : t'.sessions = t.sessions) :
      Effect offers earned t t'
  | publishes (r : Release)
      (h : ∀ old ∈ t.release r.pluginId r.version, old.status ≠ .published) :
      Effect offers earned t (t.putRelease r)
  | moves (i : Installation) (t' : Tables) (hreleases : t'.releases = t.releases)
      (hinstallations : t'.installations = KeyedRows.upsert Installation.key i t.installations)
      (hsessions : t'.stamps = t.stamps)
      (hchange : ChangeAllowed (t.installation i.tenantGid i.pluginId) (some i))
      (hpositive : 1 ≤ i.mountRevocationVersion) (hearned : earned → Earned t i) :
      Effect offers earned t t'
  | revokes (r : Release) (reason : Str) (t' : Tables)
      (hreleases : t'.releases = KeyedRows.upsert Release.key r t.releases)
      (hinstallations : t'.installations
        = t.installations.map (Installation.withRelease r.pluginId r.version reason))
      (hsessions : t'.sessions = t.sessions) : Effect offers earned t t'
  | mounts (item : RegistryItem) (s : MountSession) (hoffered : item ∈ offers)
      (hkey : s.key = (item.tenant, item.pluginId))
      (hversion : s.revocationVersion = item.mountRevocationVersion)
      (hnew : ∀ x ∈ t.sessions, x.session.mountSessionId ≠ s.mountSessionId) :
      Effect offers earned t { t with sessions := t.sessions ++ [⟨s, true⟩] }

variable {offers : List RegistryItem} {earned : Prop}

/-! ## What the checks establish -/

variable {a : Ambient}

theorem runnableRelease_eq_ok (h : runnableRelease a t pluginId version = .ok r) :
    t.release pluginId version = some r ∧ r.status = .published := by
  obtain ⟨row, hrow, h⟩ := bind_eq_ok.mp h
  obtain ⟨_, hpublished, h⟩ := bind_eq_ok.mp h
  obtain ⟨_, -, h⟩ := bind_eq_ok.mp h
  obtain ⟨_, -, h⟩ := bind_eq_ok.mp h
  obtain ⟨_, -, h⟩ := bind_eq_ok.mp h
  obtain ⟨_, -, h⟩ := bind_eq_ok.mp h
  obtain ⟨_, -, h⟩ := bind_eq_ok.mp h
  cases h
  exact ⟨found_eq_ok.mp hrow, require_eq_ok.mp hpublished⟩

theorem verifiedRelease_eq_ok {release : Option Release} {sha : Str}
    {grants : List Str} (h : verifiedRelease a t release sha grants tenant = .ok r) :
    release = some r ∧ r.status = .published ∧ grants.Perm r.manifest.permissions := by
  obtain ⟨row, hrow, h⟩ := bind_eq_ok.mp h
  obtain ⟨_, hpublished, h⟩ := bind_eq_ok.mp h
  obtain ⟨_, -, h⟩ := bind_eq_ok.mp h
  obtain ⟨_, -, h⟩ := bind_eq_ok.mp h
  obtain ⟨_, -, h⟩ := bind_eq_ok.mp h
  obtain ⟨_, -, h⟩ := bind_eq_ok.mp h
  obtain ⟨_, -, h⟩ := bind_eq_ok.mp h
  obtain ⟨_, hgrants, h⟩ := bind_eq_ok.mp h
  cases h
  exact ⟨found_eq_ok.mp hrow, (require_eq_ok.mp hpublished).1, sorted_eq_iff.mp (require_eq_ok.mp hgrants)⟩

theorem runsPublished_of_verified {r' : Release}
    (hrun : runnableRelease a t i.pluginId i.currentVersion = .ok r)
    (hverified : verifyTransitionRelease a t r tenant i.grantedCapabilities = .ok r') :
    RunsPublished t i := by
  obtain ⟨hrelease, hpublished⟩ := runnableRelease_eq_ok hrun
  obtain ⟨heq, -, hgrants⟩ := verifiedRelease_eq_ok hverified
  cases heq
  exact ⟨r, hrelease, hpublished, hgrants⟩

theorem claim_eq_ok {key : CommandKey} {sha : Str} {replay : Option LifecycleResult}
    (h : claim key sha t = .ok (replay, t')) : t'.releases = t.releases
      ∧ t'.installations = t.installations ∧ t'.sessions = t.sessions := by
  unfold claim at h
  split at h
  · cases h
    exact ⟨rfl, rfl, rfl⟩
  · obtain ⟨_, -, h⟩ := bind_eq_ok.mp h
    cases h
    exact ⟨rfl, rfl, rfl⟩

theorem earned_of_idle (hmounted : i.state.isMounted = false) (h : i.state ≠ .uninstalled) : Earned t i where
  mounted hi := absurd (hmounted.symm.trans hi) Bool.false_ne_true
  uninstalled hi := absurd hi h

/-- Replacing a row by a later one that a move leads to. -/
theorem changeAllowed_bumped (h : j.state ∈ TRANSITIONS i.state ∨ (i.state = .uninstalled ∧ j.state = .disabled))
    (hrevision : j.revision = i.revision)
    (hmount : j.mountRevocationVersion = i.mountRevocationVersion) :
    ChangeAllowed (some i) (some j.bumped) :=
  .moved i _ h (hrevision ▸ Nat.lt_succ_self _) (hmount ▸ Nat.lt_succ_self _)

/-- `putInstallation` is a move. -/
theorem effect_putInstallation (hchange : ChangeAllowed (t.installation i.tenantGid i.pluginId) (some i))
    (hpositive : 1 ≤ i.mountRevocationVersion) (hearned : earned → Earned t i) :
    Effect offers earned t (t.putInstallation i) :=
  .moves i _ rfl rfl rfl hchange hpositive hearned

/-- The row that is moved has the key it is found under. -/
theorem installation_self (h : t.installation tenant pluginId = some i) :
    t.installation i.tenantGid i.pluginId = some i := by
  have hkey := key_of_installation h
  simp only [Installation.key, Prod.mk.injEq] at hkey
  rw [hkey.1, hkey.2, h]

/-! ## The two moves that nothing checks -/

/-- What makes a move lead to a row that its state does not deserve: an installation is uninstalled
with its grants, or becomes `rolled_back` by the move alone, whatever release it runs. -/
def Undeserved (t : Tables) (i : Installation) (target : State) : Prop :=
  (target = .uninstalled ∧ i.grantedCapabilities ≠ [])
    ∨ (target = .rolledBack ∧ ¬ RunsPublished t i)

variable {context : Context}

theorem earned_of_deserved {target : State}
    (hmove : transition a context pluginId target t = .ok t')
    (hrow : t.installation (tenantOf context) pluginId = some i)
    (h : ¬ Undeserved t i target) : Earned t (Installation.bumped { i with state := target }) := by
  obtain ⟨row, hfound, hmove⟩ := bind_eq_ok.mp hmove
  obtain ⟨_, -, hmove⟩ := bind_eq_ok.mp hmove
  rw [found_eq_ok, hrow] at hfound
  cases hfound
  have hplugin : i.pluginId = pluginId := congrArg Prod.snd (key_of_installation hrow)
  simp only [Undeserved, not_or, not_and, ne_eq, not_not] at h
  constructor
  · intro hmounted
    by_cases htarget : target = .enabled
    · rw [if_pos htarget] at hmove
      obtain ⟨release, hrelease, hmove⟩ := bind_eq_ok.mp hmove
      obtain ⟨verified, hverified, -⟩ := bind_eq_ok.mp hmove
      exact runsPublished_of_verified (i := i) (hplugin ▸ hrelease) hverified
    · have hback : target = .rolledBack := by
        simp only [Installation.bumped, State.isMounted, Bool.or_eq_true, beq_iff_eq] at hmounted
        exact hmounted.resolve_left htarget
      exact h.2 hback
  · exact fun htarget => h.1 htarget

/-! ## Each call -/

theorem effect_submitRelease {manifest : Manifest} {signature : Str}
    (h : submitRelease a manifest signature t = .ok t') : Effect offers earned t t' := by
  obtain ⟨_, -, h⟩ := bind_eq_ok.mp h
  obtain ⟨_, -, h⟩ := bind_eq_ok.mp h
  obtain ⟨_, hnew, h⟩ := bind_eq_ok.mp h
  cases h
  refine .publishes _ ?_
  rw [require_eq_ok.mp hnew]
  simp

theorem effect_reviewRelease {approved : Bool} {expected : Option Str}
    (h : reviewRelease a pluginId version approved expected t = .ok t') :
    Effect offers earned t t' := by
  obtain ⟨row, hrow, h⟩ := bind_eq_ok.mp h
  obtain ⟨_, hsubmitted, h⟩ := bind_eq_ok.mp h
  obtain ⟨_, -, h⟩ := bind_eq_ok.mp h
  rw [found_eq_ok] at hrow
  rw [require_eq_ok] at hsubmitted
  have hold : ∀ old ∈ t.release row.pluginId row.version, old.status ≠ .published := by
    have hkey := key_of_release hrow
    simp only [Release.key, Prod.mk.injEq] at hkey
    rw [hkey.1, hkey.2, hrow]
    intro old hold
    cases hold
    rw [hsubmitted]
    decide
  cases approved with
  | false =>
    cases h
    exact .publishes _ hold
  | true =>
    obtain ⟨_, -, h⟩ := bind_eq_ok.mp h
    obtain ⟨_, -, h⟩ := bind_eq_ok.mp h
    cases h
    exact .publishes _ hold

theorem effect_install {token : Str} {granted : List Str}
    (h : install a token context pluginId version granted t = .ok t') :
    Effect offers earned t t' := by
  obtain ⟨release, -, h⟩ := bind_eq_ok.mp h
  obtain ⟨_, hold, h⟩ := bind_eq_ok.mp h
  obtain ⟨consented, -, h⟩ := bind_eq_ok.mp h
  rw [require_eq_ok] at hold
  split at h
  · rename_i old hexisting
    cases h
    refine effect_putInstallation ?_ (Nat.le_add_left _ _) fun _ => earned_of_idle rfl nofun
    show ChangeAllowed (t.installation old.tenantGid old.pluginId) _
    rw [installation_self hexisting]
    exact changeAllowed_bumped (.inr ⟨hold old hexisting, rfl⟩) rfl rfl
  · rename_i hexisting
    cases h
    refine effect_putInstallation ?_ le_rfl fun _ => earned_of_idle rfl nofun
    show ChangeAllowed (t.installation (tenantOf context) pluginId) _
    rw [hexisting]
    exact .installed _ rfl

theorem effect_upgrade {granted : List Str}
    (h : upgrade a context pluginId version granted t = .ok t') : Effect offers earned t t' := by
  obtain ⟨release, -, h⟩ := bind_eq_ok.mp h
  obtain ⟨consented, -, h⟩ := bind_eq_ok.mp h
  obtain ⟨_, -, h⟩ := bind_eq_ok.mp h
  obtain ⟨row, hrow, h⟩ := bind_eq_ok.mp h
  obtain ⟨_, hmove, h⟩ := bind_eq_ok.mp h
  obtain ⟨result, -, h⟩ := bind_eq_ok.mp h
  cases h
  rw [found_eq_ok] at hrow
  refine effect_putInstallation ?_ (Nat.le_add_left _ _) fun _ => earned_of_idle rfl nofun
  show ChangeAllowed (t.installation row.tenantGid row.pluginId) _
  rw [installation_self hrow]
  exact changeAllowed_bumped (.inl (requireTransition_eq_ok.mp hmove)) rfl rfl

theorem effect_rollback
    (h : rollbackInstallation a context pluginId t = .ok t') : Effect offers earned t t' := by
  obtain ⟨row, hrow, h⟩ := bind_eq_ok.mp h
  obtain ⟨_, hmove, h⟩ := bind_eq_ok.mp h
  obtain ⟨result, -, h⟩ := bind_eq_ok.mp h
  obtain ⟨release, hrelease, h⟩ := bind_eq_ok.mp h
  obtain ⟨verified, hverified, h⟩ := bind_eq_ok.mp h
  cases h
  rw [found_eq_ok] at hrow
  have hplugin : row.pluginId = pluginId := congrArg Prod.snd (key_of_installation hrow)
  refine effect_putInstallation ?_ (Nat.le_add_left _ _) fun _ => ⟨fun _ => ?_, nofun⟩
  · show ChangeAllowed (t.installation row.tenantGid row.pluginId) _
    rw [installation_self hrow]
    exact changeAllowed_bumped (.inl (requireTransition_eq_ok.mp hmove)) rfl rfl
  · refine runsPublished_of_verified ?_ hverified
    exact hplugin ▸ hrelease

theorem applyUninstallDataPolicy_eq_ok (h : applyUninstallDataPolicy t tenant pluginId version = .ok t') :
    t'.releases = t.releases ∧ t'.installations = t.installations ∧ t'.sessions = t.sessions := by
  obtain ⟨_, -, h⟩ := bind_eq_ok.mp h
  split at h <;> cases h <;> exact ⟨rfl, rfl, rfl⟩

/-- What `transition` does to the row of the installation. -/
theorem transition_eq_ok {target : State}
    (h : transition a context pluginId target t = .ok t') :
    ∃ i, t.installation (tenantOf context) pluginId = some i ∧ target ∈ TRANSITIONS i.state
      ∧ t'.releases = t.releases ∧ t'.sessions = t.sessions
      ∧ t'.installations = KeyedRows.upsert Installation.key
          (Installation.bumped { i with state := target }) t.installations := by
  obtain ⟨row, hrow, h⟩ := bind_eq_ok.mp h
  obtain ⟨_, hmove, h⟩ := bind_eq_ok.mp h
  refine ⟨row, found_eq_ok.mp hrow, requireTransition_eq_ok.mp hmove, ?_⟩
  split_ifs at h
  · obtain ⟨_, -, h⟩ := bind_eq_ok.mp h
    obtain ⟨_, -, h⟩ := bind_eq_ok.mp h
    cases h
    exact ⟨rfl, rfl, rfl⟩
  · obtain ⟨t₁, hpolicy, h⟩ := bind_eq_ok.mp h
    obtain ⟨hreleases, hinstallations, hsessions⟩ := applyUninstallDataPolicy_eq_ok hpolicy
    cases h
    refine ⟨hreleases, hsessions, ?_⟩
    rw [Tables.putInstallation, hinstallations]
  · cases h
    exact ⟨rfl, rfl, rfl⟩

theorem effect_transition {target : State}
    (h : transition a context pluginId target t = .ok t')
    (hearned : earned → ∀ i, t.installation (tenantOf context) pluginId = some i →
      ¬ Undeserved t i target) : Effect offers earned t t' := by
  obtain ⟨i, hrow, hmove, hreleases, hsessions, hinstallations⟩ := transition_eq_ok h
  refine .moves _ t' hreleases hinstallations (stamps_congr hsessions) ?_ (Nat.le_add_left _ _) ?_
  · show ChangeAllowed (t.installation i.tenantGid i.pluginId) _
    rw [installation_self hrow]
    exact changeAllowed_bumped (.inl hmove) rfl rfl
  · exact fun he => earned_of_deserved h hrow (hearned he i hrow)

theorem effect_finishUpgrade {healthy : Bool}
    (h : finishUpgrade a context pluginId healthy t = .ok t') : Effect offers earned t t' := by
  refine effect_transition h fun _ i _ => ?_
  cases healthy <;> simp [Undeserved]

variable {result : LifecycleResult}

/-- Writing a row through `save_installation`, after the tables it leaves alone were changed. -/
theorem effect_saveInstallation {t₁ : Tables} {key : CommandKey} {sha : Str}
    (hreleases : t₁.releases = t.releases) (hinstallations : t₁.installations = t.installations)
    (hsessions : t₁.stamps = t.stamps)
    (hchange : ∀ previous grants error, ChangeAllowed (t.installation i.tenantGid i.pluginId)
      (some { i with previousVersion := previous, previousGrantedCapabilities := grants
                     lastError := error }))
    (hpositive : 1 ≤ i.mountRevocationVersion) (hmounted : i.state.isMounted = false)
    (hgrants : i.state = .uninstalled → i.grantedCapabilities = []) :
    Effect offers earned t (complete key sha result (saveInstallation i t₁)) := by
  unfold saveInstallation
  split
  all_goals
    refine .moves _ _ hreleases (congrArg _ hinstallations) hsessions (hchange _ _ _) hpositive ?_
    exact fun _ => ⟨fun h => absurd (hmounted.symm.trans h) Bool.false_ne_true, hgrants⟩

theorem effect_requestInstall {token : Str} {actor : Actor} {command : InstallCommand}
    (h : requestInstall a token actor command t = .ok (result, t')) :
    Effect offers earned t t' := by
  obtain ⟨command, -, h⟩ := bind_eq_ok.mp h
  obtain ⟨actor, -, h⟩ := bind_eq_ok.mp h
  obtain ⟨⟨replay, t₁⟩, hclaim, h⟩ := bind_eq_ok.mp h
  obtain ⟨hreleases, hinstallations, hsessions⟩ := claim_eq_ok hclaim
  cases replay with
  | some replay =>
    cases h
    exact .keeps _ hreleases hinstallations hsessions
  | none =>
    obtain ⟨_, -, h⟩ := bind_eq_ok.mp h
    obtain ⟨_, hold, h⟩ := bind_eq_ok.mp h
    rw [require_eq_ok] at hold
    cases h
    refine effect_saveInstallation hreleases hinstallations (stamps_congr hsessions) ?_
      (Nat.le_add_left _ _) rfl nofun
    intro previous grants error
    show ChangeAllowed (t.installation actor.tenantGid command.pluginId) _
    have hsame : t₁.installation actor.tenantGid command.pluginId
        = t.installation actor.tenantGid command.pluginId := by
      unfold Tables.installation
      rw [hinstallations]
    cases hrow : t.installation actor.tenantGid command.pluginId with
    | none => exact .installed _ rfl
    | some old =>
      rw [hsame, hrow]
      refine .moved old _ (.inr ⟨hold old (hsame.trans hrow), rfl⟩) ?_ ?_
      · exact Nat.lt_succ_of_le (le_orOne _)
      · exact Nat.lt_succ_of_le (le_orOne _)

/-- `revoke_mounts` leaves of each session what no call changes. -/
@[simp] theorem stamps_revokeMounts {installationId : Str} {now : Int} :
    (revokeMounts tenant pluginId installationId now t).stamps = t.stamps := by
  unfold revokeMounts Tables.stamps Rows.update
  rw [List.map_map]
  refine List.map_congr_left fun s _ => ?_
  rw [Function.comp_apply]
  split_ifs <;> rfl

theorem effect_transitionUninstall {now : Int} {actor : Actor} {command : UninstallCommand}
    (h : transitionUninstall a now actor command t = .ok (result, t')) :
    Effect offers earned t t' := by
  obtain ⟨command, -, h⟩ := bind_eq_ok.mp h
  obtain ⟨actor, -, h⟩ := bind_eq_ok.mp h
  obtain ⟨⟨replay, t₁⟩, hclaim, h⟩ := bind_eq_ok.mp h
  obtain ⟨hreleases, hinstallations, hsessions⟩ := claim_eq_ok hclaim
  cases replay with
  | some replay =>
    cases h
    exact .keeps _ hreleases hinstallations hsessions
  | none =>
    simp only [bind_eq_ok] at h
    obtain ⟨row, hrow, _, -, _, hmove, _, -, h⟩ := h
    rw [translate_eq_ok, requireTransition_eq_ok] at hmove
    cases h
    have hrow : t.installation actor.tenantGid command.pluginId = some row := by
      rw [found_eq_ok, Tables.installation, hinstallations] at hrow
      exact hrow
    refine effect_saveInstallation hreleases hinstallations
      (stamps_revokeMounts.trans (stamps_congr hsessions)) ?_ (Nat.le_add_left _ _) rfl fun _ => rfl
    intro previous grants error
    show ChangeAllowed (t.installation row.tenantGid row.pluginId) _
    rw [installation_self hrow]
    refine .moved row _ (.inl hmove) ?_ ?_
    · exact Nat.lt_succ_of_le (le_orOne _)
    · exact Nat.lt_succ_of_le (le_orOne _)

theorem revokeInstallation_runs (reason : Str) (i : Installation) :
    (if i.runs pluginId version then revokeInstallation reason i else .ok i)
      = .ok (i.withRelease pluginId version reason) := by
  unfold Installation.withRelease revokeInstallation
  by_cases hruns : i.runs pluginId version = true
  · by_cases hrevoked : i.state = .revoked
    · simp [hruns, hrevoked]
    · have hstate : i.state ≠ .uninstalled := by
        simp only [Installation.runs, Bool.and_eq_true, bne_iff_ne] at hruns
        exact hruns.2
      have hmove := require_bind (e := Error.lifecycle
          ("invalid plugin transition: ".toList ++ i.state.text ++ " -> ".toList ++ State.revoked.text))
        (f := fun _ => .ok (Installation.bumped
          { i with state := .revoked, lastError := some (reason.take 4000) }))
        (revoked_mem_transitions hrevoked hstate)
      rw [if_pos hruns, if_neg hrevoked, if_pos (by simp [hruns, hrevoked])]
      exact hmove
  · simp [hruns]

theorem effect_revokeRelease {reason : Str} {expected : Option Str} {n : Nat}
    (h : revokeRelease pluginId version reason expected t = .ok (n, t')) :
    Effect offers earned t t' := by
  obtain ⟨release, hrelease, h⟩ := bind_eq_ok.mp h
  obtain ⟨_, -, h⟩ := bind_eq_ok.mp h
  obtain ⟨_, -, h⟩ := bind_eq_ok.mp h
  obtain ⟨installations, hinstallations, h⟩ := bind_eq_ok.mp h
  rw [mapM_eq_map fun i _ => revokeInstallation_runs reason i] at hinstallations
  cases hinstallations
  cases h
  have hkey := key_of_release (found_eq_ok.mp hrelease)
  simp only [Release.key, Prod.mk.injEq] at hkey
  refine .revokes { release with status := .revoked } reason _ rfl ?_ rfl
  show _ = t.installations.map (Installation.withRelease release.pluginId release.version reason)
  rw [hkey.1, hkey.2]

theorem effect_issue {item : RegistryItem} {request : IssueRequest} {session : MountSession}
    (hoffered : item ∈ offers) (h : issue item request t = .ok (session, t')) :
    Effect offers earned t t' := by
  obtain ⟨_, -, h⟩ := bind_eq_ok.mp h
  obtain ⟨t₁, hsave, h⟩ := bind_eq_ok.mp h
  obtain ⟨_, hnew, hsave⟩ := bind_eq_ok.mp hsave
  cases hsave
  cases h
  exact .mounts item _ hoffered rfl rfl fun x hx => (require_eq_ok.mp hnew x hx).1

end Ai00.Plugin
