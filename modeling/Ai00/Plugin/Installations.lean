import Ai00.Plugin.Releases

/-! # Installing, upgrading and uninstalling

`plugin_platform/service.py`: two generations of lifecycle calls on the same rows. The
`PluginPlatformService` installs and uninstalls under an idempotency key and an expected revision;
the functions of the module install, move an installation from state to state, upgrade it and roll
it back, and revoke a release with every installation that runs it.
-/

namespace Ai00.Plugin

variable {t t' : Tables}

/-! ## Commands -/

structure InstallCommand where
  pluginId : Str
  releaseVersion : Str
  releaseSha256 : Str
  requestedGrants : List Str
  idempotencyKey : Str

structure UninstallCommand where
  pluginId : Str
  expectedRevision : Nat
  retainTenantData : Bool
  idempotencyKey : Str

def InstallCommand.hashed (c : InstallCommand) : Command :=
  .install c.pluginId c.releaseVersion c.releaseSha256 c.requestedGrants c.idempotencyKey

def UninstallCommand.hashed (c : UninstallCommand) : Command :=
  .uninstall c.pluginId c.expectedRevision c.retainTenantData c.idempotencyKey

structure Actor where
  gid : Str
  tenantGid : Str

def lifecycleText (maximum : Nat) (value : Str) : Except Error Str := do
  require (strip value ≠ [] ∧ value.length ≤ maximum) (invalidInput "invalid_input".toList)
  .ok (strip value)

def lifecycleActor (actor : Actor) : Except Error Actor := do
  .ok ⟨← lifecycleText 128 actor.gid, ← lifecycleText 128 actor.tenantGid⟩

/-- `sha256:[0-9a-f]{64}`. -/
def isReleaseSha256 (s : Str) : Prop :=
  s.take 7 = "sha256:".toList ∧ s.length = 71
    ∧ ∀ c ∈ s.drop 7, ('0' ≤ c ∧ c ≤ '9') ∨ ('a' ≤ c ∧ c ≤ 'f')

/-- `[a-z][a-z0-9_.-]{2,127}`. -/
def isCapabilityId (s : Str) : Prop :=
  matchesName (fun c => decide ('a' ≤ c ∧ c ≤ 'z'))
    (fun c => decide (('a' ≤ c ∧ c ≤ 'z') ∨ ('0' ≤ c ∧ c ≤ '9') ∨ c ∈ ['_', '.', '-'])) 2 127 s = true

instance (s : Str) : Decidable (isReleaseSha256 s) := inferInstanceAs (Decidable (_ ∧ _))

instance (s : Str) : Decidable (isCapabilityId s) := inferInstanceAs (Decidable (_ = _))

/-- `_install_command`. -/
def InstallCommand.checked (c : InstallCommand) : Except Error InstallCommand := do
  let pluginId ← lifecycleText 255 c.pluginId
  let releaseVersion ← lifecycleText 64 c.releaseVersion
  let idempotencyKey ← lifecycleText 512 c.idempotencyKey
  require (isReleaseSha256 c.releaseSha256) (invalidInput "invalid_input".toList)
  require ((∀ g ∈ c.requestedGrants, isCapabilityId g)
    ∧ c.requestedGrants = sorted c.requestedGrants.dedup) (invalidInput "invalid_input".toList)
  .ok { c with pluginId, releaseVersion, idempotencyKey }

/-- `_uninstall_command`. -/
def UninstallCommand.checked (c : UninstallCommand) : Except Error UninstallCommand := do
  let pluginId ← lifecycleText 255 c.pluginId
  let idempotencyKey ← lifecycleText 512 c.idempotencyKey
  require (1 ≤ c.expectedRevision) (invalidInput "invalid_input".toList)
  require (c.retainTenantData = true) (invalidInput "uninstall never purges tenant data".toList)
  .ok { c with pluginId, idempotencyKey }

/-! ## The repository -/

/-- `int(column or 1)`. -/
def orOne (n : Nat) : Nat := if n = 0 then 1 else n

theorem le_orOne (n : Nat) : n ≤ orOne n := by
  unfold orOne
  split_ifs <;> omega

/-- The result a claimed command has already, or none and the claim. -/
def claim (key : CommandKey) (commandSha256 : Str) (t : Tables) :
    Except Error (Option LifecycleResult × Tables) :=
  match KeyedRows.lookup CommandRow.key key t.commands with
  | none => .ok (none, { t with commands := t.commands ++ [⟨key, commandSha256, none⟩] })
  | some row => do
    require (row.commandSha256 = commandSha256) (.pluginLifecycle "idempotency_conflict".toList
      "idempotency key is already bound to a different command".toList)
    .ok (row.result, t)

def complete (key : CommandKey) (commandSha256 : Str) (result : LifecycleResult) (t : Tables) :
    Tables :=
  let claimed : CommandRow → Bool := fun row => row.key == key && row.commandSha256 == commandSha256
  { t with commands := Rows.update claimed (fun row => { row with result := some result }) t.commands }

/-- `save_installation`: what a row had under `previous_granted_capabilities` and `last_error`
stays. -/
def saveInstallation (row : Installation) (t : Tables) : Tables :=
  match t.installation row.tenantGid row.pluginId with
  | none => t.putInstallation { row with
      previousVersion := none, previousGrantedCapabilities := none, lastError := none }
  | some old => t.putInstallation { row with
      previousVersion := none
      previousGrantedCapabilities := old.previousGrantedCapabilities
      lastError := old.lastError }

/-- What `revoke_mounts` writes to a session. -/
def SessionRow.revokedAt (now : Int) (s : SessionRow) : SessionRow :=
  { s with active := false, session := { s.session with revokedAt := some now } }

def revokeMounts (tenant pluginId installationId : Str) (now : Int) (t : Tables) : Tables :=
  let mounted : SessionRow → Bool := fun s =>
    s.session.tenantId == tenant && s.session.pluginId == pluginId
      && s.session.installationId == installationId && s.active
  { t with sessions := Rows.update mounted (SessionRow.revokedAt now) t.sessions }

def Installation.result (row : Installation) : LifecycleResult :=
  ⟨row.pluginId, row.currentVersion, row.state, row.revision, row.grantedCapabilities, row.tenantGid⟩

/-! ## PluginPlatformService -/

/-- `f"installation_{secrets.token_hex(16)}"`, the random part being given. -/
def installationIdOf (token : Str) : Str := "installation_".toList ++ token

def requestInstall (a : Ambient) (token : Str) (actor : Actor) (command : InstallCommand)
    (t : Tables) : Except Error (LifecycleResult × Tables) := do
  let command ← command.checked
  let actor ← lifecycleActor actor
  let sha := a.commandDigest command.hashed
  let key : CommandKey := ⟨actor.tenantGid, actor.gid, "request.create".toList, command.idempotencyKey⟩
  let (replay, t) ← claim key sha t
  match replay with
  | some result => .ok (result, t)
  | none => do
    let _ ← verifiedRelease a t (t.release command.pluginId command.releaseVersion)
      command.releaseSha256 command.requestedGrants actor.tenantGid
    let existing := t.installation actor.tenantGid command.pluginId
    require (∀ i ∈ existing, i.state = .uninstalled)
      (.pluginLifecycle "already_installed".toList "plugin is already installed".toList)
    let row : Installation :=
      { tenantGid := actor.tenantGid, pluginId := command.pluginId
        currentVersion := command.releaseVersion, state := .disabled
        grantedCapabilities := command.requestedGrants, installedBy := actor.gid
        installationId := installationIdOf token
        mountRevocationVersion := existing.elim 0 (fun i => orOne i.mountRevocationVersion) + 1
        revision := existing.elim 1 (fun i => orOne i.revision + 1) }
    let t := saveInstallation row t
    .ok (row.result, complete key sha row.result t)

def Error.message : Error → Str
  | .lifecycle m | .pluginLifecycle _ m | .value m | .compatibility m | .signature m | .manifest m
  | .mountSession m => m
  | .duplicateKey => []

def transitionUninstall (a : Ambient) (now : Int) (actor : Actor) (command : UninstallCommand)
    (t : Tables) : Except Error (LifecycleResult × Tables) := do
  let command ← command.checked
  let actor ← lifecycleActor actor
  let sha := a.commandDigest command.hashed
  let key : CommandKey :=
    ⟨actor.tenantGid, actor.gid, "transition.uninstall".toList, command.idempotencyKey⟩
  let (replay, t) ← claim key sha t
  match replay with
  | some result => .ok (result, t)
  | none => do
    let row ← found (t.installation actor.tenantGid command.pluginId)
      (.pluginLifecycle "resource_not_found".toList "plugin installation not found".toList)
    require (orOne row.revision = command.expectedRevision)
      (.pluginLifecycle "revision_conflict".toList "plugin installation changed".toList)
    translate (fun e => .pluginLifecycle "invalid_transition".toList e.message)
      (requireTransition row.state .uninstalled)
    require ((t.release row.pluginId row.currentVersion).isSome)
      (notVerified "installed release is unavailable".toList)
    let newRow := { row with
      state := .uninstalled, grantedCapabilities := [], revision := orOne row.revision + 1
      mountRevocationVersion := orOne row.mountRevocationVersion + 1 }
    let t := revokeMounts actor.tenantGid row.pluginId row.installationId now t
    let t := saveInstallation newRow t
    .ok (newRow.result, complete key sha newRow.result t)

/-! ## The functions of the module -/

structure Context where
  userGid : Str
  teamGid : Option Str := none

/-- `_tenant`: the team, or the user where there is no team or its gid is empty. -/
def tenantOf (context : Context) : Str :=
  match context.teamGid with
  | some (c :: team) => c :: team
  | _ => "user:".toList ++ context.userGid

def Installation.bumped (i : Installation) : Installation :=
  { i with mountRevocationVersion := i.mountRevocationVersion + 1, revision := i.revision + 1 }

def consentedGrants (a : Ambient) (manifest : Manifest) (granted : List Str) (message : Str) :
    Except Error (List Str) := do
  let requested ← validateCapabilityGrants a manifest.permissions
  let consented ← validateCapabilityGrants a granted
  require (sameSet consented requested) (.value message)
  .ok consented

def install (a : Ambient) (token : Str) (context : Context) (pluginId version : Str)
    (granted : List Str) (t : Tables) : Except Error Tables := do
  let tenant := tenantOf context
  let release ← runnableRelease a t pluginId version
  let existing := t.installation tenant pluginId
  require (∀ i ∈ existing, i.state = .uninstalled)
    (.value "plugin is already installed; use upgrade".toList)
  let consented ← consentedGrants a release.manifest granted
    "granted_capabilities must exactly match the signed manifest permissions".toList
  match existing with
  | some old => .ok (t.putInstallation (Installation.bumped { old with
      currentVersion := version, previousVersion := none, state := .disabled
      grantedCapabilities := consented, previousGrantedCapabilities := none
      installedBy := context.userGid, lastError := none, installationId := installationIdOf token }))
  | none => .ok (t.putInstallation
      { tenantGid := tenant, pluginId, currentVersion := version, grantedCapabilities := consented
        installedBy := context.userGid, installationId := installationIdOf token })

/-- The data policy of an installed release; the one of a release that is gone is the default. -/
def uninstallPolicy (t : Tables) (pluginId version : Str) : DataPolicy :=
  (t.release pluginId version).elim {} (fun r => r.manifest.data)

def applyUninstallDataPolicy (t : Tables) (tenant pluginId version : Str) : Except Error Tables := do
  let policy := uninstallPolicy t pluginId version
  require (policy.uninstall ≠ "export-then-delete".toList)
    (.value "plugin data export is required before uninstall".toList)
  if policy.uninstall = "delete".toList
      ∨ policy.retention ∈ ["none".toList, "while-installed".toList] then
    .ok { t with namespaceKv :=
      t.namespaceKv.filter (fun row => !(row.tenantGid == tenant && row.pluginId == pluginId)) }
  else .ok t

def transition (a : Ambient) (context : Context) (pluginId : Str) (target : State) (t : Tables) :
    Except Error Tables := do
  let tenant := tenantOf context
  let row ← found (t.installation tenant pluginId) (.value "plugin is not installed".toList)
  requireTransition row.state target
  if target = .enabled then
    let release ← runnableRelease a t pluginId row.currentVersion
    let _ ← verifyTransitionRelease a t release tenant row.grantedCapabilities
    .ok (t.putInstallation (Installation.bumped { row with state := target }))
  else if target = .uninstalled then
    let t ← applyUninstallDataPolicy t tenant pluginId row.currentVersion
    .ok (t.putInstallation (Installation.bumped { row with state := target }))
  else
    .ok (t.putInstallation (Installation.bumped { row with state := target }))

def upgrade (a : Ambient) (context : Context) (pluginId version : Str) (granted : List Str)
    (t : Tables) : Except Error Tables := do
  let tenant := tenantOf context
  let release ← runnableRelease a t pluginId version
  let consented ← consentedGrants a release.manifest granted
    "granted_capabilities must exactly match the new signed manifest permissions".toList
  let _ ← verifyTransitionRelease a t release tenant consented
  let row ← found (t.installation tenant pluginId) (.value "plugin is not installed".toList)
  requireTransition row.state .upgrading
  let result ← beginUpgrade row.currentVersion version
  .ok (t.putInstallation (Installation.bumped { row with
    currentVersion := result.currentVersion, previousVersion := some result.previousVersion
    state := .upgrading, previousGrantedCapabilities := some row.grantedCapabilities
    grantedCapabilities := consented }))

def finishUpgrade (a : Ambient) (context : Context) (pluginId : Str) (healthy : Bool) (t : Tables) :
    Except Error Tables :=
  transition a context pluginId (if healthy then .enabled else .failed) t

/-- `rollback` of the service. -/
def rollbackInstallation (a : Ambient) (context : Context) (pluginId : Str) (t : Tables) :
    Except Error Tables := do
  let tenant := tenantOf context
  let row ← found (t.installation tenant pluginId) (.value "plugin is not installed".toList)
  requireTransition row.state .rolledBack
  let result ← rollback row.currentVersion row.previousVersion
  let release ← runnableRelease a t pluginId result.currentVersion
  let previousGrants := row.previousGrantedCapabilities.getD []
  let _ ← verifyTransitionRelease a t release tenant previousGrants
  .ok (t.putInstallation (Installation.bumped { row with
    currentVersion := result.currentVersion, previousVersion := some result.previousVersion
    state := .rolledBack, grantedCapabilities := previousGrants
    previousGrantedCapabilities := some row.grantedCapabilities }))

/-- The installations that a revocation takes along. -/
def Installation.runs (pluginId version : Str) (i : Installation) : Bool :=
  i.pluginId == pluginId && i.currentVersion == version && i.state != .uninstalled

def revokeInstallation (reason : Str) (i : Installation) : Except Error Installation :=
  if i.state = .revoked then .ok i else do
    requireTransition i.state .revoked
    .ok (Installation.bumped { i with state := .revoked, lastError := some (reason.take 4000) })

/-- The number of installations is of those that run the release, already revoked or not. -/
def revokeRelease (pluginId version reason : Str) (expectedSha256 : Option Str) (t : Tables) :
    Except Error (Nat × Tables) := do
  let release ← found (t.release pluginId version)
    (.value "only a published release can be revoked".toList)
  require (release.status = .published) (.value "only a published release can be revoked".toList)
  require (∀ sha ∈ expectedSha256, sha = "sha256:".toList ++ release.artifactSha256)
    (.value "release digest changed; refresh before revocation".toList)
  let installations ← t.installations.mapM fun i =>
    if i.runs pluginId version then revokeInstallation reason i else .ok i
  .ok ((t.installations.filter (Installation.runs pluginId version)).length,
    { t.putRelease { release with status := .revoked } with installations })

end Ai00.Plugin
