import Ai00.Plugin.Compatibility
import Ai00.Basic.KeyedRows
import Ai00.Basic.Rows

/-! # The tables of the marketplace

The rows that the lifecycle of a plugin reads and writes: releases, by plugin and version;
installations, by tenant and plugin; mount sessions; the commands already claimed under an
idempotency key; and what plugins keep in their namespace. `Tables` is the database, and a call
is a function from one state of it to the next or an error, which leaves it as it was.

What a call reads outside the database is its `Ambient`: keys and versions from the environment,
the signature scheme, the capability registry and the catalog.
-/

namespace Ai00.Plugin

/-! ## Releases -/

structure Requirement where
  id : Str
  major : Nat
  deriving DecidableEq

structure PluginRequirement where
  pluginId : Str
  version : Str

/-- What a plugin's data policy says, its literals as they are written. -/
structure DataPolicy where
  retention : Str := "none".toList
  uninstall : Str := "delete".toList

/-- The fields of a `PluginManifestV2` or `PluginManifestV21` that the lifecycle reads. -/
structure Manifest where
  pluginId : Str
  publisherId : Str
  version : Str
  platformApi : Str
  webSdk : Str
  permissions : List Str := []
  requiredCapabilities : List Requirement := []
  requiredPlugins : List PluginRequirement := []
  provides : List Requirement := []
  artifactSha256 : Str
  data : DataPolicy := {}

inductive ReleaseStatus where
  | submitted
  | published
  | rejected
  | revoked
  deriving DecidableEq

structure Release where
  pluginId : Str
  version : Str
  manifest : Manifest
  artifactSha256 : Str
  platformSignature : Option Str := none
  status : ReleaseStatus := .submitted

def Release.key (r : Release) : Str × Str := (r.pluginId, r.version)

/-- `not release.get("platform_signature")` is false. -/
def Release.isSigned (r : Release) : Prop := r.platformSignature.getD [] ≠ []

instance (r : Release) : Decidable r.isSigned := inferInstanceAs (Decidable (_ ≠ _))

/-! ## Installations -/

structure Installation where
  tenantGid : Str
  pluginId : Str
  currentVersion : Str
  previousVersion : Option Str := none
  state : State := .disabled
  grantedCapabilities : List Str
  previousGrantedCapabilities : Option (List Str) := none
  installedBy : Str
  lastError : Option Str := none
  installationId : Str
  mountRevocationVersion : Nat := 1
  revision : Nat := 1
  deriving DecidableEq

def Installation.key (i : Installation) : Str × Str := (i.tenantGid, i.pluginId)

/-! ## Mount sessions -/

structure MountSession where
  mountSessionId : Str
  userId : Str
  tenantId : Str
  installationId : Str
  pluginId : Str
  pluginVersion : Str
  artifactSha256 : Str
  catalogRelease : Str
  capabilityGrants : List Str
  resourceScopes : List Str
  dataScopes : List Str
  revocationVersion : Nat
  assetTokenHash : Str
  authenticatedAt : Int
  createdAt : Int
  expiresAt : Int
  revokedAt : Option Int := none

/-- The columns that say whose installation a session is of. -/
def MountSession.key (s : MountSession) : Str × Str := (s.tenantId, s.pluginId)

/-- `status` beside the columns of a session. -/
structure SessionRow where
  session : MountSession
  active : Bool := true

/-! ## Commands and namespaces -/

structure LifecycleResult where
  pluginId : Str
  releaseVersion : Str
  state : State
  revision : Nat
  grantedCapabilities : List Str
  tenantGid : Str

/-- The columns a command is claimed under. -/
structure CommandKey where
  tenantGid : Str
  actorGid : Str
  operation : Str
  idempotencyKey : Str
  deriving DecidableEq

/-- A claimed command with its result, once it is completed. -/
structure CommandRow where
  key : CommandKey
  commandSha256 : Str
  result : Option LifecycleResult := none

structure NamespaceRow where
  tenantGid : Str
  pluginId : Str
  name : Str
  value : Str

structure Tables where
  releases : List Release := []
  installations : List Installation := []
  sessions : List SessionRow := []
  commands : List CommandRow := []
  namespaceKv : List NamespaceRow := []

/-! ## Lookup -/

def Tables.release (t : Tables) (pluginId version : Str) : Option Release :=
  KeyedRows.lookup Release.key (pluginId, version) t.releases

def Tables.installation (t : Tables) (tenant pluginId : Str) : Option Installation :=
  KeyedRows.lookup Installation.key (tenant, pluginId) t.installations

/-- `UPDATE` of the row with the key of `r`. -/
def Tables.putRelease (t : Tables) (r : Release) : Tables :=
  { t with releases := KeyedRows.upsert Release.key r t.releases }

/-- `INSERT` or `UPDATE` of the row with the key of `i`. -/
def Tables.putInstallation (t : Tables) (i : Installation) : Tables :=
  { t with installations := KeyedRows.upsert Installation.key i t.installations }

variable {t : Tables} {r : Release} {i : Installation} {pluginId version tenant : Str}

@[simp] theorem release_putRelease : (t.putRelease r).release pluginId version
    = if r.key = (pluginId, version) then some r else t.release pluginId version :=
  KeyedRows.lookup_upsert

@[simp] theorem installation_putRelease :
    (t.putRelease r).installation tenant pluginId = t.installation tenant pluginId := rfl

@[simp] theorem release_putInstallation :
    (t.putInstallation i).release pluginId version = t.release pluginId version := rfl

@[simp] theorem installation_putInstallation : (t.putInstallation i).installation tenant pluginId
    = if i.key = (tenant, pluginId) then some i else t.installation tenant pluginId :=
  KeyedRows.lookup_upsert

@[simp] theorem sessions_putRelease : (t.putRelease r).sessions = t.sessions := rfl

@[simp] theorem sessions_putInstallation : (t.putInstallation i).sessions = t.sessions := rfl

theorem key_of_release (h : t.release pluginId version = some r) : r.key = (pluginId, version) :=
  KeyedRows.key_of_lookup h

theorem key_of_installation (h : t.installation tenant pluginId = some i) :
    i.key = (tenant, pluginId) := KeyedRows.key_of_lookup h

/-! ## What is read outside the database -/

/-- What the resolver reads of a capability descriptor. -/
structure Descriptor where
  lifecycleStatus : Str
  exposedToPlugins : Bool

/-- The commands of the service, as they are hashed. -/
inductive Command where
  | install (pluginId releaseVersion releaseSha256 : Str) (requestedGrants : List Str)
      (idempotencyKey : Str)
  | uninstall (pluginId : Str) (expectedRevision : Nat) (retainTenantData : Bool)
      (idempotencyKey : Str)

/-- Keys and versions from the environment, the signature scheme, and what the governance store,
the catalog and the capability registry answer while the call is running. -/
structure Ambient where
  commandDigest : Command → Str
  platformPublicKey : Option Str
  platformPrivateKey : Option Str
  platformApiVersion : Str
  webPluginSdkVersion : Str
  /-- The key of a publisher that is active. -/
  publisherKey : Str → Option Str
  verify : Str → Manifest → Str → Str → Bool
  sign : Str → Manifest → Str → Str
  /-- `plugin_callable` of a capability that is known. -/
  pluginCallable : Str → Option Bool
  /-- `approved_manifest_bindings`, none where they cannot be had. -/
  approvedBindings : Manifest → Option (List (Requirement × Descriptor))
  /-- The catalog port, none where it raises `KeyError`. -/
  catalog : Requirement → Option (Option Descriptor)
  /-- The providers that the tenant has installed. -/
  tenantProvider : Str → Requirement → Option Descriptor

end Ai00.Plugin
