import Ai00.Plugin.Tables

/-! # Releases

`plugin_platform/service.py`: a release is submitted with the signature of its publisher, published
with the one of the platform or rejected, and may be revoked once it is published. It is installed
or enabled only while it is published, signed, compatible, with its dependencies there and for
exactly the permissions its manifest names (`verifiedRelease`).
-/

namespace Ai00.Plugin

/-- `sorted(values)`. -/
def sorted (values : List Str) : List Str := values.insertionSort (· ≤ ·)

/-- `set(xs) == set(ys)`. -/
def sameSet (xs ys : List Str) : Prop := xs ⊆ ys ∧ ys ⊆ xs

instance (xs ys : List Str) : Decidable (sameSet xs ys) := inferInstanceAs (Decidable (_ ∧ _))

theorem sorted_eq_iff {xs ys : List Str} : sorted xs = sorted ys ↔ xs.Perm ys := by
  constructor
  · intro h
    have hleft : xs.Perm (sorted xs) := (List.perm_insertionSort _ _).symm
    have hright : (sorted ys).Perm ys := List.perm_insertionSort _ _
    exact (h ▸ hleft).trans hright
  · intro h
    have hperm : (sorted xs).Perm (sorted ys) :=
      ((List.perm_insertionSort _ _).trans h).trans (List.perm_insertionSort _ _).symm
    exact hperm.eq_of_pairwise' (List.pairwise_insertionSort _ _) (List.pairwise_insertionSort _ _)

/-- The grants of a list are known and open to plugins; they come back sorted, each once. -/
def validateCapabilityGrants (a : Ambient) (values : List Str) : Except Error (List Str) := do
  let grants := sorted values.dedup
  require (∀ c ∈ grants, (a.pluginCallable c).isSome) (.value "unknown plugin capability".toList)
  require (∀ c ∈ grants, a.pluginCallable c = some true)
    (.value "capability is not exposed to plugins".toList)
  .ok grants

/-! ## Publication -/

def submitRelease (a : Ambient) (manifest : Manifest) (publisherSignature : Str) (t : Tables) :
    Except Error Tables := do
  let key ← found (a.publisherKey manifest.publisherId) (.value "publisher is not active".toList)
  require (a.verify key manifest manifest.artifactSha256 publisherSignature = true)
    (.signature "signature verification failed".toList)
  require (t.release manifest.pluginId manifest.version = none)
    (.value "release version is immutable and already exists".toList)
  .ok (t.putRelease
    { pluginId := manifest.pluginId, version := manifest.version, manifest
      artifactSha256 := manifest.artifactSha256 })

def reviewRelease (a : Ambient) (pluginId version : Str) (approved : Bool)
    (expectedSha256 : Option Str) (t : Tables) : Except Error Tables := do
  let row ← found (t.release pluginId version) (.value "only submitted releases can be reviewed".toList)
  require (row.status = .submitted) (.value "only submitted releases can be reviewed".toList)
  require (∀ sha ∈ expectedSha256, sha = "sha256:".toList ++ row.artifactSha256)
    (.value "release digest changed; refresh before review".toList)
  if approved then
    let privateKey ← found a.platformPrivateKey
      (.signature "platform signing key is not configured; unsigned release cannot be published".toList)
    let _ ← validateCapabilityGrants a row.manifest.permissions
    .ok (t.putRelease { row with
      status := .published
      platformSignature := some (a.sign privateKey row.manifest row.artifactSha256) })
  else
    .ok (t.putRelease { row with status := .rejected, platformSignature := none })

/-! ## Verification -/

/-- `_release`: the release as a plugin may run it. -/
def runnableRelease (a : Ambient) (t : Tables) (pluginId version : Str) : Except Error Release := do
  let missing : Error := .value "release is not published and platform-signed".toList
  let row ← found (t.release pluginId version) missing
  require (row.status = .published) missing
  require row.isSigned missing
  require ((← Compatibility.satisfies a.platformApiVersion row.manifest.platformApi) = true)
    (.value "release is incompatible with current platform API".toList)
  require ((← Compatibility.satisfies a.webPluginSdkVersion row.manifest.webSdk) = true)
    (.value "release is incompatible with current Web Plugin SDK".toList)
  .ok row

def notVerified (message : Str) : Error := .pluginLifecycle "release_not_verified".toList message

/-- `_lifecycle_invalid`. -/
def invalidInput (message : Str) : Error := .pluginLifecycle "invalid_input".toList message

/-- What answers a required capability: a provider the plugin brings itself, the catalog, or a
provider the tenant has installed. -/
def capabilityFor (a : Ambient) (tenant : Str) (manifest : Manifest)
    (own : List (Requirement × Descriptor)) (requirement : Requirement) :
    Except Error (Option Descriptor) :=
  match own.lookup requirement with
  | some descriptor => .ok (some descriptor)
  | none => do
    let capability ← found (a.catalog requirement)
      (notVerified "required stable plugin capability dependency is unavailable".toList)
    match capability with
    | some descriptor => .ok (some descriptor)
    | none => .ok (if manifest.requiredPlugins = [] then none else a.tenantProvider tenant requirement)

/-- `CatalogDependencyResolver.resolve`. -/
def resolveDependencies (a : Ambient) (t : Tables) (tenant : Str) (manifest : Manifest) :
    Except Error Unit := do
  let own ← if manifest.provides = [] then .ok [] else
    found (a.approvedBindings manifest)
      (notVerified "local provider governance approval is unavailable".toList)
  manifest.requiredCapabilities.forM fun requirement => do
    let capability ← capabilityFor a tenant manifest own requirement
    require (∃ d ∈ capability, d.lifecycleStatus = "stable".toList ∧ d.exposedToPlugins = true)
      (notVerified "required stable plugin capability dependency is unavailable".toList)
  manifest.requiredPlugins.forM fun requirement =>
    require (∃ i ∈ t.installation tenant requirement.pluginId,
        i.state ≠ .uninstalled ∧ i.currentVersion = requirement.version)
      (notVerified "required plugin dependency is unavailable".toList)

def verifiedRelease (a : Ambient) (t : Tables) (release : Option Release) (releaseSha256 : Str)
    (requestedGrants : List Str) (tenant : Str) : Except Error Release := do
  let unsigned := notVerified "release is not published and platform-signed".toList
  let unverified := notVerified "release signature or dependencies cannot be verified".toList
  let row ← found release unsigned
  require (row.status = .published ∧ row.isSigned) unsigned
  require (releaseSha256 = "sha256:".toList ++ row.artifactSha256)
    (notVerified "release hash does not match signed release".toList)
  let key ← found a.platformPublicKey unverified
  require (a.verify key row.manifest row.artifactSha256 (row.platformSignature.getD []) = true)
    unverified
  require (row.manifest.artifactSha256 = row.artifactSha256)
    (notVerified "release artifact does not match signed manifest".toList)
  resolveDependencies a t tenant row.manifest
  require (sorted requestedGrants = sorted row.manifest.permissions)
    (invalidInput "requested grants must exactly match signed release grants".toList)
  .ok row

/-- `_verify_transition_release`: the hash is the one of the release itself. -/
def verifyTransitionRelease (a : Ambient) (t : Tables) (release : Release) (tenant : Str)
    (grants : List Str) : Except Error Release :=
  verifiedRelease a t (some release) ("sha256:".toList ++ release.artifactSha256) grants tenant

end Ai00.Plugin
