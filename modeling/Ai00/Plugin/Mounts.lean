import Ai00.Plugin.Installations

/-! # Mount sessions

`plugin_platform/mounts.py` and `tenant_registry`: the registry lists the plugins a tenant runs, and
for each of them a mount session is issued that shows the installation and its revocation version as
the registry had them. A session is live while it is active and not expired and the installation it
names still has that version and runs the published release of the session.
-/

namespace Ai00.Plugin

/-- `state IN ('enabled','rolled_back')`. -/
def State.isMounted (s : State) : Bool := s == .enabled || s == .rolledBack

def Tables.mountedRelease (t : Tables) (i : Installation) : Option Release :=
  if i.state.isMounted then
    (t.release i.pluginId i.currentVersion).filter (fun r => r.status == .published)
  else none

/-! ## The registry -/

/-- What a mount session is issued from. -/
structure RegistryItem where
  tenant : Str
  pluginId : Str
  version : Str
  permissions : List Str
  installationId : Str
  mountRevocationVersion : Nat
  artifactSha256 : Str

def tenantRegistry (tenant : Str) (t : Tables) : List RegistryItem :=
  (t.installations.filter (fun i => i.tenantGid == tenant)).filterMap fun i =>
    (t.mountedRelease i).map fun r =>
      { tenant, pluginId := i.pluginId, version := i.currentVersion
        permissions := i.grantedCapabilities, installationId := i.installationId
        mountRevocationVersion := orOne i.mountRevocationVersion
        artifactSha256 := r.artifactSha256 }

/-! ## Issuing -/

/-- What `MountSessionService.issue` is given beside the item, and the random parts it draws. -/
structure IssueRequest where
  userId : Str
  catalogRelease : Str
  capabilityGrants : List Str
  resourceScopes : List Str
  dataScopes : List Str
  authenticatedAt : Int
  now : Int
  /-- In microseconds, as the times are. -/
  ttl : Int := 15 * 60 * 1000000
  token : Str
  assetTokenHash : Str

def sortedSet (values : List Str) : List Str := sorted values.dedup

/-- `save`: the primary key and the unique token hash. -/
def saveSession (session : MountSession) (t : Tables) : Except Error Tables := do
  require (∀ s ∈ t.sessions, s.session.mountSessionId ≠ session.mountSessionId
    ∧ s.session.assetTokenHash ≠ session.assetTokenHash) .duplicateKey
  .ok { t with sessions := t.sessions ++ [⟨session, true⟩] }

def issue (item : RegistryItem) (request : IssueRequest) (t : Tables) :
    Except Error (MountSession × Tables) := do
  require (30 * 1000000 ≤ request.ttl ∧ request.ttl ≤ 24 * 60 * 60 * 1000000)
    (.mountSession "invalid mount session ttl".toList)
  let session : MountSession :=
    { mountSessionId := "mount_".toList ++ request.token, userId := request.userId
      tenantId := item.tenant, installationId := item.installationId, pluginId := item.pluginId
      pluginVersion := item.version, artifactSha256 := item.artifactSha256
      catalogRelease := request.catalogRelease
      capabilityGrants := sortedSet request.capabilityGrants
      resourceScopes := sortedSet request.resourceScopes, dataScopes := sortedSet request.dataScopes
      revocationVersion := item.mountRevocationVersion, assetTokenHash := request.assetTokenHash
      authenticatedAt := request.authenticatedAt, createdAt := request.now
      expiresAt := request.now + request.ttl }
  let t ← saveSession session t
  .ok (session, t)

/-! ## Live sessions -/

/-- The joins and conditions of `_select_live` on the installation and the release. -/
def SessionRow.isLive (now : Int) (t : Tables) (s : SessionRow) : Bool :=
  s.active && s.session.revokedAt.isNone && decide (now < s.session.expiresAt) &&
    (t.installation s.session.tenantId s.session.pluginId).any fun i =>
      i.installationId == s.session.installationId
        && i.mountRevocationVersion == s.session.revocationVersion
        && i.currentVersion == s.session.pluginVersion
        && (t.mountedRelease i).any (fun r => r.artifactSha256 == s.session.artifactSha256)

def selectLive (predicate : MountSession → Bool) (now : Int) (t : Tables) :
    Except Error MountSession := do
  let row ← found (t.sessions.find? (fun s => predicate s.session && s.isLive now t))
    (.mountSession "mount session invalid, expired, or revoked".toList)
  .ok row.session

variable {t : Tables} {now : Int} {s : SessionRow} {session : MountSession}

/-- **A live session shows its installation as it is.** -/
theorem isLive_shows (h : s.isLive now t = true) :
    ∃ i, t.installation s.session.tenantId s.session.pluginId = some i
      ∧ s.session.revocationVersion = i.mountRevocationVersion ∧ i.state.isMounted = true := by
  simp only [SessionRow.isLive, Bool.and_eq_true, Option.any_eq_true, beq_iff_eq] at h
  obtain ⟨-, i, hi, ⟨⟨-, hversion⟩, -⟩, r, hr, -⟩ := h
  refine ⟨i, hi, hversion.symm, ?_⟩
  unfold Tables.mountedRelease at hr
  by_contra hstate
  rw [if_neg hstate] at hr
  cases hr

theorem selectLive_eq_ok {predicate : MountSession → Bool}
    (h : selectLive predicate now t = .ok session) :
    ∃ s ∈ t.sessions, s.session = session ∧ predicate session = true ∧ s.isLive now t = true := by
  obtain ⟨s, hs, heq⟩ := bind_eq_ok.mp h
  rw [found_eq_ok] at hs
  cases heq
  have hboth := List.find?_some hs
  rw [Bool.and_eq_true] at hboth
  exact ⟨s, List.mem_of_find?_eq_some hs, rfl, hboth⟩

theorem mem_tenantRegistry {tenant : Str} {item : RegistryItem} (h : item ∈ tenantRegistry tenant t) :
    ∃ i ∈ t.installations, i.key = (item.tenant, item.pluginId)
      ∧ item.mountRevocationVersion = orOne i.mountRevocationVersion := by
  unfold tenantRegistry at h
  rw [List.mem_filterMap] at h
  obtain ⟨i, hi, hitem⟩ := h
  obtain ⟨r, -, rfl⟩ := Option.map_eq_some_iff.mp hitem
  rw [List.mem_filter, beq_iff_eq] at hi
  exact ⟨i, hi.1, Prod.ext hi.2 rfl, rfl⟩

end Ai00.Plugin
