import Ai00.Json.Builtins

/-! # Authorization under delegation

`capability_v2/authorization.py`: a call is allowed by the grants of its actor and, where it is
delegated, by the delegation as well. A scope is an exact name, all names of a type (`type:*`) or
everything (`*`), and `scopeAllows` reads the three forms. The data scopes of an allowed call are
the intersection of the two sets as they are written, so a name and the wildcard of its type are
lost against each other (`Crossed`).
-/

namespace Ai00.Capability.Authorization

/-! ## Contracts -/

inductive ConsumerType where
  | web
  | plugin
  | agent
  | api
  | mcp
  | worker
  | localRuntime
  deriving DecidableEq

inductive AutomationLevel where
  | a0
  | a1
  | a2
  | a3
  | a4
  | a5
  | a6

inductive DataClassification where
  | «public»
  | internal
  | confidential
  | restricted
  deriving DecidableEq

def DataClassification.text : DataClassification → Str
  | .«public» => "public".toList
  | .internal => "internal".toList
  | .confidential => "confidential".toList
  | .restricted => "restricted".toList

structure ResourceSelector where
  resourceType : Str
  payloadPath : Str
  required : Bool := true

/-- What the authorizer reads of a `CapabilityDescriptorV2`. -/
structure Descriptor where
  id : Str
  automationLevel : AutomationLevel
  dataClassification : DataClassification
  resourceSelectors : List ResourceSelector

structure Consumer where
  type : ConsumerType
  installationId : Option Str := none
  mountSessionId : Option Str := none
  agentRunId : Option Str := none

structure DelegationContext where
  capabilityScopes : List Str := []
  resourceScopes : List Str := []
  dataScopes : List Str := []
  catalogRelease : Str
  maximumAutomationLevel : AutomationLevel
  expiresAt : Int

structure Identity where
  actorId : Str
  tenantId : Str
  consumer : Consumer
  delegation : Option DelegationContext := none

structure Envelope where
  catalogRelease : Str
  payload : Json
  identity : Identity

structure AuthorizationGrants where
  permissions : List Str := []
  capabilityScopes : List Str := ["*".toList]
  resourceScopes : List Str := []
  dataScopes : List Str := []
  policyVersion : Str
  tenantId : Option Str := none

structure AuthorizationDecision where
  allowed : Bool
  code : String
  policyVersion : Str
  resourceRefs : List Str := []
  dataScopes : List Str := []
  permissions : List Str := []

/-! ## The authorizer -/

def scopeAllows (scopes : List Str) (requested : Str) : Bool :=
  let resourceType := requested.takeWhile (· ≠ ':')
  decide ("*".toList ∈ scopes) || decide (requested ∈ scopes) ||
    decide (resourceType ++ ":*".toList ∈ scopes)

/-- The parts of a path, as a JSON pointer or with dots. -/
def pathParts (path : Str) : List Str :=
  if path.head? = some '/' then
    (splitOn '/' (path.dropWhile (· = '/'))).map
      (fun part => replacePair '~' '0' ['~'] (replacePair '~' '1' ['/'] part))
  else splitOn '.' path

def select (current : Json) : List Str → Option Json
  | [] => some current
  | part :: parts =>
    match current with
    | .obj fields =>
      if part = [] then none else (Dict.get? fields part).bind (fun v => select v parts)
    | _ => none

section

variable (str : Json → Str)

/-- `_resource_refs`; `str` prints a number. -/
def resourceRefs (payload : Json) : List ResourceSelector → Except String (List Str)
  | [] => .ok []
  | selector :: selectors =>
    let value := (select payload (pathParts selector.payloadPath)).getD .null
    match value with
    | .null | .str [] =>
      if selector.required then .error "resource_selector_missing"
      else resourceRefs payload selectors
    | .obj _ | .arr _ | .bool _ => .error "resource_selector_invalid"
    | .str s => (resourceRefs payload selectors).map ((selector.resourceType ++ ":".toList ++ s) :: ·)
    | v => (resourceRefs payload selectors).map ((selector.resourceType ++ ":".toList ++ str v) :: ·)

def automationRank : AutomationLevel → Nat
  | .a0 => 0
  | .a1 => 1
  | .a2 => 2
  | .a3 => 3
  | .a4 => 4
  | .a5 => 5
  | .a6 => 6

/-- `not value`, for an optional string. -/
def blank (value : Option Str) : Bool := value.getD [] = []

def sensitive (c : DataClassification) : Prop := c = .confidential ∨ c = .restricted

instance : DecidablePred sensitive := fun c => by
  unfold sensitive
  infer_instance

/-- What `_delegation_error` checks of a delegation. -/
def delegationChecks (descriptor : Descriptor) (envelope : Envelope) (refs : List Str) (now : Int)
    (delegation : DelegationContext) : Option String :=
  let consumer := envelope.identity.consumer
  if delegation.expiresAt ≤ now then some "delegation_expired"
  else if delegation.catalogRelease ≠ envelope.catalogRelease then
    some "delegation_catalog_mismatch"
  else if ¬ scopeAllows delegation.capabilityScopes descriptor.id then
    some "capability_scope_denied"
  else if automationRank delegation.maximumAutomationLevel
      < automationRank descriptor.automationLevel then some "automation_scope_denied"
  else if ∃ ref ∈ refs, ¬ scopeAllows delegation.resourceScopes ref then
    some "resource_scope_denied"
  else if sensitive descriptor.dataClassification ∧
      ¬ scopeAllows delegation.dataScopes descriptor.dataClassification.text then
    some "data_scope_denied"
  else if consumer.type = .agent ∧ blank consumer.agentRunId then some "agent_run_required"
  else if consumer.type = .plugin ∧ blank consumer.installationId then
    some "plugin_installation_required"
  else none

def delegationError (descriptor : Descriptor) (envelope : Envelope) (refs : List Str) (now : Int) :
    Option String :=
  let consumer := envelope.identity.consumer
  if consumer.type = .plugin ∧ (blank consumer.installationId ∨ blank consumer.mountSessionId) then
    some "plugin_mount_required"
  else
    match envelope.identity.delegation with
    | none => if consumer.type = .agent then some "delegation_required" else none
    | some delegation => delegationChecks descriptor envelope refs now delegation

def effectiveDataScopes (delegation : Option DelegationContext) (granted : List Str) : List Str :=
  match delegation with
  | none => granted
  | some delegation =>
    if "*".toList ∈ granted then delegation.dataScopes
    else if "*".toList ∈ delegation.dataScopes then granted
    else (granted.filter (fun scope => decide (scope ∈ delegation.dataScopes))).dedup.insertionSort
      (· ≤ ·)

def deny (code : String) (policyVersion : Str) (refs : List Str) : AuthorizationDecision :=
  { allowed := false, code, policyVersion, resourceRefs := refs }

/-- `authorize`; `grants` is what the resolver returns for the identity, `none` where it raises. -/
def authorize (grants : Option AuthorizationGrants) (descriptor : Descriptor) (envelope : Envelope)
    (requiredPermissions : List Str) (now : Int) : AuthorizationDecision :=
  match grants with
  | none => deny "authorization_backend_failed" "unavailable".toList []
  | some grants =>
    let policyVersion := grants.policyVersion
    let identity := envelope.identity
    if ∃ tenant ∈ grants.tenantId, tenant ≠ identity.tenantId then
      deny "tenant_scope_denied" policyVersion []
    else if ∃ permission ∈ requiredPermissions, permission ∉ grants.permissions then
      deny "permission_denied" policyVersion []
    else if ¬ scopeAllows grants.capabilityScopes descriptor.id then
      deny "consumer_capability_scope_denied" policyVersion []
    else
      match resourceRefs str envelope.payload descriptor.resourceSelectors with
      | .error code => deny code policyVersion []
      | .ok refs =>
        if ∃ ref ∈ refs, ¬ scopeAllows grants.resourceScopes ref then
          deny "resource_scope_denied" policyVersion refs
        else if sensitive descriptor.dataClassification ∧
            ¬ scopeAllows grants.dataScopes descriptor.dataClassification.text then
          deny "data_scope_denied" policyVersion refs
        else
          match delegationError descriptor envelope refs now with
          | some code => deny code policyVersion refs
          | none =>
            { allowed := true, code := "allowed", policyVersion, resourceRefs := refs
              dataScopes := effectiveDataScopes identity.delegation grants.dataScopes
              permissions := grants.permissions }

/-! ## Scopes -/

/-- A scope set reads the three forms of a name. -/
theorem scopeAllows_iff {scopes : List Str} {requested : Str} : scopeAllows scopes requested = true ↔
      "*".toList ∈ scopes ∨ requested ∈ scopes ∨
        requested.takeWhile (· ≠ ':') ++ ":*".toList ∈ scopes := by
  unfold scopeAllows
  simp only [Bool.or_eq_true, decide_eq_true_eq, or_assoc]

theorem scopeAllows_mono {scopes scopes' : List Str} (hsub : scopes ⊆ scopes') {requested : Str}
    (h : scopeAllows scopes requested = true) : scopeAllows scopes' requested = true := by
  rw [scopeAllows_iff] at h ⊢
  exact h.imp (fun h => hsub h) (Or.imp (fun h => hsub h) (fun h => hsub h))

theorem takeWhile_text (c : DataClassification) : c.text.takeWhile (· ≠ ':') = c.text := by
  cases c <;> decide

/-- The name of a classification and the wildcard of its type, in two scope sets of which neither
is global: one set has the name only and the other the wildcard only. -/
def Crossed (granted delegated : List Str) (c : DataClassification) : Prop :=
  "*".toList ∉ granted ∧ "*".toList ∉ delegated ∧
    ((c.text ∈ granted ∧ c.text ++ ":*".toList ∉ granted ∧
        c.text ∉ delegated ∧ c.text ++ ":*".toList ∈ delegated) ∨
      (c.text ∉ granted ∧ c.text ++ ":*".toList ∈ granted ∧
        c.text ∈ delegated ∧ c.text ++ ":*".toList ∉ delegated))

theorem mem_effectiveDataScopes {delegation : DelegationContext} {granted : List Str}
    (hg : "*".toList ∉ granted) (hd : "*".toList ∉ delegation.dataScopes) {scope : Str} :
    scope ∈ effectiveDataScopes (some delegation) granted ↔
      scope ∈ granted ∧ scope ∈ delegation.dataScopes := by
  simp only [effectiveDataScopes, if_neg hg, if_neg hd, List.mem_insertionSort, List.mem_dedup,
    List.mem_filter, decide_eq_true_eq]

/-- **The intersection of the two scope sets permits what both permit, unless a name meets the
wildcard of its type.** -/
theorem effectiveDataScopes_exact_iff (delegation : DelegationContext) (granted : List Str)
    (c : DataClassification) :
    (scopeAllows (effectiveDataScopes (some delegation) granted) c.text = true ↔
        scopeAllows granted c.text = true ∧ scopeAllows delegation.dataScopes c.text = true) ↔
      ¬ Crossed granted delegation.dataScopes c := by
  by_cases hg : "*".toList ∈ granted
  · have hallows : scopeAllows granted c.text = true := scopeAllows_iff.mpr (Or.inl hg)
    have hresult : effectiveDataScopes (some delegation) granted = delegation.dataScopes := by
      simp only [effectiveDataScopes, if_pos hg]
    rw [hresult]
    exact ⟨fun _ h => h.1 hg, fun _ => ⟨fun h => ⟨hallows, h⟩, fun h => h.2⟩⟩
  · by_cases hd : "*".toList ∈ delegation.dataScopes
    · have hallows : scopeAllows delegation.dataScopes c.text = true :=
        scopeAllows_iff.mpr (Or.inl hd)
      have hresult : effectiveDataScopes (some delegation) granted = granted := by
        simp only [effectiveDataScopes, if_neg hg, if_pos hd]
      rw [hresult]
      exact ⟨fun _ h => h.2.1 hd, fun _ => ⟨fun h => ⟨h, hallows⟩, fun h => h.1⟩⟩
    · -- neither set is global, so both sides read the name and the wildcard of its type
      unfold Crossed
      simp only [scopeAllows_iff, mem_effectiveDataScopes hg hd, takeWhile_text, hg, hd, false_and,
        false_or, not_false_eq_true, true_and]
      by_cases h1 : c.text ∈ granted <;> by_cases h2 : c.text ++ ":*".toList ∈ granted <;>
        by_cases h3 : c.text ∈ delegation.dataScopes <;>
        by_cases h4 : c.text ++ ":*".toList ∈ delegation.dataScopes <;>
        simp only [h1, h2, h3, h4] <;> decide

/-! ## What an allowed call has passed -/

/-- The checks of the grants. -/
structure Granted (grants : AuthorizationGrants) (descriptor : Descriptor) (envelope : Envelope)
    (required refs : List Str) : Prop where
  tenant : ∀ tenant ∈ grants.tenantId, tenant = envelope.identity.tenantId
  permissions : required ⊆ grants.permissions
  capability : scopeAllows grants.capabilityScopes descriptor.id = true
  selected : resourceRefs str envelope.payload descriptor.resourceSelectors = .ok refs
  resources : ∀ ref ∈ refs, scopeAllows grants.resourceScopes ref = true
  data : sensitive descriptor.dataClassification →
    scopeAllows grants.dataScopes descriptor.dataClassification.text = true

/-- The checks of a delegation. -/
structure Delegated (delegation : DelegationContext) (descriptor : Descriptor) (envelope : Envelope)
    (refs : List Str) (now : Int) : Prop where
  current : now < delegation.expiresAt
  catalog : delegation.catalogRelease = envelope.catalogRelease
  capability : scopeAllows delegation.capabilityScopes descriptor.id = true
  automation : automationRank descriptor.automationLevel ≤
    automationRank delegation.maximumAutomationLevel
  resources : ∀ ref ∈ refs, scopeAllows delegation.resourceScopes ref = true
  data : sensitive descriptor.dataClassification →
    scopeAllows delegation.dataScopes descriptor.dataClassification.text = true
  agentRun : envelope.identity.consumer.type = .agent →
    blank envelope.identity.consumer.agentRunId = false
  installation : envelope.identity.consumer.type = .plugin →
    blank envelope.identity.consumer.installationId = false

/-- The checks of the consumer: a plugin has its mount, an agent its delegation. -/
structure Seated (consumer : Consumer) (delegation : Option DelegationContext) : Prop where
  mounted : consumer.type = .plugin →
    blank consumer.installationId = false ∧ blank consumer.mountSessionId = false
  delegated : consumer.type = .agent → delegation ≠ none

variable {descriptor : Descriptor} {envelope : Envelope} {now : Int} {refs : List Str}

theorem delegationChecks_eq_none_iff {delegation : DelegationContext} :
    delegationChecks descriptor envelope refs now delegation = none ↔
      Delegated delegation descriptor envelope refs now := by
  unfold delegationChecks
  constructor
  · intro h
    dsimp only at h
    split_ifs at h with h1 h2 h3 h4 h5 h6 h7 h8
    exact
      { current := not_le.mp h1
        catalog := not_not.mp h2
        capability := by simpa using h3
        automation := not_lt.mp h4
        resources := by simpa using h5
        data := fun hs => by simpa [hs] using h6
        agentRun := fun hagent => by simpa [hagent] using h7
        installation := fun hplugin => by simpa [hplugin] using h8 }
  · intro h
    dsimp only
    rw [if_neg (not_le.mpr h.current), if_neg (not_not.mpr h.catalog),
      if_neg (not_not.mpr h.capability), if_neg (not_lt.mpr h.automation)]
    rw [if_neg, if_neg, if_neg, if_neg]
    · rintro ⟨hplugin, hblank⟩
      rw [h.installation hplugin] at hblank
      cases hblank
    · rintro ⟨hagent, hblank⟩
      rw [h.agentRun hagent] at hblank
      cases hblank
    · rintro ⟨hs, hdenied⟩
      exact hdenied (h.data hs)
    · rintro ⟨ref, href, hdenied⟩
      exact hdenied (h.resources ref href)

/-- The consumer and the delegation pass `delegationError` together. -/
theorem delegationError_eq_none_iff : delegationError descriptor envelope refs now = none ↔
      Seated envelope.identity.consumer envelope.identity.delegation ∧
        ∀ delegation ∈ envelope.identity.delegation,
          Delegated delegation descriptor envelope refs now := by
  unfold delegationError
  by_cases hmount : envelope.identity.consumer.type = .plugin ∧
      (blank envelope.identity.consumer.installationId ∨ blank envelope.identity.consumer.mountSessionId)
  · rw [if_pos hmount]
    constructor
    · intro h
      cases h
    · rintro ⟨hseated, _⟩
      have hmounted := hseated.mounted hmount.1
      rcases hmount.2 with hblank | hblank
      · exact absurd hblank (by simp [hmounted.1])
      · exact absurd hblank (by simp [hmounted.2])
  · have hmounted : envelope.identity.consumer.type = .plugin →
        blank envelope.identity.consumer.installationId = false ∧
          blank envelope.identity.consumer.mountSessionId = false := by
      intro hplugin
      simpa [hplugin] using hmount
    rw [if_neg hmount]
    cases hd : envelope.identity.delegation with
    | none =>
      by_cases hagent : envelope.identity.consumer.type = .agent
      · dsimp only
        rw [if_pos hagent]
        constructor
        · intro h
          cases h
        · rintro ⟨hseated, _⟩
          exact absurd rfl (hseated.delegated hagent)
      · dsimp only
        rw [if_neg hagent]
        refine ⟨fun _ => ⟨⟨hmounted, fun h => absurd h hagent⟩, ?_⟩, fun _ => rfl⟩
        intro _ h
        cases h
    | some delegation =>
      dsimp only
      rw [delegationChecks_eq_none_iff]
      constructor
      · intro h
        refine ⟨⟨hmounted, fun _ => Option.some_ne_none _⟩, fun d hmem => ?_⟩
        obtain rfl := Option.some_injective _ hmem
        exact h
      · rintro ⟨_, h⟩
        exact h delegation rfl

theorem allowed_unless {p : Prop} [Decidable p] {code : String} {version : Str}
    {decision : AuthorizationDecision} :
    (if p then deny code version refs else decision).allowed = true ↔
      ¬ p ∧ decision.allowed = true := by
  by_cases hp : p
  · simp [hp, deny]
  · simp [hp]

variable {grants : AuthorizationGrants}

theorem authorize_of_granted {required refs : List Str}
    (hgranted : Granted str grants descriptor envelope required refs)
    (herror : delegationError descriptor envelope refs now = none) :
    authorize str (some grants) descriptor envelope required now =
      { allowed := true, code := "allowed", policyVersion := grants.policyVersion
        resourceRefs := refs
        dataScopes := effectiveDataScopes envelope.identity.delegation grants.dataScopes
        permissions := grants.permissions } := by
  have htenant : ¬ ∃ tenant ∈ grants.tenantId, tenant ≠ envelope.identity.tenantId := by
    rintro ⟨tenant, hmem, hne⟩
    exact hne (hgranted.tenant tenant hmem)
  have hpermissions : ¬ ∃ permission ∈ required, permission ∉ grants.permissions := by
    rintro ⟨permission, hmem, hnot⟩
    exact hnot (hgranted.permissions hmem)
  have hresources : ¬ ∃ ref ∈ refs, ¬ scopeAllows grants.resourceScopes ref = true := by
    rintro ⟨ref, hmem, hnot⟩
    exact hnot (hgranted.resources ref hmem)
  have hdata : ¬ (sensitive descriptor.dataClassification ∧
      ¬ scopeAllows grants.dataScopes descriptor.dataClassification.text = true) :=
    fun h => h.2 (hgranted.data h.1)
  simp only [authorize, if_neg htenant, if_neg hpermissions, not_not.mpr hgranted.capability,
    if_false, hgranted.selected, if_neg hresources, if_neg hdata, herror]

variable {required : List Str}

/-- **A call is allowed when the grants, the consumer and the delegation pass their checks**, and
the decision then carries the intersected data scopes. -/
theorem authorize_allowed_iff :
    (authorize str (some grants) descriptor envelope required now).allowed = true ↔
      ∃ refs, Granted str grants descriptor envelope required refs ∧
        Seated envelope.identity.consumer envelope.identity.delegation ∧
        ∀ delegation ∈ envelope.identity.delegation,
          Delegated delegation descriptor envelope refs now := by
  constructor
  · intro h
    simp only [authorize, allowed_unless] at h
    obtain ⟨htenant, hpermissions, hcapability, h⟩ := h
    cases hrefs : resourceRefs str envelope.payload descriptor.resourceSelectors with
    | error code =>
      rw [hrefs] at h
      cases h
    | ok refs =>
      simp only [hrefs, allowed_unless] at h
      obtain ⟨hresources, hdata, h⟩ := h
      cases herror : delegationError descriptor envelope refs now with
      | some code =>
        rw [herror] at h
        cases h
      | none =>
        refine ⟨refs, ?_, delegationError_eq_none_iff.mp herror⟩
        exact
          { tenant := by simpa using htenant
            permissions := fun permission hmem => by_contra fun h => hpermissions ⟨permission, hmem, h⟩
            capability := by simpa using hcapability
            selected := hrefs
            resources := by simpa using hresources
            data := fun hs => by simpa [hs] using hdata }
  · rintro ⟨refs, hgranted, herror⟩
    rw [authorize_of_granted str hgranted (delegationError_eq_none_iff.mpr herror)]

/-- The decision of an allowed call names the grants it rests on. -/
theorem authorize_dataScopes
    (h : (authorize str (some grants) descriptor envelope required now).allowed = true) :
    (authorize str (some grants) descriptor envelope required now).dataScopes =
      effectiveDataScopes envelope.identity.delegation grants.dataScopes := by
  obtain ⟨refs, hgranted, herror⟩ := (authorize_allowed_iff str).mp h
  rw [authorize_of_granted str hgranted (delegationError_eq_none_iff.mpr herror)]

/-! ## Attenuation -/

/-- The call as `consumer` makes it, under `delegation`. -/
def Envelope.actingAs (envelope : Envelope) (consumer : Consumer)
    (delegation : Option DelegationContext) : Envelope :=
  { envelope with identity := { envelope.identity with consumer, delegation } }

/-- More permissions and scopes, for the same tenant. -/
structure AuthorizationGrants.Extends (grants grants' : AuthorizationGrants) : Prop where
  tenant : grants'.tenantId = grants.tenantId
  permissions : grants.permissions ⊆ grants'.permissions
  capability : grants.capabilityScopes ⊆ grants'.capabilityScopes
  resources : grants.resourceScopes ⊆ grants'.resourceScopes
  data : grants.dataScopes ⊆ grants'.dataScopes

/-- More scopes in an otherwise equal delegation. -/
structure DelegationContext.Extends (delegation delegation' : DelegationContext) : Prop where
  catalog : delegation'.catalogRelease = delegation.catalogRelease
  automation : delegation'.maximumAutomationLevel = delegation.maximumAutomationLevel
  expiry : delegation'.expiresAt = delegation.expiresAt
  capability : delegation.capabilityScopes ⊆ delegation'.capabilityScopes
  resources : delegation.resourceScopes ⊆ delegation'.resourceScopes
  data : delegation.dataScopes ⊆ delegation'.dataScopes

theorem Granted.mono {grants grants' : AuthorizationGrants}
    {required refs : List Str} (hext : grants.Extends grants')
    (h : Granted str grants descriptor envelope required refs) :
    Granted str grants' descriptor envelope required refs where
  tenant := fun tenant hmem => h.tenant tenant (hext.tenant ▸ hmem)
  permissions := fun _ hmem => hext.permissions (h.permissions hmem)
  capability := scopeAllows_mono hext.capability h.capability
  selected := h.selected
  resources := fun ref hmem => scopeAllows_mono hext.resources (h.resources ref hmem)
  data := fun hs => scopeAllows_mono hext.data (h.data hs)

theorem Granted.actingAs {required refs : List Str}
    (h : Granted str grants descriptor envelope required refs) (consumer : Consumer)
    (delegation : Option DelegationContext) :
    Granted str grants descriptor (envelope.actingAs consumer delegation) required refs where
  tenant := h.tenant
  permissions := h.permissions
  capability := h.capability
  selected := h.selected
  resources := h.resources
  data := h.data

theorem Delegated.mono {delegation delegation' : DelegationContext}
    (hext : delegation.Extends delegation')
    (h : Delegated delegation descriptor envelope refs now) :
    Delegated delegation' descriptor
      (envelope.actingAs envelope.identity.consumer (some delegation')) refs now where
  current := hext.expiry ▸ h.current
  catalog := hext.catalog.trans h.catalog
  capability := scopeAllows_mono hext.capability h.capability
  automation := hext.automation ▸ h.automation
  resources := fun ref hmem => scopeAllows_mono hext.resources (h.resources ref hmem)
  data := fun hs => scopeAllows_mono hext.data (h.data hs)
  agentRun := h.agentRun
  installation := h.installation

/-- What attenuation asks of an allowed call. -/
structure Attenuates (grants : AuthorizationGrants) (descriptor : Descriptor) (envelope : Envelope)
    (required : List Str) (now : Int) : Prop where
  /-- The consumer is allowed the call without its delegation, where it may do without. -/
  undelegated : envelope.identity.consumer.type ≠ .agent →
    (authorize str (some grants) descriptor (envelope.actingAs envelope.identity.consumer none)
      required now).allowed = true
  /-- So is the actor through any other consumer that needs no delegation. -/
  direct : ∀ consumer, Seated consumer none →
    (authorize str (some grants) descriptor (envelope.actingAs consumer none) required now).allowed
      = true
  /-- The data scopes are exactly what grants and delegation both permit. -/
  exact : ∀ c : DataClassification,
    scopeAllows (authorize str (some grants) descriptor envelope required now).dataScopes c.text
        = true ↔
      scopeAllows grants.dataScopes c.text = true ∧
        ∀ delegation ∈ envelope.identity.delegation, scopeAllows delegation.dataScopes c.text = true
  /-- More grants leave it allowed. -/
  grantsMono : ∀ grants', grants.Extends grants' →
    (authorize str (some grants') descriptor envelope required now).allowed = true
  /-- So does a wider delegation. -/
  delegationMono : ∀ delegation ∈ envelope.identity.delegation, ∀ delegation',
    delegation.Extends delegation' →
    (authorize str (some grants) descriptor
      (envelope.actingAs envelope.identity.consumer (some delegation')) required now).allowed = true

theorem exact_iff (h : (authorize str (some grants) descriptor envelope required now).allowed = true)
    (c : DataClassification) :
    (scopeAllows (authorize str (some grants) descriptor envelope required now).dataScopes c.text = true ↔
        scopeAllows grants.dataScopes c.text = true ∧ ∀ delegation ∈ envelope.identity.delegation,
            scopeAllows delegation.dataScopes c.text = true) ↔
      ∀ delegation ∈ envelope.identity.delegation,
        ¬ Crossed grants.dataScopes delegation.dataScopes c := by
  rw [authorize_dataScopes str h]
  cases envelope.identity.delegation with
  | none => simp [effectiveDataScopes]
  | some delegation =>
    simp only [Option.mem_def, Option.some.injEq, forall_eq']
    exact effectiveDataScopes_exact_iff delegation grants.dataScopes c

/-- **An allowed call is attenuated by its delegation exactly when no classification is crossed
between the granted and the delegated data scopes.** -/
theorem attenuates_iff (h : (authorize str (some grants) descriptor envelope required now).allowed = true) :
    Attenuates str grants descriptor envelope required now ↔
      ∀ delegation ∈ envelope.identity.delegation, ∀ c,
        ¬ Crossed grants.dataScopes delegation.dataScopes c := by
  obtain ⟨refs, hgranted, hseated, hdelegated⟩ := (authorize_allowed_iff str).mp h
  have hdirect : ∀ consumer, Seated consumer none →
      (authorize str (some grants) descriptor (envelope.actingAs consumer none) required
        now).allowed = true := by
    intro consumer hconsumer
    refine (authorize_allowed_iff str).mpr ⟨refs, hgranted.actingAs str consumer none, hconsumer, ?_⟩
    intro delegation hmem
    cases hmem
  constructor
  · intro hatt delegation hmem c
    exact (exact_iff str h c).mp (hatt.exact c) delegation hmem
  · intro huncrossed
    refine
      { undelegated := fun hagent => hdirect _ ⟨hseated.mounted, fun h => absurd h hagent⟩
        direct := hdirect
        exact := fun c => (exact_iff str h c).mpr fun d hmem => huncrossed d hmem c
        grantsMono := fun grants' hext => (authorize_allowed_iff str).mpr
          ⟨refs, hgranted.mono str hext, hseated, hdelegated⟩
        delegationMono := ?_ }
    intro delegation hmem delegation' hext
    refine (authorize_allowed_iff str).mpr
      ⟨refs, hgranted.actingAs str _ _, ⟨hseated.mounted, fun _ => Option.some_ne_none _⟩, ?_⟩
    intro d hd
    obtain rfl := Option.some_injective _ hd
    exact (hdelegated delegation hmem).mono hext

end

/-! ## A name against its wildcard -/

/-- A read of confidential data. -/
def reportDescriptor : Descriptor :=
  { id := "report.read".toList
    automationLevel := .a1
    dataClassification := .confidential
    resourceSelectors := [] }

def reportCall (scopes : List Str) : Envelope :=
  { catalogRelease := "r1".toList
    payload := .obj []
    identity :=
      { actorId := "ann".toList
        tenantId := "t1".toList
        consumer := { type := .agent, agentRunId := some "run-1".toList }
        delegation := some
          { capabilityScopes := ["*".toList]
            dataScopes := scopes
            catalogRelease := "r1".toList
            maximumAutomationLevel := .a3
            expiresAt := 100 } } }

def reportGrants (scopes : List Str) : AuthorizationGrants :=
  { dataScopes := scopes, policyVersion := "p1".toList }

theorem attenuates_named :
    Attenuates (fun _ => []) (reportGrants ["confidential".toList]) reportDescriptor
        (reportCall ["confidential".toList]) [] 7 ↔
      ∀ delegation ∈ (reportCall ["confidential".toList]).identity.delegation, ∀ c,
        ¬ Crossed ["confidential".toList] delegation.dataScopes c :=
  attenuates_iff _ (by decide +kernel)

theorem wildcard_not_attenuated :
    (authorize (fun _ => []) (some (reportGrants ["confidential:*".toList])) reportDescriptor
        (reportCall ["confidential".toList]) [] 7).allowed = true ∧
      ¬ Attenuates (fun _ => []) (reportGrants ["confidential:*".toList]) reportDescriptor
        (reportCall ["confidential".toList]) [] 7 := by
  refine ⟨by decide +kernel, fun h => ?_⟩
  have hboth : scopeAllows (reportGrants ["confidential:*".toList]).dataScopes
      DataClassification.confidential.text = true := by decide +kernel
  have hscopes := (h.exact .confidential).mpr ⟨hboth, by decide +kernel⟩
  revert hscopes
  decide +kernel

end Ai00.Capability.Authorization
