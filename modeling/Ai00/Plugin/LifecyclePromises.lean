import Ai00.Plugin.LifecycleRuns

/-! # What the lifecycle promises

Over any run: an installation moves only as `TRANSITIONS` says or is installed again, with both its
counters growing; while it is mounted it runs a published release with the permissions of that
release, and once uninstalled it grants nothing; and a session issued before its installation
changed is never live again. All of it holds in a run exactly when no call of it is a
`transition` that carries grants into `uninstalled` or a release it did not look at into
`rolled_back` (`promises_iff`).
-/

namespace Ai00.Plugin

variable {t t' : Tables} {i : Installation} {tenant pluginId : Str} {w : World}
  {offers : List RegistryItem} {earned : Prop} {calls : List Call}

/-- Every installation deserves its state. -/
def Sound (t : Tables) : Prop :=
  ∀ tenant pluginId, ∀ i ∈ t.installation tenant pluginId, Earned t i

/-- A `transition` that goes through and leaves a row that its state does not deserve. -/
def Call.Careless (t : Tables) : Call → Prop
  | .transition _ context pluginId target =>
    ∃ i, t.installation (tenantOf context) pluginId = some i ∧ target ∈ TRANSITIONS i.state
      ∧ (target = .uninstalled → (uninstallPolicy t pluginId i.currentVersion).uninstall
          ≠ "export-then-delete".toList)
      ∧ Undeserved t i target
  | _ => False

/-- The promises of a run from an empty database. -/
structure KeepsPromises (calls : List Call) : Prop where
  moves : ∀ past call, past ++ [call] <+: calls → ∀ tenant pluginId,
    ChangeAllowed ((worldAfter past).tables.installation tenant pluginId)
      ((worldAfter (past ++ [call])).tables.installation tenant pluginId)
  sound : ∀ past, past <+: calls → Sound (worldAfter past).tables
  sessions : ∀ past call later, past ++ call :: later <+: calls → ∀ tenant pluginId,
    (worldAfter past).tables.installation tenant pluginId
      ≠ (worldAfter (past ++ [call])).tables.installation tenant pluginId →
    ∀ s ∈ (worldAfter past).tables.sessions, s.session.key = (tenant, pluginId) →
    ∀ predicate now live,
      selectLive predicate now (worldAfter (past ++ call :: later)).tables = .ok live →
      live.mountSessionId ≠ s.session.mountSessionId

/-! ## One call -/

/-- What a `transition` that is not careless leads to. -/
theorem not_undeserved {a : Ambient} {context : Context} {target : State}
    (h : transition a context pluginId target t = .ok t')
    (hcareful : ¬ (Call.transition a context pluginId target).Careless t)
    (hrow : t.installation (tenantOf context) pluginId = some i) : ¬ Undeserved t i target := by
  intro hundeserved
  obtain ⟨row, hfound, h⟩ := bind_eq_ok.mp h
  obtain ⟨_, hmove, h⟩ := bind_eq_ok.mp h
  rw [found_eq_ok, hrow] at hfound
  cases hfound
  refine hcareful ⟨i, hrow, requireTransition_eq_ok.mp hmove, fun htarget => ?_, hundeserved⟩
  rw [if_neg (htarget ▸ nofun), if_pos htarget] at h
  obtain ⟨_, hpolicy, -⟩ := bind_eq_ok.mp h
  obtain ⟨_, hexport, -⟩ := bind_eq_ok.mp hpolicy
  exact require_eq_ok.mp hexport

/-- **Every call that goes through has one of the effects.** -/
theorem effect_run {c : Call} (h : c.run w = .ok t') : Effect w.offers (¬ c.Careless w.tables) w.tables t' := by
  cases c with
  | requestInstall a token actor command =>
    obtain ⟨⟨result, _⟩, hrun, rfl⟩ := map_eq_ok.mp h
    exact effect_requestInstall hrun
  | transitionUninstall a now actor command =>
    obtain ⟨⟨result, _⟩, hrun, rfl⟩ := map_eq_ok.mp h
    exact effect_transitionUninstall hrun
  | install a token context pluginId version granted => exact effect_install h
  | transition a context pluginId target =>
    exact effect_transition h fun hcareful i hrow => not_undeserved h hcareful hrow
  | upgrade a context pluginId version granted => exact effect_upgrade h
  | finishUpgrade a context pluginId healthy => exact effect_finishUpgrade h
  | rollback a context pluginId => exact effect_rollback h
  | revokeRelease pluginId version reason expected =>
    obtain ⟨⟨n, _⟩, hrun, rfl⟩ := map_eq_ok.mp h
    exact effect_revokeRelease hrun
  | submitRelease a manifest signature => exact effect_submitRelease h
  | reviewRelease a pluginId version approved expected => exact effect_reviewRelease h
  | tenantRegistry tenant =>
    cases h
    exact .keeps _ rfl rfl rfl
  | issue offer request =>
    simp only [Call.run] at h
    split at h
    · cases h
      exact .keeps _ rfl rfl rfl
    · rename_i item hitem
      obtain ⟨⟨session, _⟩, hrun, rfl⟩ := map_eq_ok.mp h
      exact effect_issue (List.mem_of_getElem? hitem) hrun

theorem effect_execute (w : World) (c : Call) :
    Effect w.offers (¬ c.Careless w.tables) w.tables (w.execute c).tables := by
  unfold World.execute
  cases hrun : c.run w with
  | error e => exact .keeps _ rfl rfl rfl
  | ok t => exact effect_run hrun

/-! ## Changes of a row -/

/-- The revocation version of the row with a key; none counts as zero. -/
def Tables.mountVersion (t : Tables) (key : Str × Str) : ℕ :=
  (t.installation key.1 key.2).elim 0 Installation.mountRevocationVersion

@[simp] theorem Installation.withRelease_key (version reason : Str) (i : Installation) :
    (i.withRelease pluginId version reason).key = i.key := by
  unfold withRelease
  split_ifs <;> rfl

theorem changeAllowed_withRelease (version reason : Str) (i : Installation) :
    ChangeAllowed (some i) (some (i.withRelease pluginId version reason)) := by
  unfold Installation.withRelease
  split_ifs with h
  · simp only [Installation.runs, Bool.and_eq_true, bne_iff_ne] at h
    exact changeAllowed_bumped (.inl (revoked_mem_transitions h.2 h.1.2)) rfl rfl
  · exact .same _

theorem installation_revoked {r : Release} {reason : Str}
    (h : t'.installations = t.installations.map (Installation.withRelease r.pluginId r.version reason)) :
    t'.installation tenant pluginId
      = (t.installation tenant pluginId).map (Installation.withRelease r.pluginId r.version reason) := by
  unfold Tables.installation
  rw [h]
  exact (KeyedRows.map_lookup fun i => i.withRelease_key _ _).symm

theorem installation_upserted
    (h : t'.installations = KeyedRows.upsert Installation.key i t.installations) :
    t'.installation tenant pluginId
      = if i.key = (tenant, pluginId) then some i else t.installation tenant pluginId := by
  unfold Tables.installation
  rw [h]
  exact KeyedRows.lookup_upsert

/-- **A call changes each row as it may.** -/
theorem Effect.changeAllowed (h : Effect offers earned t t') (tenant pluginId : Str) :
    ChangeAllowed (t.installation tenant pluginId) (t'.installation tenant pluginId) := by
  cases h with
  | keeps _ _ hinstallations _ =>
    unfold Tables.installation
    rw [hinstallations]
    exact .same _
  | publishes r _ => exact .same _
  | moves i _ _ hinstallations _ hchange _ _ =>
    rw [installation_upserted hinstallations]
    split_ifs with hkey
    · simp only [Installation.key, Prod.mk.injEq] at hkey
      obtain ⟨rfl, rfl⟩ := hkey
      exact hchange
    · exact .same _
  | revokes r reason _ _ hinstallations _ =>
    rw [installation_revoked hinstallations]
    cases t.installation tenant pluginId with
    | none => exact .same _
    | some i => exact changeAllowed_withRelease _ _ i
  | mounts item s _ _ _ _ => exact .same _

theorem ChangeAllowed.mono {old new : Option Installation} (h : ChangeAllowed old new) :
    old.elim 0 Installation.mountRevocationVersion ≤ new.elim 0 Installation.mountRevocationVersion := by
  cases h with
  | same => exact le_rfl
  | installed i _ => exact Nat.zero_le _
  | moved i j _ _ hmount => exact hmount.le

theorem ChangeAllowed.lt {old new : Option Installation} (h : ChangeAllowed old new)
    (hne : old ≠ new) (hpositive : ∀ i ∈ new, 1 ≤ i.mountRevocationVersion) :
    old.elim 0 Installation.mountRevocationVersion < new.elim 0 Installation.mountRevocationVersion := by
  cases h with
  | same => exact absurd rfl hne
  | installed i _ => exact hpositive i rfl
  | moved i j _ _ hmount => exact hmount

/-! ## Soundness -/

/-- An installation deserves its state as long as its release stays as it is. -/
theorem Earned.congr (h : Earned t i)
    (hrelease : i.state.isMounted = true → ∀ r, t.release i.pluginId i.currentVersion = some r →
      r.status = .published → t'.release i.pluginId i.currentVersion = some r) : Earned t' i where
  mounted hmounted := by
    obtain ⟨r, hr, hpublished, hgrants⟩ := h.mounted hmounted
    exact ⟨r, hrelease hmounted r hr hpublished, hpublished, hgrants⟩
  uninstalled := h.uninstalled

theorem Sound.congr (h : Sound t) (hreleases : t'.releases = t.releases)
    (hinstallations : t'.installations = t.installations) : Sound t' := by
  intro tenant pluginId i hi
  rw [Tables.installation, hinstallations] at hi
  refine (h tenant pluginId i hi).congr fun _ r hr _ => ?_
  rw [Tables.release, hreleases]
  exact hr

/-- **A call that is not careless keeps every installation deserving.** -/
theorem Effect.sound (h : Effect offers earned t t') (hs : Sound t) (he : earned) : Sound t' := by
  cases h with
  | keeps _ hreleases hinstallations _ => exact hs.congr hreleases hinstallations
  | publishes r hold =>
    intro tenant pluginId i hi
    refine (hs tenant pluginId i hi).congr fun _ r' hr' hpublished => ?_
    rw [release_putRelease, if_neg ?_]
    · exact hr'
    · intro hkey
      simp only [Release.key, Prod.mk.injEq] at hkey
      rw [← hkey.1, ← hkey.2] at hr'
      exact hold r' hr' hpublished
  | moves j _ hreleases hinstallations _ _ _ hearned =>
    intro tenant pluginId i hi
    rw [installation_upserted hinstallations] at hi
    have hsame : ∀ r, t.release i.pluginId i.currentVersion = some r →
        t'.release i.pluginId i.currentVersion = some r := by
      intro r hr
      rw [Tables.release, hreleases]
      exact hr
    split_ifs at hi with hkey
    · cases hi
      exact (hearned he).congr fun _ r hr _ => hsame r hr
    · exact (hs tenant pluginId i hi).congr fun _ r hr _ => hsame r hr
  | revokes r reason _ hreleases hinstallations _ =>
    intro tenant pluginId i hi
    rw [installation_revoked hinstallations, Option.mem_def, Option.map_eq_some_iff] at hi
    obtain ⟨old, hold, rfl⟩ := hi
    unfold Installation.withRelease
    split_ifs with hruns
    · exact earned_of_idle rfl fun h => by cases h
    · refine (hs tenant pluginId old hold).congr fun hmounted r' hr' _ => ?_
      have hother : ¬ (r.pluginId = old.pluginId ∧ r.version = old.currentVersion) := by
        rintro ⟨hplugin, hversion⟩
        refine hruns ?_
        cases hstate : old.state <;>
          simp_all [Installation.runs, State.isMounted]
      rw [Tables.release, hreleases, KeyedRows.lookup_upsert, if_neg ?_]
      · exact hr'
      · simpa [Release.key] using hother
  | mounts item s _ _ _ _ => exact hs.congr rfl rfl

/-- A move that nothing has to be verified for goes through. -/
theorem exists_transition {a : Ambient} {context : Context} {target : State}
    (hrow : t.installation (tenantOf context) pluginId = some i)
    (hmove : target ∈ TRANSITIONS i.state) (htarget : target ≠ .enabled)
    (hexport : target = .uninstalled → (uninstallPolicy t pluginId i.currentVersion).uninstall
      ≠ "export-then-delete".toList) :
    ∃ t', transition a context pluginId target t = .ok t' := by
  have hpolicy : target = .uninstalled →
      ∃ t₁, applyUninstallDataPolicy t (tenantOf context) pluginId i.currentVersion = .ok t₁ := by
    intro h
    unfold applyUninstallDataPolicy
    rw [require_bind (hexport h)]
    split_ifs
    · exact ⟨_, rfl⟩
    · exact ⟨_, rfl⟩
  unfold transition
  rw [found_bind hrow]
  show ∃ t', (require _ _ >>= _) = Except.ok t'
  rw [require_bind hmove]
  by_cases h : target = .uninstalled
  · obtain ⟨t₁, ht₁⟩ := hpolicy h
    rw [if_neg htarget, if_pos h, ht₁]
    exact ⟨_, rfl⟩
  · rw [if_neg htarget, if_neg h]
    exact ⟨_, rfl⟩

/-- A careless call goes through, and what it leaves is undeserved. -/
theorem Call.Careless.not_sound {c : Call} (h : c.Careless w.tables) : ¬ Sound (w.execute c).tables := by
  cases c with
  | transition a context pluginId target =>
    obtain ⟨i, hrow, hmove, hexport, hundeserved⟩ := h
    have htarget : target ≠ .enabled := by
      rintro rfl
      simp [Undeserved] at hundeserved
    obtain ⟨t', ht'⟩ := exists_transition (a := a) hrow hmove htarget hexport
    obtain ⟨j, hj, -, hreleases, -, hinstallations⟩ := transition_eq_ok ht'
    cases hrow.symm.trans hj
    intro hsound
    have hleft : Earned t' (Installation.bumped { i with state := target }) := by
      have htables : (w.execute (.transition a context pluginId target)).tables = t' := by
        simp only [World.execute, Call.run, ht', Except.toOption, Option.getD_some]
      rw [htables] at hsound
      refine hsound (tenantOf context) pluginId _ ?_
      rw [installation_upserted hinstallations]
      exact if_pos (key_of_installation hrow)
    rcases hundeserved with ⟨huninstalled, hgrants⟩ | ⟨hback, hrelease⟩
    · exact hgrants (hleft.uninstalled huninstalled)
    · refine hrelease ?_
      obtain ⟨r, hr, hpublished, hgrants⟩ := hleft.mounted (by rw [hback]; rfl)
      rw [Tables.release, hreleases] at hr
      exact ⟨r, hr, hpublished, hgrants⟩
  | _ => exact h.elim

/-! ## Sessions -/

/-- What holds of every world that calls lead to: the keys of the tables are unique, revocation
versions start at one, and no session or offer is ahead of its installation. -/
structure Coherent (w : World) : Prop where
  keys : (w.tables.installations.map Installation.key).Nodup
  ids : (w.tables.stamps.map Prod.fst).Nodup
  positive : ∀ tenant pluginId, ∀ i ∈ w.tables.installation tenant pluginId,
    1 ≤ i.mountRevocationVersion
  sessions : ∀ x ∈ w.tables.stamps,
    Successive.Dated (fun x => x.2.1) (fun x => x.2.2) w.tables.mountVersion x
  offers : ∀ item ∈ w.offers,
    item.mountRevocationVersion ≤ w.tables.mountVersion (item.tenant, item.pluginId)

theorem Effect.mountVersion_le (h : Effect offers earned t t') (key : Str × Str) :
    t.mountVersion key ≤ t'.mountVersion key := (h.changeAllowed key.1 key.2).mono

/-- Sessions are only added, each from an offer and under a new id. -/
theorem Effect.stamps_cases (h : Effect offers earned t t') : t'.stamps = t.stamps
    ∨ ∃ item ∈ offers, ∃ id ∉ t.stamps.map Prod.fst, t'.stamps
      = t.stamps ++ [(id, (item.tenant, item.pluginId), item.mountRevocationVersion)] := by
  cases h with
  | keeps _ _ _ hsessions => exact .inl (stamps_congr hsessions)
  | publishes r _ => exact .inl rfl
  | moves _ _ _ _ hsessions _ _ _ => exact .inl hsessions
  | revokes r reason _ _ _ hsessions => exact .inl (stamps_congr hsessions)
  | mounts item s hoffered hkey hversion hnew =>
    refine .inr ⟨item, hoffered, s.mountSessionId, ?_, ?_⟩
    · intro hid
      obtain ⟨x, hx, heq⟩ := List.mem_map.mp hid
      obtain ⟨row, hrow, rfl⟩ := List.mem_map.mp hx
      exact hnew row hrow heq
    · unfold Tables.stamps
      rw [List.map_append, ← hkey, ← hversion]
      rfl

theorem Effect.stamps_grow (h : Effect offers earned t t') : t.stamps <+: t'.stamps := by
  rcases h.stamps_cases with hsame | ⟨item, -, id, -, hadded⟩
  · rw [hsame]
  · exact hadded ▸ List.prefix_append _ _

theorem Effect.nodup_ids (h : Effect offers earned t t') (hids : (t.stamps.map Prod.fst).Nodup) :
    (t'.stamps.map Prod.fst).Nodup := by
  rcases h.stamps_cases with hsame | ⟨item, -, id, hnew, hadded⟩
  · rwa [hsame]
  · rw [hadded, List.map_append, List.map_singleton]
    refine List.Nodup.append hids (List.nodup_singleton _) ?_
    rw [List.disjoint_singleton]
    exact hnew

theorem Effect.nodup_keys (h : Effect offers earned t t')
    (hkeys : (t.installations.map Installation.key).Nodup) :
    (t'.installations.map Installation.key).Nodup := by
  cases h with
  | keeps _ _ hinstallations _ => rwa [hinstallations]
  | publishes r _ => exact hkeys
  | moves _ _ _ hinstallations _ _ _ _ =>
    rw [hinstallations]
    exact KeyedRows.nodup_upsert hkeys
  | revokes r reason _ _ hinstallations _ =>
    rw [hinstallations, List.map_map]
    have hsame : Installation.key ∘ Installation.withRelease r.pluginId r.version reason
        = Installation.key := funext fun i => i.withRelease_key _ _
    rwa [hsame]
  | mounts item s _ _ _ _ => exact hkeys

theorem Effect.positive (h : Effect offers earned t t')
    (hpositive : ∀ tenant pluginId, ∀ i ∈ t.installation tenant pluginId,
      1 ≤ i.mountRevocationVersion) (tenant pluginId : Str) :
    ∀ i ∈ t'.installation tenant pluginId, 1 ≤ i.mountRevocationVersion := by
  intro i hi
  cases h with
  | keeps _ _ hinstallations _ =>
    rw [Tables.installation, hinstallations] at hi
    exact hpositive tenant pluginId i hi
  | publishes r _ => exact hpositive tenant pluginId i hi
  | moves j _ _ hinstallations _ _ hone _ =>
    rw [installation_upserted hinstallations] at hi
    split_ifs at hi
    · cases hi
      exact hone
    · exact hpositive tenant pluginId i hi
  | revokes r reason _ _ hinstallations _ =>
    rw [installation_revoked hinstallations, Option.mem_def, Option.map_eq_some_iff] at hi
    obtain ⟨old, hold, rfl⟩ := hi
    exact (hpositive tenant pluginId old hold).trans (changeAllowed_withRelease _ _ old).mono
  | mounts item s _ _ _ _ => exact hpositive tenant pluginId i hi

theorem Coherent.mountVersion (h : Coherent w) {tenant : Str} {item : RegistryItem}
    (hitem : item ∈ tenantRegistry tenant w.tables) :
    item.mountRevocationVersion = w.tables.mountVersion (item.tenant, item.pluginId) := by
  obtain ⟨i, hi, hkey, hversion⟩ := mem_tenantRegistry hitem
  have hrow : w.tables.installation item.tenant item.pluginId = some i := by
    unfold Tables.installation
    rw [← hkey]
    exact KeyedRows.lookup_of_mem h.keys hi
  have hone := h.positive _ _ i hrow
  rw [Tables.mountVersion, hrow, hversion, orOne, if_neg (Nat.one_le_iff_ne_zero.mp hone)]
  rfl

theorem coherent_execute (h : Coherent w) (c : Call) : Coherent (w.execute c) where
  keys := (effect_execute w c).nodup_keys h.keys
  ids := (effect_execute w c).nodup_ids h.ids
  positive := (effect_execute w c).positive h.positive
  sessions := by
    have hmono := (effect_execute w c).mountVersion_le
    intro x hx
    rcases (effect_execute w c).stamps_cases with hsame | ⟨item, hitem, id, -, hadded⟩
    · exact (h.sessions x (hsame ▸ hx)).mono hmono
    · rw [hadded, List.mem_append, List.mem_singleton] at hx
      rcases hx with hold | rfl
      · exact (h.sessions x hold).mono hmono
      · exact (h.offers item hitem).trans (hmono _)
  offers := by
    intro item hitem
    refine le_trans ?_ ((effect_execute w c).mountVersion_le _)
    rcases List.mem_append.mp hitem with hold | hnew
    · exact h.offers item hold
    · cases c with
      | tenantRegistry tenant => exact (h.mountVersion hnew).le
      | _ => cases hnew

theorem coherent_worldAfter (calls : List Call) : Coherent (worldAfter calls) := by
  refine Successive.after_keeps ?_ fun w c h => coherent_execute h c
  exact ⟨List.nodup_nil, List.nodup_nil, nofun, nofun, nofun⟩

/-- The rest of a run leaves the sessions there are and lets no revocation version shrink. -/
theorem worldAfter_later (past later : List Call) :
    (worldAfter past).tables.stamps <+: (worldAfter (past ++ later)).tables.stamps
      ∧ ∀ key, (worldAfter past).tables.mountVersion key
        ≤ (worldAfter (past ++ later)).tables.mountVersion key := by
  unfold worldAfter
  rw [Successive.after_append]
  refine Successive.after_related (I := fun _ => True)
    (R := fun w w' : World => w.tables.stamps <+: w'.tables.stamps
      ∧ ∀ key, w.tables.mountVersion key ≤ w'.tables.mountVersion key)
    (fun w => ⟨List.prefix_refl _, fun _ => le_rfl⟩) ?_ trivial (fun _ _ _ => trivial) ?_
  · exact fun w w' w'' h h' => ⟨h.1.trans h'.1, fun key => (h.2 key).trans (h'.2 key)⟩
  · exact fun w c _ => ⟨(effect_execute w c).stamps_grow, (effect_execute w c).mountVersion_le⟩

theorem worldAfter_concat (past : List Call) (call : Call) :
    worldAfter (past ++ [call]) = (worldAfter past).execute call := Successive.after_concat _ _ _ _

/-- **A session is not live once its installation has changed.** -/
theorem not_live_after_change (past : List Call) (call : Call) (later : List Call)
    (hchange : (worldAfter past).tables.installation tenant pluginId
      ≠ (worldAfter (past ++ [call])).tables.installation tenant pluginId)
    {s : SessionRow} (hs : s ∈ (worldAfter past).tables.sessions)
    (hkey : s.session.key = (tenant, pluginId)) {predicate : MountSession → Bool} {now : Int}
    {live : MountSession}
    (hlive : selectLive predicate now (worldAfter (past ++ call :: later)).tables = .ok live) :
    live.mountSessionId ≠ s.session.mountSessionId := by
  have hend : worldAfter (past ++ call :: later) = worldAfter ((past ++ [call]) ++ later) := by
    rw [List.append_assoc, List.singleton_append]
  have hrest := worldAfter_later (past ++ [call]) later
  rw [hend] at hlive
  have hstamp : s.stamp ∈ (worldAfter past).tables.stamps := List.mem_map_of_mem hs
  have hstep := effect_execute (worldAfter past) call
  rw [← worldAfter_concat] at hstep
  -- the change outdates the session, and what follows leaves it outdated
  have houtdated : s.session.revocationVersion
      < (worldAfter ((past ++ [call]) ++ later)).tables.mountVersion s.session.key := by
    have hgrows : (worldAfter past).tables.mountVersion s.session.key
        < (worldAfter (past ++ [call])).tables.mountVersion s.session.key := by
      rw [hkey]
      exact (hstep.changeAllowed tenant pluginId).lt hchange
        ((coherent_worldAfter (past ++ [call])).positive tenant pluginId)
    have hdated := (coherent_worldAfter past).sessions _ hstamp
    exact (hdated.outdated hgrows).mono hrest.2
  intro hid
  obtain ⟨row, hrow, rfl, -, hrowlive⟩ := selectLive_eq_ok hlive
  -- the live row is the one of the session, their ids being the same
  have hsame : row.stamp = s.stamp := by
    have hmem : s.stamp ∈ (worldAfter ((past ++ [call]) ++ later)).tables.stamps :=
      hrest.1.subset (hstep.stamps_grow.subset hstamp)
    exact List.inj_on_of_nodup_map (coherent_worldAfter _).ids (List.mem_map_of_mem hrow) hmem hid
  simp only [SessionRow.stamp, Prod.mk.injEq] at hsame
  obtain ⟨i, hi, hshown, -⟩ := isLive_shows hrowlive
  have hcount : (worldAfter ((past ++ [call]) ++ later)).tables.mountVersion row.session.key
      = i.mountRevocationVersion := by
    rw [Tables.mountVersion, MountSession.key, hi]
    rfl
  rw [← hsame.2.1, ← hsame.2.2, hcount, hshown] at houtdated
  exact lt_irrefl _ houtdated

/-! ## The runs that keep the promises -/

theorem sound_worldAfter (hcareful : ∀ past call, past ++ [call] <+: calls →
      ¬ call.Careless (worldAfter past).tables) : Sound (worldAfter calls).tables := by
  unfold worldAfter
  have hstep : ∀ (w : World) (c : Call), Sound w.tables → ¬ c.Careless w.tables →
      Sound (w.execute c).tables := fun w c hsound hc => (effect_execute w c).sound hsound hc
  exact Successive.after_invariant (fun _ _ _ h => nomatch h) hstep hcareful

/-- **The promises hold in a run exactly when none of its calls is careless.** -/
theorem promises_iff (calls : List Call) : KeepsPromises calls
    ↔ ∀ past call, past ++ [call] <+: calls → ¬ call.Careless (worldAfter past).tables := by
  constructor
  · intro h past call hcall hcareless
    refine hcareless.not_sound ?_
    rw [← worldAfter_concat]
    exact h.sound _ hcall
  · intro h
    constructor
    · intro past call _ tenant pluginId
      rw [worldAfter_concat]
      exact (effect_execute _ _).changeAllowed tenant pluginId
    · intro past hpast
      exact sound_worldAfter fun before call hcall => h before call (hcall.trans hpast)
    · intro past call later _ tenant pluginId hchange s hs hkey predicate now live hlive
      exact not_live_after_change past call later hchange hs hkey hlive

/-! ### An installation that is uninstalled with its grants -/

/-- What the calls below find around them. -/
def plainAmbient : Ambient where
  commandDigest := fun _ => []
  platformPublicKey := some "platform".toList
  platformPrivateKey := some "secret".toList
  platformApiVersion := "1.0.0".toList
  webPluginSdkVersion := "0.1.0".toList
  publisherKey := fun _ => some "publisher".toList
  verify := fun _ _ _ _ => true
  sign := fun _ _ _ => "signature".toList
  pluginCallable := fun _ => some true
  approvedBindings := fun _ => some []
  catalog := fun _ => none
  tenantProvider := fun _ _ => none

def notesManifest : Manifest where
  pluginId := "dev.example.notes".toList
  publisherId := "dev".toList
  version := "1.0.0".toList
  platformApi := ">=1.0.0".toList
  webSdk := ">=0.1.0".toList
  permissions := ["project.read".toList]
  artifactSha256 := List.replicate 64 'a'

def notesUninstalled : List Call :=
  let id := notesManifest.pluginId
  let version := notesManifest.version
  let context : Context := ⟨"ada".toList, some "team".toList⟩
  [.submitRelease plainAmbient notesManifest "signed".toList,
    .reviewRelease plainAmbient id version true none,
    .install plainAmbient "0".toList context id version ["project.read".toList],
    .transition plainAmbient context id .uninstalled]

/-- The row that is left is uninstalled and still grants `project.read`. -/
theorem uninstalled_with_grants : ¬ KeepsPromises notesUninstalled := by
  intro h
  have hrow : (worldAfter notesUninstalled).tables.installation "team".toList notesManifest.pluginId
      = some
        { tenantGid := "team".toList, pluginId := notesManifest.pluginId
          currentVersion := notesManifest.version, state := .uninstalled
          grantedCapabilities := ["project.read".toList], installedBy := "ada".toList
          installationId := "installation_0".toList, mountRevocationVersion := 2, revision := 2 } := by
    decide +kernel
  have hgrants := (h.sound _ (List.prefix_refl _) _ _ _ hrow).uninstalled rfl
  cases hgrants

end Ai00.Plugin
