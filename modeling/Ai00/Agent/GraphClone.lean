import Ai00.Agent.GraphRenaming

/-! # Clones of a graph

`clone_revision_graph` gives the rows of a graph new ids and validates the result. It looks every
reference up among the rows. What `validate_workspace` does not check are the implementations that a
variant has for nodes it does not show, so that a clone is the graph under new ids exactly where these
refer to items of the graph (`clonesGraph_iff`).
-/

namespace Ai00.Agent

open KeyedRows

variable {repr : Binary64 → Str} {uuid : ℕ → Str} {graph : GraphDraft}

/-! ## What it is for -/

/-- The rows of a graph, in the order in which a clone gives them ids. -/
def GraphDraft.rows (graph : GraphDraft) : List (RowKind × Str) :=
  [.node, .item, .edge, .itemEdge, .capability, .context].flatMap fun kind =>
    (graph.rowGids kind).map (kind, ·)

/-- Where a graph names a row. -/
def GraphDraft.mentions (graph : GraphDraft) : List Str :=
  graph.rows.map Prod.snd
    ++ graph.edges.flatMap (fun edge => [edge.sourceNodeGid, edge.targetNodeGid])
    ++ graph.items.flatMap (fun item => item.businessNodeGid.toList)
    ++ graph.itemEdges.flatMap (fun edge => [edge.sourceItemGid, edge.targetItemGid])
    ++ graph.capabilityBindings.map CapabilityBinding.sourceItemGid
    ++ graph.contextBindings.map ContextBinding.sourceItemGid
    ++ graph.implementationOptions.flatMap ImplementationOption.sourceItemGids
    ++ graph.workspace.toList.flatMap fun definition =>
        definition.scopes.flatMap (fun scope => scope.businessNodeGid.toList)
          ++ definition.views.flatMap View.placed
          ++ definition.variants.flatMap fun variant =>
              variant.activeNodeGids.toList.flatten ++ variant.nodeOverrides.map Prod.fst

/-- A supply of ids that are no ids of a graph yet. -/
structure FreshIds (uuid : ℕ → Str) (graph : GraphDraft) : Prop where
  injective : Function.Injective uuid
  given : ∀ n, uuid n ≠ []
  unused : ∀ n, uuid n ∉ graph.rows.map Prod.snd

/-- A clone is made, accepted, and the graph under a renaming that keeps its rows apart; it names no
row of the graph. -/
def ClonesGraph (repr : Binary64 → Str) (uuid : ℕ → Str) (drawn : ℕ) (graph : GraphDraft) : Prop :=
  ∃ clone ρ, cloneRevisionGraph repr uuid drawn graph = .ok clone ∧ clone.validate repr = .ok ()
    ∧ clone = graph.rename ρ
    ∧ (∀ row ∈ graph.rows, ∀ row' ∈ graph.rows, ρ row.1 row.2 = ρ row'.1 row'.2 → row = row')
    ∧ ∀ gid ∈ clone.mentions, gid ∉ graph.rows.map Prod.snd

/-- The implementations that variants have for nodes refer to items of the graph. -/
def OverridesReferToItems (graph : GraphDraft) : Prop :=
  ∀ definition ∈ graph.workspace, ∀ variant ∈ definition.variants, ∀ entry ∈ variant.nodeOverrides,
    ∀ implementation ∈ entry.2.implementation, ∀ option ∈ implementation.options,
      ∀ gid ∈ option.sourceItemGids, gid ∈ graph.itemGids

/-! ## New ids -/

/-- The ids that a clone gives. -/
def newIds (uuid : ℕ → Str) (drawn : ℕ) (graph : GraphDraft) : Renaming := fun kind gid =>
  if (kind, gid) ∈ graph.rows then uuid (drawn + graph.rows.idxOf (kind, gid)) else gid

variable {drawn : ℕ} {kind : RowKind} {gid : Str}

theorem mem_rows : (kind, gid) ∈ graph.rows ↔ gid ∈ graph.rowGids kind := by
  cases kind <;> simp [GraphDraft.rows]

theorem newIds_of_mem (h : gid ∈ graph.rowGids kind) :
    newIds uuid drawn graph kind gid = uuid (drawn + graph.rows.idxOf (kind, gid)) :=
  if_pos (mem_rows.mpr h)

theorem newIds_injective (hfresh : FreshIds uuid graph) : ∀ row ∈ graph.rows, ∀ row' ∈ graph.rows,
    newIds uuid drawn graph row.1 row.2 = newIds uuid drawn graph row'.1 row'.2 → row = row' := by
  intro row hrow row' hrow' heq
  rw [newIds_of_mem (mem_rows.mp hrow), newIds_of_mem (mem_rows.mp hrow')] at heq
  exact (List.idxOf_inj hrow).mp (Nat.add_left_cancel (hfresh.injective heq))

theorem newIds_tellsApart (hfresh : FreshIds uuid graph) (kind : RowKind) :
    TellsApart (newIds uuid drawn graph) kind (graph.rowGids kind) := by
  intro a ha b hb heq
  have hrow := newIds_injective hfresh (kind, a) (mem_rows.mpr ha) (kind, b) (mem_rows.mpr hb) heq
  exact (Prod.mk.inj hrow).2

theorem newIds_gives (hfresh : FreshIds uuid graph) : Gives (newIds uuid drawn graph) := by
  intro kind gid hgid
  rw [newIds]
  split_ifs
  · exact hfresh.given _
  · exact hgid

theorem newIds_unused (hfresh : FreshIds uuid graph) (h : gid ∈ graph.rowGids kind) :
    newIds uuid drawn graph kind gid ∉ graph.rows.map Prod.snd := by
  rw [newIds_of_mem h]
  exact hfresh.unused _

/-! ## Ids that are looked up -/

theorem withIds_cons {α : Type} {a : α} {values : List α} :
    withIds uuid drawn (a :: values) = (a, uuid drawn) :: withIds uuid (drawn + 1) values := by
  simp only [withIds, List.zipIdx_cons, List.map_cons, Nat.add_zero, Nat.zero_add]
  refine congrArg _ ?_
  rw [List.zipIdx_eq_map_add, List.map_map]
  refine List.map_congr_left fun p _ => ?_
  simp only [Function.comp_apply, Prod.mk.injEq, true_and]
  congr 1
  omega

theorem idFor_withIds {gids : List Str} (h : gid ∈ gids) :
    idFor (withIds uuid drawn gids) gid = .ok (uuid (drawn + gids.idxOf gid)) := by
  induction gids generalizing drawn with
  | nil => cases h
  | cons first gids ih =>
    rw [withIds_cons, idFor, lookup_cons]
    by_cases hfirst : first = gid
    · subst hfirst
      simp [found]
    · have hrest := @ih (drawn + 1) ((List.mem_cons.mp h).resolve_left (Ne.symm hfirst))
      rw [if_neg hfirst, List.idxOf_cons_ne _ hfirst]
      rw [idFor] at hrest
      rw [hrest]
      congr 2
      omega

theorem mem_of_idFor {gids : List Str} {new : Str} (h : idFor (withIds uuid drawn gids) gid = .ok new) :
    gid ∈ gids := by
  obtain ⟨entry, hentry, -⟩ := Option.map_eq_some_iff.mp (found_eq_ok.mp h)
  have hmem := mem_of_lookup hentry
  obtain ⟨p, hp, rfl⟩ := List.mem_map.mp hmem
  rw [← key_of_lookup hentry]
  exact (List.mem_zipIdx' hp).2 ▸ List.getElem_mem _

theorem idxOf_flatMap {gids : RowKind → List Str} {kinds : List RowKind} (hkind : kind ∈ kinds)
    (hgid : gid ∈ gids kind) :
    (kinds.flatMap fun k => (gids k).map (k, ·)).idxOf (kind, gid)
      = ((kinds.takeWhile (· ≠ kind)).map fun k => (gids k).length).sum + (gids kind).idxOf gid := by
  have hsame : ∀ l : List Str, (l.map (kind, ·)).idxOf (kind, gid) = l.idxOf gid := by
    intro l
    induction l with
    | nil => rfl
    | cons a l ih =>
      by_cases ha : a = gid
      · subst ha
        simp
      · have hpair : (kind, a) ≠ (kind, gid) := fun heq => ha (Prod.mk.inj heq).2
        rw [List.map_cons, List.idxOf_cons_ne _ hpair, List.idxOf_cons_ne _ ha, ih]
  induction kinds with
  | nil => cases hkind
  | cons first kinds ih =>
    rw [List.flatMap_cons]
    by_cases hfirst : first = kind
    · subst hfirst
      rw [List.idxOf_append_of_mem (List.mem_map_of_mem hgid), hsame]
      simp
    · have hnot : (kind, gid) ∉ (gids first).map (first, ·) := by
        intro hin
        obtain ⟨a, -, heq⟩ := List.mem_map.mp hin
        exact hfirst (Prod.mk.inj heq).1
      have hrest := ih ((List.mem_cons.mp hkind).resolve_left (Ne.symm hfirst))
      rw [List.idxOf_append_of_notMem hnot, hrest, List.length_map]
      simp [hfirst, Nat.add_assoc]

/-- How many ids a clone has given before it comes to a kind. -/
def GraphDraft.offset (graph : GraphDraft) : RowKind → ℕ
  | .node => 0
  | .item => graph.nodes.length
  | .edge => graph.nodes.length + graph.items.length
  | .itemEdge => graph.nodes.length + graph.items.length + graph.edges.length
  | .capability => graph.nodes.length + graph.items.length + graph.edges.length + graph.itemEdges.length
  | .context => graph.nodes.length + graph.items.length + graph.edges.length + graph.itemEdges.length
      + graph.capabilityBindings.length

theorem newIds_eq (h : gid ∈ graph.rowGids kind) : newIds uuid drawn graph kind gid
    = uuid (drawn + graph.offset kind + (graph.rowGids kind).idxOf gid) := by
  have hplace : graph.rows.idxOf (kind, gid) = graph.offset kind + (graph.rowGids kind).idxOf gid := by
    rw [GraphDraft.rows, idxOf_flatMap (by cases kind <;> simp) h]
    congr 1
    cases kind <;> simp [GraphDraft.offset, GraphDraft.rowGids, nodeGids, GraphDraft.itemGids, List.takeWhile,
      Nat.add_assoc]
  rw [newIds_of_mem h, hplace, Nat.add_assoc]

theorem of_mem_withIds {α : Type} {key : α → Str} {values : List α} (hnodup : (values.map key).Nodup)
    {row : α} {new : Str} (h : (row, new) ∈ withIds uuid drawn values) :
    row ∈ values ∧ new = uuid (drawn + (values.map key).idxOf (key row)) := by
  obtain ⟨⟨value, i⟩, hp, heq⟩ := List.mem_map.mp h
  obtain ⟨rfl, rfl⟩ := Prod.mk.inj heq
  obtain ⟨hi, hvalue⟩ := List.mem_zipIdx' hp
  refine ⟨hvalue ▸ List.getElem_mem _, ?_⟩
  have hlength : i < (values.map key).length := by rwa [List.length_map]
  have hget : (values.map key)[i] = key value := by rw [List.getElem_map, ← hvalue]
  rw [← hget, hnodup.idxOf_getElem i hlength]

theorem mapM_withIds {ε α β : Type} {f : α × Str → Except ε β} {g : α → β} {values : List α}
    (h : ∀ row ∈ withIds uuid drawn values, f row = .ok (g row.1)) :
    (withIds uuid drawn values).mapM f = .ok (values.map g) := by
  have hfst : (withIds uuid drawn values).map Prod.fst = values := by
    rw [withIds, List.map_map]
    exact List.zipIdx_map_fst 0 values
  have hmap := mapM_eq_map (g := fun row : α × Str => g row.1) h
  rw [hmap]
  conv_rhs => rw [← hfst, List.map_map]
  rfl

/-! ## The parts of a clone -/

section

variable {ρ : Renaming} {nodes items : List Str} {nodeIds itemIds : List (Str × Str)}

theorem cloneOption_eq (hitem : ∀ gid ∈ items, idFor itemIds gid = .ok (ρ .item gid))
    {option : ImplementationOption} (h : ∀ gid ∈ option.sourceItemGids, gid ∈ items) :
    cloneOption itemIds option = .ok (option.rename ρ) := by
  rw [cloneOption, mapM_eq_map fun gid hgid => hitem gid (h gid hgid)]
  rfl

theorem cloneImplementation_eq (hitem : ∀ gid ∈ items, idFor itemIds gid = .ok (ρ .item gid))
    {implementation : Implementation}
    (h : ∀ option ∈ implementation.options, ∀ gid ∈ option.sourceItemGids, gid ∈ items) :
    cloneImplementation itemIds implementation = .ok (implementation.rename ρ) := by
  have hoption := cloneOption_eq hitem (h implementation.toImplementationOption List.mem_cons_self)
  have halternatives : implementation.alternatives.mapM (cloneOption itemIds)
      = .ok (implementation.alternatives.map (ImplementationOption.rename ρ)) :=
    mapM_eq_map fun option hin => cloneOption_eq hitem (h option (List.mem_cons_of_mem _ hin))
  rw [cloneImplementation, hoption, halternatives]
  rfl

theorem cloneNode_eq (hnode : ∀ gid ∈ nodes, idFor nodeIds gid = .ok (ρ .node gid))
    (hitem : ∀ gid ∈ items, idFor itemIds gid = .ok (ρ .item gid)) {node : BusinessNode}
    (hgid : node.gid ∈ nodes) (h : checkNode items node = .ok ()) :
    cloneNode nodeIds itemIds node = .ok (node.rename ρ) := by
  simp only [checkNode, andThen_eq_ok, require_eq_ok] at h
  rw [cloneNode, hnode _ hgid, cloneImplementation_eq hitem h.1]
  rfl

theorem cloneEdge_eq (hnode : ∀ gid ∈ nodes, idFor nodeIds gid = .ok (ρ .node gid)) {row : FlowEdge × Str}
    (hends : row.1.sourceNodeGid ∈ nodes ∧ row.1.targetNodeGid ∈ nodes) (hnew : row.2 = ρ .edge row.1.gid) :
    cloneEdge nodeIds row = .ok (row.1.rename ρ) := by
  simp only [cloneEdge, hnode _ hends.1, hnode _ hends.2, hnew]
  rfl

theorem cloneItem_eq (hnode : ∀ gid ∈ nodes, idFor nodeIds gid = .ok (ρ .node gid))
    (hitem : ∀ gid ∈ items, idFor itemIds gid = .ok (ρ .item gid)) {item : DecompositionItem}
    (hgid : item.gid ∈ items) (howner : ∀ gid ∈ item.businessNodeGid, gid ≠ [] ∧ gid ∈ nodes) :
    cloneItem nodeIds itemIds item = .ok (item.rename ρ) := by
  obtain ⟨itemGid, itemType, title, businessNodeGid, sequenceNo, config⟩ := item
  cases businessNodeGid with
  | none =>
    simp only [cloneItem, hitem itemGid hgid]
    rfl
  | some gid =>
    cases gid with
    | nil => exact absurd rfl (howner [] rfl).1
    | cons c gid =>
      have hfound := hnode _ (howner (c :: gid) rfl).2
      simp only [cloneItem, hitem itemGid hgid, hfound, DecompositionItem.rename]
      rfl

theorem cloneItemEdge_eq (hitem : ∀ gid ∈ items, idFor itemIds gid = .ok (ρ .item gid))
    {row : DecompositionEdge × Str} (hends : row.1.sourceItemGid ∈ items ∧ row.1.targetItemGid ∈ items)
    (hnew : row.2 = ρ .itemEdge row.1.gid) : cloneItemEdge itemIds row = .ok (row.1.rename ρ) := by
  simp only [cloneItemEdge, hitem _ hends.1, hitem _ hends.2, hnew]
  rfl

theorem cloneCapability_eq (hitem : ∀ gid ∈ items, idFor itemIds gid = .ok (ρ .item gid))
    {row : CapabilityBinding × Str} (hsource : row.1.sourceItemGid ∈ items)
    (hnew : row.2 = ρ .capability row.1.gid) : cloneCapability itemIds row = .ok (row.1.rename ρ) := by
  simp only [cloneCapability, hitem _ hsource, hnew]
  rfl

theorem cloneContext_eq (hitem : ∀ gid ∈ items, idFor itemIds gid = .ok (ρ .item gid))
    {row : ContextBinding × Str} (hsource : row.1.sourceItemGid ∈ items)
    (hnew : row.2 = ρ .context row.1.gid) : cloneContext itemIds row = .ok (row.1.rename ρ) := by
  simp only [cloneContext, hitem _ hsource, hnew]
  rfl

theorem cloneScope_eq (hnode : ∀ gid ∈ nodes, idFor nodeIds gid = .ok (ρ .node gid)) {scope : Scope}
    (h : ∀ gid ∈ scope.businessNodeGid, gid ≠ [] → gid ∈ nodes) :
    cloneScope nodeIds scope = .ok (scope.rename ρ) := by
  obtain ⟨scopeGid, title, parentGid, businessNodeGid⟩ := scope
  cases businessNodeGid with
  | none => rfl
  | some gid =>
    cases gid with
    | nil => rfl
    | cons c gid =>
      have hfound := hnode _ (h _ rfl (List.cons_ne_nil c gid))
      simp only [cloneScope, hfound, Scope.rename]
      rfl

theorem cloneView_eq (hnode : ∀ gid ∈ nodes, idFor nodeIds gid = .ok (ρ .node gid)) {view : View}
    (h : view.placed ⊆ nodes) : cloneView nodeIds view = .ok (view.rename ρ) := by
  have hplacements : view.placements.mapM (clonePlacement nodeIds)
      = .ok (view.placements.map (Placement.rename ρ)) := by
    refine mapM_eq_map fun placement hin => ?_
    rw [clonePlacement, hnode _ (h (List.mem_map_of_mem hin))]
    rfl
  rw [cloneView, hplacements]
  rfl

theorem cloneOverride_eq (hnode : ∀ gid ∈ nodes, idFor nodeIds gid = .ok (ρ .node gid))
    (hitem : ∀ gid ∈ items, idFor itemIds gid = .ok (ρ .item gid)) {entry : Str × NodeOverride}
    (hgid : entry.1 ∈ nodes) (h : ∀ implementation ∈ entry.2.implementation,
      ∀ option ∈ implementation.options, ∀ gid ∈ option.sourceItemGids, gid ∈ items) :
    cloneOverride nodeIds itemIds entry = .ok (ρ .node entry.1, entry.2.rename ρ) := by
  have himplementation : entry.2.implementation.mapM (cloneImplementation itemIds)
      = (.ok (entry.2.implementation.map (Implementation.rename ρ)) : Except GraphError _) := by
    cases hentry : entry.2.implementation with
    | none => rfl
    | some implementation =>
      rw [Option.mapM_some, cloneImplementation_eq hitem (h implementation hentry)]
      rfl
  rw [cloneOverride, hnode _ hgid, himplementation]
  rfl

theorem cloneVariant_eq (hnode : ∀ gid ∈ nodes, idFor nodeIds gid = .ok (ρ .node gid))
    (hitem : ∀ gid ∈ items, idFor itemIds gid = .ok (ρ .item gid)) {variant : Variant}
    (hactive : ∀ active ∈ variant.activeNodeGids, active ⊆ nodes)
    (hoverrides : ∀ entry ∈ variant.nodeOverrides, entry.1 ∈ nodes)
    (h : ∀ entry ∈ variant.nodeOverrides, ∀ implementation ∈ entry.2.implementation,
      ∀ option ∈ implementation.options, ∀ gid ∈ option.sourceItemGids, gid ∈ items) :
    cloneVariant nodeIds itemIds variant = .ok (variant.rename ρ) := by
  have hgids : (variant.activeNodeGids.mapM fun gids => gids.mapM (idFor nodeIds))
      = (.ok (variant.activeNodeGids.map (List.map (ρ .node))) : Except GraphError _) := by
    cases hvariant : variant.activeNodeGids with
    | none => rfl
    | some active =>
      rw [Option.mapM_some, mapM_eq_map fun gid hgid => hnode gid (hactive active hvariant hgid)]
      rfl
  have hentries : variant.nodeOverrides.mapM (cloneOverride nodeIds itemIds)
      = .ok (variant.nodeOverrides.map fun entry => (ρ .node entry.1, entry.2.rename ρ)) :=
    mapM_eq_map fun entry hin => cloneOverride_eq hnode hitem (hoverrides entry hin) (h entry hin)
  rw [cloneVariant, hgids, hentries]
  rfl

end

/-! ## The clone -/

theorem idFor_newIds (kind : RowKind) : ∀ gid ∈ graph.rowGids kind,
    idFor (withIds uuid (drawn + graph.offset kind) (graph.rowGids kind)) gid
      = .ok (newIds uuid drawn graph kind gid) := by
  intro gid hgid
  rw [idFor_withIds hgid, newIds_eq hgid]

theorem cloneWorkspace_eq (h : graph.Accepted) (hitems : OverridesReferToItems graph) {definition : WorkspaceDefinition}
    (hdefinition : definition ∈ graph.workspace) :
    cloneWorkspace (withIds uuid drawn (nodeGids graph.nodes))
        (withIds uuid (drawn + graph.nodes.length) graph.itemGids) definition
      = .ok (definition.rename (newIds uuid drawn graph)) := by
  have hnode := @idFor_newIds uuid graph drawn .node
  have hitem := @idFor_newIds uuid graph drawn .item
  have hworkspace := (checkReferences_eq_ok.mp h.2).workspace definition hdefinition
  obtain ⟨hscopes, -, -, hvariants⟩ := checkWorkspace_eq_ok.mp hworkspace
  have hscope : definition.scopes.mapM (cloneScope (withIds uuid drawn (nodeGids graph.nodes)))
      = .ok (definition.scopes.map (Scope.rename (newIds uuid drawn graph))) := by
    refine mapM_eq_map fun scope hin => cloneScope_eq hnode fun gid hgid hne => ?_
    have hlinked := hscopes scope hin
    rw [ScopeLinked, hgid] at hlinked
    obtain ⟨node, hfound, -⟩ := hlinked hne
    rw [Option.getD_some, Option.mem_def] at hfound
    exact key_of_lookup hfound ▸ List.mem_map_of_mem (mem_of_lookup hfound)
  have hview : definition.views.mapM (cloneView (withIds uuid drawn (nodeGids graph.nodes)))
      = .ok (definition.views.map (View.rename (newIds uuid drawn graph))) :=
    mapM_eq_map fun view hin => cloneView_eq hnode (placed_subset hworkspace hin)
  have hvariant : definition.variants.mapM (cloneVariant (withIds uuid drawn (nodeGids graph.nodes))
      (withIds uuid (drawn + graph.nodes.length) graph.itemGids))
        = .ok (definition.variants.map (Variant.rename (newIds uuid drawn graph))) := by
    refine mapM_eq_map fun variant hin => ?_
    obtain ⟨⟨hoverrides, hactive⟩, -, -⟩ := checkVariant_eq_ok.mp (hvariants variant hin)
    have havailable := available_subset hworkspace variant.taskGid
    exact cloneVariant_eq hnode hitem (fun active hactiveIn gid hgid => havailable (hactive active hactiveIn gid hgid))
      (fun entry hentry => havailable (hoverrides entry hentry))
      (fun entry hentry => hitems definition hdefinition variant hin entry hentry)
  rw [cloneWorkspace, hscope, hview, hvariant]
  rfl

theorem GraphDraft.Accepted.given (h : graph.Accepted) (kind : RowKind) :
    ∀ gid ∈ graph.rowGids kind, gid ≠ [] := by
  have hfields := h.1
  simp only [GraphDraft.checkFields, andThen_eq_ok, require_eq_ok, forM_eq_ok] at hfields
  obtain ⟨-, -, -, hnodes, -, hedges, -, hitems, -, hlinks, -, hcapabilities, -, hcontexts⟩ := hfields
  intro gid hgid
  cases kind with
  | node =>
    obtain ⟨node, hin, rfl⟩ := List.mem_map.mp hgid
    have hcheck := hnodes node hin
    simp only [BusinessNode.check, andThen_eq_ok, require_eq_ok] at hcheck
    exact hcheck.1
  | edge =>
    obtain ⟨edge, hin, rfl⟩ := List.mem_map.mp hgid
    have hcheck := hedges edge hin
    simp only [FlowEdge.check, andThen_eq_ok, require_eq_ok] at hcheck
    exact hcheck.1
  | item =>
    obtain ⟨item, hin, rfl⟩ := List.mem_map.mp hgid
    have hcheck := hitems item hin
    simp only [DecompositionItem.check, andThen_eq_ok, require_eq_ok] at hcheck
    exact hcheck.1
  | itemEdge =>
    obtain ⟨edge, hin, rfl⟩ := List.mem_map.mp hgid
    have hcheck := hlinks edge hin
    simp only [DecompositionEdge.check, andThen_eq_ok, require_eq_ok] at hcheck
    exact hcheck.1
  | capability =>
    obtain ⟨binding, hin, rfl⟩ := List.mem_map.mp hgid
    have hcheck := hcapabilities binding hin
    simp only [CapabilityBinding.check, andThen_eq_ok, require_eq_ok] at hcheck
    exact hcheck.1
  | context =>
    obtain ⟨binding, hin, rfl⟩ := List.mem_map.mp hgid
    have hcheck := hcontexts binding hin
    simp only [ContextBinding.check, andThen_eq_ok, require_eq_ok] at hcheck
    exact hcheck.1

theorem new_of_mem {α : Type} {key : α → Str} {values : List α} (hkind : graph.rowGids kind = values.map key)
    (hnodup : (graph.rowGids kind).Nodup) {row : α × Str}
    (h : row ∈ withIds uuid (drawn + graph.offset kind) values) :
    row.1 ∈ values ∧ row.2 = newIds uuid drawn graph kind (key row.1) := by
  obtain ⟨hin, hnew⟩ := of_mem_withIds (hkind ▸ hnodup) h
  refine ⟨hin, ?_⟩
  rw [newIds_eq (hkind ▸ List.mem_map_of_mem hin), hkind]
  exact hnew

/-- **A clone is the graph under new ids**, which is validated then. -/
theorem cloneRevisionGraph_eq (h : graph.Accepted) (hitems : OverridesReferToItems graph) :
    cloneRevisionGraph repr uuid drawn graph
      = (translate GraphError.valueError ((graph.rename (newIds uuid drawn graph)).validate repr) >>= fun _ =>
          .ok (graph.rename (newIds uuid drawn graph))) := by
  have href := checkReferences_eq_ok.mp h.2
  have hnode := @idFor_newIds uuid graph drawn .node
  have hitem := @idFor_newIds uuid graph drawn .item
  have hnodes : graph.nodes.mapM (cloneNode (withIds uuid drawn (nodeGids graph.nodes))
      (withIds uuid (drawn + graph.nodes.length) graph.itemGids))
        = .ok (graph.nodes.map (BusinessNode.rename (newIds uuid drawn graph))) :=
    mapM_eq_map fun node hin => cloneNode_eq hnode hitem (List.mem_map_of_mem hin) (href.cards node hin)
  have hedges : (withIds uuid (drawn + graph.nodes.length + graph.items.length) graph.edges).mapM
      (cloneEdge (withIds uuid drawn (nodeGids graph.nodes)))
        = .ok (graph.edges.map (FlowEdge.rename (newIds uuid drawn graph))) := by
    refine mapM_withIds fun row hrow => ?_
    rw [Nat.add_assoc] at hrow
    obtain ⟨hin, hnew⟩ := @new_of_mem uuid graph drawn .edge _ _ _ rfl href.edges row hrow
    exact cloneEdge_eq hnode (href.edgeEnds row.1 hin) hnew
  have hitemRows : graph.items.mapM (cloneItem (withIds uuid drawn (nodeGids graph.nodes))
      (withIds uuid (drawn + graph.nodes.length) graph.itemGids))
        = .ok (graph.items.map (DecompositionItem.rename (newIds uuid drawn graph))) := by
    refine mapM_eq_map fun item hin => cloneItem_eq hnode hitem (List.mem_map_of_mem hin) fun gid hgid => ?_
    have howner := href.owners item hin gid hgid
    exact ⟨h.given .node gid howner, howner⟩
  have hlinks : (withIds uuid (drawn + graph.nodes.length + graph.items.length + graph.edges.length)
      graph.itemEdges).mapM (cloneItemEdge (withIds uuid (drawn + graph.nodes.length) graph.itemGids))
        = .ok (graph.itemEdges.map (DecompositionEdge.rename (newIds uuid drawn graph))) := by
    refine mapM_withIds fun row hrow => ?_
    rw [Nat.add_assoc drawn, Nat.add_assoc drawn] at hrow
    obtain ⟨hin, hnew⟩ := @new_of_mem uuid graph drawn .itemEdge _ _ _ rfl href.itemEdges row hrow
    exact cloneItemEdge_eq hitem (href.itemEnds row.1 hin) hnew
  have hcapabilities : (withIds uuid (drawn + graph.nodes.length + graph.items.length + graph.edges.length
      + graph.itemEdges.length) graph.capabilityBindings).mapM
        (cloneCapability (withIds uuid (drawn + graph.nodes.length) graph.itemGids))
          = .ok (graph.capabilityBindings.map (CapabilityBinding.rename (newIds uuid drawn graph))) := by
    refine mapM_withIds fun row hrow => ?_
    rw [Nat.add_assoc drawn, Nat.add_assoc drawn, Nat.add_assoc drawn] at hrow
    obtain ⟨hin, hnew⟩ := @new_of_mem uuid graph drawn .capability _ _ _ rfl href.capabilities row hrow
    obtain ⟨item, hitemIn, hgid, -⟩ := href.capabilitySources row.1 hin
    exact cloneCapability_eq hitem (hgid ▸ List.mem_map_of_mem hitemIn) hnew
  have hcontexts : (withIds uuid (drawn + graph.nodes.length + graph.items.length + graph.edges.length
      + graph.itemEdges.length + graph.capabilityBindings.length) graph.contextBindings).mapM
        (cloneContext (withIds uuid (drawn + graph.nodes.length) graph.itemGids))
          = .ok (graph.contextBindings.map (ContextBinding.rename (newIds uuid drawn graph))) := by
    refine mapM_withIds fun row hrow => ?_
    rw [Nat.add_assoc drawn, Nat.add_assoc drawn, Nat.add_assoc drawn, Nat.add_assoc drawn] at hrow
    obtain ⟨hin, hnew⟩ := @new_of_mem uuid graph drawn .context _ _ _ rfl href.contexts row hrow
    exact cloneContext_eq hitem (href.contextSources row.1 hin) hnew
  have hworkspace : graph.workspace.mapM (cloneWorkspace (withIds uuid drawn (nodeGids graph.nodes))
      (withIds uuid (drawn + graph.nodes.length) graph.itemGids))
        = (.ok (graph.workspace.map (WorkspaceDefinition.rename (newIds uuid drawn graph)))
            : Except GraphError _) := by
    cases hdefinition : graph.workspace with
    | none => rfl
    | some definition =>
      rw [Option.mapM_some, cloneWorkspace_eq h hitems hdefinition]
      rfl
  rw [cloneRevisionGraph]
  simp only [show graph.nodes.map BusinessNode.gid = nodeGids graph.nodes from rfl,
    show graph.items.map DecompositionItem.gid = graph.itemGids from rfl, hnodes, hedges, hitemRows, hlinks,
    hcapabilities, hcontexts, hworkspace]
  rfl

/-- A clone that is made looked up every item that an implementation refers to. -/
theorem overridesReferToItems_of_clone {clone : GraphDraft}
    (h : cloneRevisionGraph repr uuid drawn graph = .ok clone) : OverridesReferToItems graph := by
  simp only [cloneRevisionGraph, bind_eq_ok] at h
  obtain ⟨-, -, -, -, -, -, -, -, -, -, -, -, workspace, hworkspace, -⟩ := h
  intro definition hdefinition variant hvariant entry hentry implementation himplementation option hoption
    gid hgid
  rw [Option.mem_def] at hdefinition himplementation
  rw [hdefinition, Option.mapM_some] at hworkspace
  obtain ⟨cloned, hcloned, -⟩ := bind_eq_ok.mp hworkspace
  simp only [cloneWorkspace, bind_eq_ok] at hcloned
  obtain ⟨-, -, -, -, variants, hvariants, -⟩ := hcloned
  obtain ⟨_, hvariant⟩ := exists_of_mapM hvariants hvariant
  simp only [cloneVariant, bind_eq_ok] at hvariant
  obtain ⟨-, -, entries, hentries, -⟩ := hvariant
  obtain ⟨_, hentry⟩ := exists_of_mapM hentries hentry
  simp only [cloneOverride, bind_eq_ok] at hentry
  obtain ⟨-, -, new, hnew, -⟩ := hentry
  rw [himplementation, Option.mapM_some] at hnew
  obtain ⟨cloned, hcloned, -⟩ := bind_eq_ok.mp hnew
  simp only [cloneImplementation, bind_eq_ok] at hcloned
  obtain ⟨first, hfirst, alternatives, halternatives, -⟩ := hcloned
  have hok : ∃ new, cloneOption (withIds uuid (drawn + graph.nodes.length) graph.itemGids) option = .ok new := by
    rcases List.mem_cons.mp hoption with rfl | hin
    · exact ⟨first, hfirst⟩
    · exact exists_of_mapM halternatives hin
  obtain ⟨new, hnew⟩ := hok
  simp only [cloneOption, bind_eq_ok] at hnew
  obtain ⟨gids, hgids, -⟩ := hnew
  obtain ⟨new, hnew⟩ := exists_of_mapM hgids hgid
  exact mem_of_idFor hnew

/-! ## What a clone names -/

theorem mem_rowGids_of_mem {old : Str} : old ∈ graph.rows.map Prod.snd ↔ ∃ kind, old ∈ graph.rowGids kind := by
  simp only [List.mem_map, Prod.exists, exists_eq_right, mem_rows]

theorem rowGids_rename {ρ : Renaming} (kind : RowKind) :
    (graph.rename ρ).rowGids kind = (graph.rowGids kind).map (ρ kind) := by
  cases kind <;>
    · simp only [GraphDraft.rowGids, GraphDraft.rename, nodeGids, GraphDraft.itemGids, List.map_map]
      rfl

theorem implementationOptions_rename {ρ : Renaming} : (graph.rename ρ).implementationOptions
    = graph.implementationOptions.map (ImplementationOption.rename ρ) := by
  have hflat : ∀ implementations : List Implementation,
      (implementations.map (Implementation.rename ρ)).flatMap Implementation.options
        = (implementations.flatMap Implementation.options).map (ImplementationOption.rename ρ) := by
    intro implementations
    rw [List.flatMap_map, List.map_flatMap]
    rfl
  have hnodes : (graph.rename ρ).nodes.map BusinessNode.implementation
      = (graph.nodes.map BusinessNode.implementation).map (Implementation.rename ρ) := by
    simp only [GraphDraft.rename, List.map_map]
    rfl
  have hentries : ∀ entries : List (Str × NodeOverride),
      (entries.map fun entry => (ρ .node entry.1, entry.2.rename ρ)).filterMap (fun entry => entry.2.implementation)
        = (entries.filterMap fun entry => entry.2.implementation).map (Implementation.rename ρ) := by
    intro entries
    rw [List.filterMap_map, List.map_filterMap]
    rfl
  have hoverrides : ((graph.rename ρ).workspace.toList.flatMap fun definition => definition.variants.flatMap
      fun variant => variant.nodeOverrides.filterMap fun entry => entry.2.implementation)
        = (graph.workspace.toList.flatMap fun definition => definition.variants.flatMap
            fun variant => variant.nodeOverrides.filterMap fun entry => entry.2.implementation).map
              (Implementation.rename ρ) := by
    cases hworkspace : graph.workspace with
    | none => simp [GraphDraft.rename, hworkspace]
    | some definition =>
      simp only [GraphDraft.rename, hworkspace, Option.map_some, Option.toList_some, List.flatMap_singleton,
        WorkspaceDefinition.rename, List.flatMap_map, List.map_flatMap]
      exact List.flatMap_congr fun variant _ => hentries variant.nodeOverrides
  rw [GraphDraft.implementationOptions, GraphDraft.implementationOptions, hnodes, hoverrides, ← List.map_append, hflat]

theorem implementationOptions_items (h : graph.Accepted) (hitems : OverridesReferToItems graph) :
    ∀ option ∈ graph.implementationOptions, ∀ gid ∈ option.sourceItemGids, gid ∈ graph.itemGids := by
  intro option hoption gid hgid
  obtain ⟨implementation, hin, hoption⟩ := List.mem_flatMap.mp hoption
  rcases List.mem_append.mp hin with hin | hin
  · obtain ⟨node, hnode, rfl⟩ := List.mem_map.mp hin
    have hcheck := (checkReferences_eq_ok.mp h.2).cards node hnode
    simp only [checkNode, andThen_eq_ok, require_eq_ok] at hcheck
    exact hcheck.1 option hoption gid hgid
  · obtain ⟨definition, hdefinition, hin⟩ := List.mem_flatMap.mp hin
    obtain ⟨variant, hvariant, hin⟩ := List.mem_flatMap.mp hin
    obtain ⟨entry, hentry, himplementation⟩ := List.mem_filterMap.mp hin
    exact hitems definition (Option.mem_toList.mp hdefinition) variant hvariant entry hentry implementation
      himplementation option hoption gid hgid

/-- **A clone names no row of the graph.** -/
theorem mentions_unused (h : graph.Accepted) (hitems : OverridesReferToItems graph)
    (hfresh : FreshIds uuid graph) :
    ∀ gid ∈ (graph.rename (newIds uuid drawn graph)).mentions, gid ∉ graph.rows.map Prod.snd := by
  have href := checkReferences_eq_ok.mp h.2
  have hnode : ∀ gid ∈ nodeGids graph.nodes,
      newIds uuid drawn graph .node gid ∉ graph.rows.map Prod.snd := fun gid hgid =>
    newIds_unused hfresh hgid
  have hitem : ∀ gid ∈ graph.itemGids, newIds uuid drawn graph .item gid ∉ graph.rows.map Prod.snd :=
    fun gid hgid => newIds_unused hfresh hgid
  intro gid hgid
  simp only [GraphDraft.mentions, List.mem_append] at hgid
  rcases hgid with ((((((hgid | hgid) | hgid) | hgid) | hgid) | hgid) | hgid) | hgid
  · obtain ⟨kind, hin⟩ := mem_rowGids_of_mem.mp hgid
    rw [rowGids_rename] at hin
    obtain ⟨old, hold, rfl⟩ := List.mem_map.mp hin
    exact newIds_unused hfresh hold
  · obtain ⟨edge, hin, hgid⟩ := List.mem_flatMap.mp hgid
    obtain ⟨original, horiginal, rfl⟩ := List.mem_map.mp hin
    obtain ⟨hsource, htarget⟩ := href.edgeEnds original horiginal
    rcases List.mem_pair.mp hgid with rfl | rfl
    · exact hnode _ hsource
    · exact hnode _ htarget
  · obtain ⟨item, hin, hgid⟩ := List.mem_flatMap.mp hgid
    obtain ⟨original, horiginal, rfl⟩ := List.mem_map.mp hin
    obtain ⟨owner, howner, rfl⟩ := Option.mem_map.mp (Option.mem_toList.mp hgid)
    exact hnode _ (href.owners original horiginal owner howner)
  · obtain ⟨edge, hin, hgid⟩ := List.mem_flatMap.mp hgid
    obtain ⟨original, horiginal, rfl⟩ := List.mem_map.mp hin
    obtain ⟨hsource, htarget⟩ := href.itemEnds original horiginal
    rcases List.mem_pair.mp hgid with rfl | rfl
    · exact hitem _ hsource
    · exact hitem _ htarget
  · obtain ⟨binding, hin, rfl⟩ := List.mem_map.mp hgid
    obtain ⟨original, horiginal, rfl⟩ := List.mem_map.mp hin
    obtain ⟨item, hitemIn, heq, -⟩ := href.capabilitySources original horiginal
    exact hitem _ (heq ▸ List.mem_map_of_mem hitemIn)
  · obtain ⟨binding, hin, rfl⟩ := List.mem_map.mp hgid
    obtain ⟨original, horiginal, rfl⟩ := List.mem_map.mp hin
    exact hitem _ (href.contextSources original horiginal)
  · rw [implementationOptions_rename] at hgid
    obtain ⟨option, hin, hgid⟩ := List.mem_flatMap.mp hgid
    obtain ⟨original, horiginal, rfl⟩ := List.mem_map.mp hin
    obtain ⟨old, hold, rfl⟩ := List.mem_map.mp hgid
    exact hitem _ (implementationOptions_items h hitems original horiginal old hold)
  · obtain ⟨definition, hin, hgid⟩ := List.mem_flatMap.mp hgid
    obtain ⟨original, horiginal, rfl⟩ := Option.mem_map.mp (Option.mem_toList.mp hin)
    have hworkspace := href.workspace original horiginal
    obtain ⟨hscopes, -, -, hvariants⟩ := checkWorkspace_eq_ok.mp hworkspace
    rcases List.mem_append.mp hgid with hgid | hgid
    · rcases List.mem_append.mp hgid with hgid | hgid
      · obtain ⟨scope, hin, hgid⟩ := List.mem_flatMap.mp hgid
        obtain ⟨scope, hscope, rfl⟩ := List.mem_map.mp hin
        obtain ⟨old, hold, rfl⟩ := Option.mem_map.mp (Option.mem_toList.mp hgid)
        by_cases hnil : old = []
        · -- an empty reference is no row
          rw [if_pos hnil]
          intro hrow
          obtain ⟨kind, hrow⟩ := mem_rowGids_of_mem.mp hrow
          exact h.given kind [] hrow rfl
        · have hlinked := hscopes scope hscope
          rw [ScopeLinked, hold] at hlinked
          obtain ⟨node, hfound, -⟩ := hlinked hnil
          rw [Option.getD_some, Option.mem_def] at hfound
          rw [if_neg hnil]
          exact hnode _ (key_of_lookup hfound ▸ List.mem_map_of_mem (mem_of_lookup hfound))
      · obtain ⟨view, hin, hgid⟩ := List.mem_flatMap.mp hgid
        obtain ⟨view, hview, rfl⟩ := List.mem_map.mp hin
        rw [View.placed_rename] at hgid
        obtain ⟨old, hold, rfl⟩ := List.mem_map.mp hgid
        exact hnode _ (placed_subset hworkspace hview hold)
    · obtain ⟨variant, hin, hgid⟩ := List.mem_flatMap.mp hgid
      obtain ⟨variant, hvariant, rfl⟩ := List.mem_map.mp hin
      obtain ⟨⟨hoverrides, hactive⟩, -, -⟩ := checkVariant_eq_ok.mp (hvariants variant hvariant)
      have havailable := available_subset hworkspace variant.taskGid
      rcases List.mem_append.mp hgid with hgid | hgid
      · obtain ⟨active, hin, hgid⟩ := List.mem_flatten.mp hgid
        obtain ⟨active, hactiveIn, rfl⟩ := Option.mem_map.mp (Option.mem_toList.mp hin)
        obtain ⟨old, hold, rfl⟩ := List.mem_map.mp hgid
        exact hnode _ (havailable (hactive active hactiveIn old hold))
      · obtain ⟨entry, hin, rfl⟩ := List.mem_map.mp hgid
        obtain ⟨entry, hentry, rfl⟩ := List.mem_map.mp hin
        exact hnode _ (havailable (hoverrides entry hentry))

/-! ## When a clone is right -/

/-- A clone is small enough to be validated. -/
def CloneFits (repr : Binary64 → Str) (uuid : ℕ → Str) (drawn : ℕ) (graph : GraphDraft) : Prop :=
  textSize repr (graph.rename (newIds uuid drawn graph)).dump ≤ maxGraphJsonBytes

instance (repr : Binary64 → Str) (uuid : ℕ → Str) (drawn : ℕ) (graph : GraphDraft) :
    Decidable (CloneFits repr uuid drawn graph) := inferInstanceAs (Decidable (_ ≤ _))

theorem validate_eq_ok : graph.validate repr = .ok ()
    ↔ graph.Accepted ∧ textSize repr graph.dump ≤ maxGraphJsonBytes := by
  simp only [GraphDraft.validate, GraphDraft.Accepted, andThen_eq_ok, require_eq_ok, and_assoc]

/-- **A graph is cloned** exactly where the implementations that its variants have for nodes, those they
do not show too, refer to items of the graph. -/
theorem clonesGraph_iff (hvalid : graph.validate repr = .ok ()) (hfresh : FreshIds uuid graph)
    (hfits : CloneFits repr uuid drawn graph) :
    ClonesGraph repr uuid drawn graph ↔ OverridesReferToItems graph := by
  have haccepted := (validate_eq_ok.mp hvalid).1
  constructor
  · rintro ⟨clone, -, hclone, -⟩
    exact overridesReferToItems_of_clone hclone
  · intro hitems
    have hrenamed : (graph.rename (newIds uuid drawn graph)).validate repr = .ok () :=
      validate_eq_ok.mpr ⟨haccepted.rename (newIds_gives hfresh) (newIds_tellsApart hfresh), hfits⟩
    refine ⟨graph.rename (newIds uuid drawn graph), newIds uuid drawn graph, ?_, hrenamed, rfl,
      newIds_injective hfresh, mentions_unused haccepted hitems hfresh⟩
    rw [cloneRevisionGraph_eq haccepted hitems, hrenamed]
    rfl

def countedIds (n : ℕ) : Str := 'u' :: List.replicate n '0'

/-- How a number is written. -/
def zeroRepr (_ : Binary64) : Str := ['0', '.', '0']

theorem countedIds_fresh (h : ∀ gid ∈ graph.rows.map Prod.snd, gid.head? ≠ some 'u') :
    FreshIds countedIds graph where
  injective m n heq := by
    have hlength := congrArg List.length heq
    simpa [countedIds] using hlength
  given _ := List.cons_ne_nil _ _
  unused n hin := h _ hin rfl

theorem clonesGraph_iff_twoCards : ClonesGraph zeroRepr countedIds 0 .twoCards :=
  (clonesGraph_iff (by decide +kernel) (countedIds_fresh (by decide)) (by decide +kernel)).mpr
    (fun _ h => nomatch h)

/-- A card on a task's view, and a variant that does not show it and has it implemented from an item that
no row is. -/
def GraphDraft.hiddenReference : GraphDraft :=
  { twoCards with nodes := [.card ['a']], edges := [], workspace := some {
      tasks := [{ gid := ['t'], title := ['t'] }]
      views := [{ gid := ['v'], viewType := .task, taskGid := some ['t'], axis := ⟨[['x']], [['y']], 230, 150⟩
                  placements := [{ nodeGid := ['a'], xItemKey := ['x'], yItemKey := ['y'] }] }]
      variants := [{ gid := ['w'], taskGid := ['t'], stageRef := ['s'], activeNodeGids := some []
                     nodeOverrides := [(['a'], { implementation := some { sourceItemGids := [['i']] } })] }] } }

theorem hiddenReference_not_cloned :
    GraphDraft.hiddenReference.validate zeroRepr = .ok () ∧ FreshIds countedIds .hiddenReference
      ∧ ¬ ClonesGraph zeroRepr countedIds 0 .hiddenReference := by
  refine ⟨by decide +kernel, countedIds_fresh (by decide), ?_⟩
  rintro ⟨clone, -, hclone, -⟩
  have hitems := overridesReferToItems_of_clone hclone
  have hin := hitems _ rfl _ List.mem_cons_self _ List.mem_cons_self _ rfl _ List.mem_cons_self _ List.mem_cons_self
  exact absurd hin List.not_mem_nil

end Ai00.Agent
