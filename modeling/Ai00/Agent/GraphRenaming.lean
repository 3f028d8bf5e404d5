import Ai00.Agent.GraphService

/-! # Graphs under new row ids

A renaming gives the rows of each kind new ids. `GraphDraft.rename` puts them wherever a graph refers to
a row. Where the new ids tell the nodes and the items apart, what `GraphDraft` validates does not see the
difference (`Accepted.rename`).
-/

namespace Ai00.Agent

open KeyedRows

/-! ## Renaming -/

inductive RowKind where
  | node | edge | item | itemEdge | capability | context
deriving DecidableEq

/-- New ids for the rows of a graph, by their kinds. -/
abbrev Renaming := RowKind → Str → Str

section

variable (ρ : Renaming)

def ImplementationOption.rename (option : ImplementationOption) : ImplementationOption :=
  { option with sourceItemGids := option.sourceItemGids.map (ρ .item) }

def Implementation.rename (implementation : Implementation) : Implementation :=
  { implementation with
    toImplementationOption := implementation.toImplementationOption.rename ρ
    alternatives := implementation.alternatives.map (ImplementationOption.rename ρ) }

def BusinessNode.rename (node : BusinessNode) : BusinessNode :=
  { node with gid := ρ .node node.gid, implementation := node.implementation.rename ρ }

def FlowEdge.rename (edge : FlowEdge) : FlowEdge :=
  { edge with
    gid := ρ .edge edge.gid
    sourceNodeGid := ρ .node edge.sourceNodeGid
    targetNodeGid := ρ .node edge.targetNodeGid }

def DecompositionItem.rename (item : DecompositionItem) : DecompositionItem :=
  { item with gid := ρ .item item.gid, businessNodeGid := item.businessNodeGid.map (ρ .node) }

def DecompositionEdge.rename (edge : DecompositionEdge) : DecompositionEdge :=
  { edge with
    gid := ρ .itemEdge edge.gid
    sourceItemGid := ρ .item edge.sourceItemGid
    targetItemGid := ρ .item edge.targetItemGid }

def CapabilityBinding.rename (binding : CapabilityBinding) : CapabilityBinding :=
  { binding with gid := ρ .capability binding.gid, sourceItemGid := ρ .item binding.sourceItemGid }

def ContextBinding.rename (binding : ContextBinding) : ContextBinding :=
  { binding with gid := ρ .context binding.gid, sourceItemGid := ρ .item binding.sourceItemGid }

/-- An empty reference to a node is none. -/
def Scope.rename (scope : Scope) : Scope :=
  { scope with businessNodeGid := scope.businessNodeGid.map fun gid => if gid = [] then [] else ρ .node gid }

def Placement.rename (placement : Placement) : Placement :=
  { placement with nodeGid := ρ .node placement.nodeGid }

def View.rename (view : View) : View :=
  { view with placements := view.placements.map (Placement.rename ρ) }

def NodeOverride.rename (override : NodeOverride) : NodeOverride :=
  { override with implementation := override.implementation.map (Implementation.rename ρ) }

def Variant.rename (variant : Variant) : Variant :=
  { variant with
    activeNodeGids := variant.activeNodeGids.map (List.map (ρ .node))
    nodeOverrides := variant.nodeOverrides.map fun entry => (ρ .node entry.1, entry.2.rename ρ) }

def WorkspaceDefinition.rename (definition : WorkspaceDefinition) : WorkspaceDefinition :=
  { definition with
    scopes := definition.scopes.map (Scope.rename ρ)
    views := definition.views.map (View.rename ρ)
    variants := definition.variants.map (Variant.rename ρ) }

def GraphDraft.rename (graph : GraphDraft) : GraphDraft :=
  { graph with
    workspace := graph.workspace.map (WorkspaceDefinition.rename ρ)
    nodes := graph.nodes.map (BusinessNode.rename ρ)
    edges := graph.edges.map (FlowEdge.rename ρ)
    items := graph.items.map (DecompositionItem.rename ρ)
    itemEdges := graph.itemEdges.map (DecompositionEdge.rename ρ)
    capabilityBindings := graph.capabilityBindings.map (CapabilityBinding.rename ρ)
    contextBindings := graph.contextBindings.map (ContextBinding.rename ρ) }

end

/-! ## Ids that are told apart -/

variable {ρ : Renaming}

def TellsApart (ρ : Renaming) (kind : RowKind) (gids : List Str) : Prop :=
  ∀ a ∈ gids, ∀ b ∈ gids, ρ kind a = ρ kind b → a = b

variable {kind : RowKind} {gids : List Str} {gid : Str}

theorem TellsApart.mono (h : TellsApart ρ kind gids) {some : List Str} (hsub : some ⊆ gids) :
    TellsApart ρ kind some := fun a ha b hb => h a (hsub ha) b (hsub hb)

/-- Membership is seen through a renaming. -/
theorem TellsApart.mem_map_iff (h : TellsApart ρ kind gids) {some : List Str} (hsub : some ⊆ gids)
    (hgid : gid ∈ gids) : ρ kind gid ∈ some.map (ρ kind) ↔ gid ∈ some := by
  rw [List.mem_map]
  constructor
  · rintro ⟨other, hother, heq⟩
    rwa [← h other (hsub hother) gid hgid heq]
  · exact fun hin => ⟨gid, hin, rfl⟩

theorem TellsApart.nodup_map (h : TellsApart ρ kind gids) {some : List Str} (hsub : some ⊆ gids) :
    (some.map (ρ kind)).Nodup ↔ some.Nodup := by
  refine ⟨List.Nodup.of_map _, fun hnodup => hnodup.map_on fun a ha b hb heq => ?_⟩
  exact h a (hsub ha) b (hsub hb) heq

/-- Rows whose new ids are the renamed ones keep ids of their own. -/
theorem TellsApart.nodup_rename {α β : Type} {key : α → Str} {key' : β → Str} {f : α → β} {rows : List α}
    (h : TellsApart ρ kind (rows.map key)) (hkey : ∀ a, key' (f a) = ρ kind (key a)) (hnodup : (rows.map key).Nodup) :
    ((rows.map f).map key').Nodup := by
  rw [List.map_map, show key' ∘ f = ρ kind ∘ key from funext hkey, ← List.map_map]
  exact (h.nodup_map fun _ hgid => hgid).mpr hnodup

theorem TellsApart.lookup_map {α β : Type} (h : TellsApart ρ kind gids) {key : α → Str} {key' : β → Str}
    {f : α → β} {rows : List α} (hkey : ∀ a, key' (f a) = ρ kind (key a)) (hrows : rows.map key ⊆ gids)
    (hgid : gid ∈ gids) : lookup key' (ρ kind gid) (rows.map f) = (lookup key gid rows).map f := by
  have hcongr : lookup (fun a => key' (f a)) (ρ kind gid) rows = lookup key gid rows := by
    refine lookup_congr fun a ha => ?_
    rw [hkey]
    exact ⟨fun heq => h _ (hrows (List.mem_map_of_mem ha)) _ hgid heq, fun heq => by rw [heq]⟩
  rw [← hcongr]
  unfold lookup
  rw [List.find?_map]
  rfl

/-! ## Fields -/

theorem ImplementationOption.check_rename (option : ImplementationOption) :
    (option.rename ρ).check = .ok () ↔ option.check = .ok () := by
  simp only [ImplementationOption.check, andThen_eq_ok, require_eq_ok]
  simp only [ImplementationOption.rename, List.length_map]

theorem Implementation.check_rename (implementation : Implementation) :
    (implementation.rename ρ).check = .ok () ↔ implementation.check = .ok () := by
  simp only [Implementation.check, andThen_eq_ok, require_eq_ok, forM_eq_ok]
  simp only [Implementation.rename, List.length_map, List.forall_mem_map, ImplementationOption.check_rename]

theorem NodeOverride.check_rename (override : NodeOverride) :
    (override.rename ρ).check = .ok () ↔ override.check = .ok () := by
  have himplementation : (override.rename ρ).implementation
      = override.implementation.map (Implementation.rename ρ) := rfl
  rw [NodeOverride.check, NodeOverride.check, himplementation, forM_eq_ok, forM_eq_ok]
  cases override.implementation with
  | none => simp
  | some implementation => simp [Implementation.check_rename]

theorem Variant.check_rename (variant : Variant) :
    (variant.rename ρ).check = .ok () ↔ variant.check = .ok () := by
  simp only [Variant.check, andThen_eq_ok, require_eq_ok, forM_eq_ok]
  simp only [Variant.rename, Option.mem_map, forall_exists_index, and_imp, forall_apply_eq_imp_iff₂,
    List.length_map, List.forall_mem_map, NodeOverride.check_rename]

/-- A renaming that gives no row an empty id. -/
def Gives (ρ : Renaming) : Prop := ∀ kind gid, gid ≠ [] → ρ kind gid ≠ []

variable {node : BusinessNode}

theorem BusinessNode.check_rename (hρ : Gives ρ) (h : node.check = .ok ()) :
    (node.rename ρ).check = .ok () := by
  simp only [BusinessNode.check, andThen_eq_ok, require_eq_ok] at h ⊢
  obtain ⟨hgid, hkey, htitle, hlevel, himplementation⟩ := h
  exact ⟨hρ _ _ hgid, hkey, htitle, hlevel, node.implementation.check_rename.mpr himplementation⟩

theorem FlowEdge.check_rename (hρ : Gives ρ) {edge : FlowEdge} (h : edge.check = .ok ()) :
    (edge.rename ρ).check = .ok () := by
  simp only [FlowEdge.check, andThen_eq_ok, require_eq_ok] at h ⊢
  obtain ⟨hgid, hsource, htarget, hroute⟩ := h
  exact ⟨hρ _ _ hgid, hρ _ _ hsource, hρ _ _ htarget, hroute⟩

theorem DecompositionItem.check_rename (hρ : Gives ρ) {item : DecompositionItem}
    (h : item.check = .ok ()) : (item.rename ρ).check = .ok () := by
  simp only [DecompositionItem.check, andThen_eq_ok, require_eq_ok] at h ⊢
  exact ⟨hρ _ _ h.1, h.2⟩

theorem DecompositionEdge.check_rename (hρ : Gives ρ) {edge : DecompositionEdge}
    (hapart : TellsApart ρ .item [edge.sourceItemGid, edge.targetItemGid]) (h : edge.check = .ok ()) :
    (edge.rename ρ).check = .ok () := by
  simp only [DecompositionEdge.check, andThen_eq_ok, require_eq_ok] at h ⊢
  obtain ⟨hgid, hsource, htarget, hsequence, hself⟩ := h
  exact ⟨hρ _ _ hgid, hρ _ _ hsource, hρ _ _ htarget, hsequence,
    fun heq => hself (hapart _ (by simp) _ (by simp) heq)⟩

theorem CapabilityBinding.check_rename (hρ : Gives ρ) {binding : CapabilityBinding}
    (h : binding.check = .ok ()) : (binding.rename ρ).check = .ok () := by
  simp only [CapabilityBinding.check, andThen_eq_ok, require_eq_ok] at h ⊢
  exact ⟨hρ _ _ h.1, hρ _ _ h.2.1, h.2.2⟩

theorem ContextBinding.check_rename (hρ : Gives ρ) {binding : ContextBinding}
    (h : binding.check = .ok ()) : (binding.rename ρ).check = .ok () := by
  simp only [ContextBinding.check, andThen_eq_ok, require_eq_ok] at h ⊢
  exact ⟨hρ _ _ h.1, hρ _ _ h.2.1, h.2.2⟩

/-! ## Workspaces -/

variable {scopes : List Scope} {definition : WorkspaceDefinition} {gids : List Str}

def Scope.parent (scopes : List Scope) (scope : Scope) : Option Scope :=
  scope.parentGid.bind fun gid => lookup Scope.gid gid scopes

theorem Scope.parent_rename (scope : Scope) :
    (scope.rename ρ).parent (scopes.map (Scope.rename ρ)) = (scope.parent scopes).map (Scope.rename ρ) := by
  show (scope.parentGid.bind fun gid => _) = _
  rw [Scope.parent]
  cases scope.parentGid with
  | none => rfl
  | some gid => exact (map_lookup fun _ => rfl).symm

theorem walkHierarchy_eq_ok {steps : ℕ} {seen : List Str} {current : Scope} :
    walkHierarchy scopes (steps + 1) seen (some current) = .ok () ↔ current.gid ∉ seen
      ∧ (current.parentGid.getD [] = [] ∨ current.parent scopes ≠ none)
      ∧ walkHierarchy scopes steps (current.gid :: seen) (current.parent scopes) = .ok () := by
  simp only [walkHierarchy, andThen_eq_ok, require_eq_ok]
  rfl

theorem walkHierarchy_rename {steps : ℕ} {seen : List Str} {current : Option Scope} :
    walkHierarchy (scopes.map (Scope.rename ρ)) steps seen (current.map (Scope.rename ρ)) = .ok ()
      ↔ walkHierarchy scopes steps seen current = .ok () := by
  induction steps generalizing seen current with
  | zero => cases current <;> rfl
  | succ steps ih =>
    cases current with
    | none => rfl
    | some current =>
      rw [Option.map_some, walkHierarchy_eq_ok, walkHierarchy_eq_ok, Scope.parent_rename, ih]
      simp [Scope.rename]

theorem checkHierarchy_rename :
    checkHierarchy (scopes.map (Scope.rename ρ)) = .ok () ↔ checkHierarchy scopes = .ok () := by
  have hgids : (scopes.map (Scope.rename ρ)).map Scope.gid = scopes.map Scope.gid := by
    rw [List.map_map]
    rfl
  simp only [checkHierarchy, andThen_eq_ok, require_eq_ok, forM_eq_ok, hgids, List.forall_mem_map]
  refine and_congr_right fun _ => forall₂_congr fun scope _ => ?_
  exact @walkHierarchy_rename ρ scopes 32 [] (some scope)

theorem View.checkPlacements_rename (view : View) :
    (view.rename ρ).checkPlacements = .ok () ↔ view.checkPlacements = .ok () := by
  simp only [View.checkPlacements, andThen_eq_ok, require_eq_ok, forM_eq_ok]
  simp only [View.rename, List.length_map, List.forall_mem_map]
  rfl

def View.placed (view : View) : List Str := view.placements.map Placement.nodeGid

theorem View.placed_rename (view : View) : (view.rename ρ).placed = view.placed.map (ρ .node) := by
  simp only [View.placed, View.rename, List.map_map]
  rfl

variable {identities next : List (ViewType × Option Str × Option Str)}

theorem checkIdentity_rename {view : View} (hview : TellsApart ρ .node view.placed)
    (h : checkIdentity definition identities view = .ok next) :
    checkIdentity (definition.rename ρ) identities (view.rename ρ) = .ok next := by
  have hscopes : (definition.rename ρ).scopes.map (fun scope => some scope.gid)
      = definition.scopes.map fun scope => some scope.gid := by
    simp only [WorkspaceDefinition.rename, List.map_map]
    rfl
  have hslots : (((view.rename ρ).placements.filter fun p => p.slotX ≠ none).map fun p =>
      (p.xItemKey, p.yItemKey, p.slotX, p.slotY)) = (view.placements.filter fun p => p.slotX ≠ none).map fun p =>
          (p.xItemKey, p.yItemKey, p.slotX, p.slotY) := by
    simp only [View.rename, List.filter_map, List.map_map]
    rfl
  have hplaced : ((view.rename ρ).placements.map Placement.nodeGid).Nodup
      ↔ (view.placements.map Placement.nodeGid).Nodup := by
    show (view.rename ρ).placed.Nodup ↔ view.placed.Nodup
    rw [View.placed_rename]
    exact hview.nodup_map fun a ha => ha
  simp only [checkIdentity, andThen_eq_ok, require_eq_ok] at h ⊢
  rw [hscopes, hslots, hplaced]
  exact h

theorem checkViewAxis_rename (view : View) :
    checkViewAxis (view.rename ρ) = .ok () ↔ checkViewAxis view = .ok () := by
  have hplacements : ∀ xs ys : List Str,
      (∀ p ∈ (view.rename ρ).placements, p.xItemKey ∈ xs ∧ p.yItemKey ∈ ys)
        ↔ ∀ p ∈ view.placements, p.xItemKey ∈ xs ∧ p.yItemKey ∈ ys := by
    intro xs ys
    simp only [View.rename, List.forall_mem_map]
    rfl
  by_cases hoverview : view.axisMode = .overview
  · have hoverview' : (view.rename ρ).axisMode = .overview := hoverview
    simp only [checkViewAxis, if_pos hoverview, if_pos hoverview', andThen_eq_ok, require_eq_ok]
    rw [hplacements]
    rfl
  · have hoverview' : ¬ (view.rename ρ).axisMode = .overview := hoverview
    simp only [checkViewAxis, if_neg hoverview, if_neg hoverview', andThen_eq_ok, require_eq_ok]
    rw [hplacements]
    rfl

theorem checkViews_rename {views : List View} (hviews : ∀ view ∈ views, TellsApart ρ .node view.placed)
    (h : views.foldlM (checkView definition) identities = .ok next) :
    (views.map (View.rename ρ)).foldlM (checkView (definition.rename ρ)) identities = .ok next := by
  induction views generalizing identities with
  | nil => exact h
  | cons view views ih =>
    rw [List.foldlM_cons] at h
    obtain ⟨identities', hview, hrest⟩ := bind_eq_ok.mp h
    obtain ⟨identities'', hidentity, haxis⟩ := bind_eq_ok.mp hview
    rw [List.map_cons, List.foldlM_cons]
    refine bind_eq_ok.mpr ⟨identities', ?_, ih (fun v hv => hviews v (.tail _ hv)) hrest⟩
    rw [andThen_eq_ok] at haxis
    refine bind_eq_ok.mpr ⟨identities'', checkIdentity_rename (hviews view List.mem_cons_self) hidentity, ?_⟩
    rw [andThen_eq_ok]
    exact ⟨(checkViewAxis_rename view).mpr haxis.1, haxis.2⟩

theorem WorkspaceDefinition.check_rename (hviews : ∀ view ∈ definition.views, TellsApart ρ .node view.placed)
    (h : definition.check = .ok ()) : (definition.rename ρ).check = .ok () := by
  simp only [WorkspaceDefinition.check, andThen_eq_ok, require_eq_ok, forM_eq_ok] at h ⊢
  obtain ⟨hscopes, htasks, hcount, hvariants, hstages, hfields, hplacements, haxes, hvariant, hscopeTree,
    htaskTree, hviewGids, hrest⟩ := h
  obtain ⟨identities, hidentities, hvariantGids⟩ := bind_eq_ok.mp hrest
  simp only [WorkspaceDefinition.rename, List.length_map, List.mem_append, List.forall_mem_map, List.map_map]
  refine ⟨hscopes, htasks, hcount, hvariants, hstages, ?_, ?_, haxes, ?_, checkHierarchy_rename.mpr hscopeTree,
    htaskTree, hviewGids, bind_eq_ok.mpr ⟨identities, checkViews_rename hviews hidentities, ?_⟩⟩
  · rintro scope (hscope | hscope)
    · obtain ⟨original, horiginal, rfl⟩ := List.mem_map.mp hscope
      exact hfields original (List.mem_append_left _ horiginal)
    · exact hfields scope (List.mem_append_right _ hscope)
  · exact fun view hview => view.checkPlacements_rename.mpr (hplacements view hview)
  · exact fun variant hvariant' => variant.check_rename.mpr (hvariant variant hvariant')
  · simp only [andThen_eq_ok, require_eq_ok] at hvariantGids ⊢
    exact hvariantGids

/-! ## What a graph shows -/

variable {items : List Str} {nodes : List BusinessNode} {graph : GraphDraft}

theorem Implementation.options_rename (implementation : Implementation) :
    (implementation.rename ρ).options = implementation.options.map (ImplementationOption.rename ρ) := rfl

theorem checkNode_rename (h : checkNode items node = .ok ()) :
    checkNode (items.map (ρ .item)) (node.rename ρ) = .ok () := by
  simp only [checkNode, andThen_eq_ok, require_eq_ok] at h ⊢
  refine ⟨fun option hoption gid hgid => ?_, h.2⟩
  rw [show (node.rename ρ).implementation = node.implementation.rename ρ from rfl,
    Implementation.options_rename] at hoption
  obtain ⟨original, horiginal, rfl⟩ := List.mem_map.mp hoption
  obtain ⟨item, hitem, rfl⟩ := List.mem_map.mp hgid
  exact List.mem_map_of_mem (h.1 original horiginal item hitem)

def nodeGids (nodes : List BusinessNode) : List Str := nodes.map BusinessNode.gid

theorem nodeGids_rename : nodeGids (nodes.map (BusinessNode.rename ρ)) = (nodeGids nodes).map (ρ .node) := by
  simp only [nodeGids, List.map_map]
  rfl

theorem checkEdgePorts_rename (hapart : TellsApart ρ .node gids) (hnodes : nodeGids nodes ⊆ gids)
    {edge : FlowEdge} (hsource : edge.sourceNodeGid ∈ gids) (htarget : edge.targetNodeGid ∈ gids) :
    checkEdgePorts (nodes.map (BusinessNode.rename ρ)) (edge.rename ρ) = checkEdgePorts nodes edge := by
  have hlookup : ∀ gid ∈ gids, lookup BusinessNode.gid (ρ .node gid) (nodes.map (BusinessNode.rename ρ))
      = (lookup BusinessNode.gid gid nodes).map (BusinessNode.rename ρ) := fun gid hgid =>
    hapart.lookup_map (fun _ => rfl) hnodes hgid
  have hsource' := hlookup _ hsource
  have htarget' := hlookup _ htarget
  by_cases hnone : edge.sourcePortKey.getD [] = []
  · have hnone' : (edge.rename ρ).sourcePortKey.getD [] = [] := hnone
    simp only [checkEdgePorts, if_pos hnone, if_pos hnone']
    rfl
  · have hnone' : ¬ (edge.rename ρ).sourcePortKey.getD [] = [] := hnone
    simp only [checkEdgePorts, if_neg hnone, if_neg hnone']
    rw [show (edge.rename ρ).sourceNodeGid = ρ .node edge.sourceNodeGid from rfl,
      show (edge.rename ρ).targetNodeGid = ρ .node edge.targetNodeGid from rfl, hsource', htarget']
    cases lookup BusinessNode.gid edge.sourceNodeGid nodes with
    | none => rfl
    | some source =>
      cases lookup BusinessNode.gid edge.targetNodeGid nodes with
      | none => rfl
      | some target => rfl

theorem checkPlain_rename (hapart : TellsApart ρ .node gids) (hnodes : nodeGids nodes ⊆ gids)
    {edges : List FlowEdge} (hedges : ∀ edge ∈ edges, edge.sourceNodeGid ∈ gids ∧ edge.targetNodeGid ∈ gids)
    (h : checkPlain items nodes edges = .ok ()) :
    checkPlain (items.map (ρ .item)) (nodes.map (BusinessNode.rename ρ)) (edges.map (FlowEdge.rename ρ))
      = .ok () := by
  simp only [checkPlain, andThen_eq_ok, forM_eq_ok] at h ⊢
  refine ⟨?_, ?_⟩
  · intro node hnode
    obtain ⟨original, horiginal, rfl⟩ := List.mem_map.mp hnode
    exact checkNode_rename (h.1 original horiginal)
  · intro edge hedge
    obtain ⟨original, horiginal, rfl⟩ := List.mem_map.mp hedge
    rw [checkEdgePorts_rename hapart hnodes (hedges original horiginal).1 (hedges original horiginal).2]
    exact h.2 original horiginal

/-! ## Variants -/

theorem BusinessNode.overridden_rename (override : NodeOverride) :
    (node.rename ρ).overridden (override.rename ρ) = (node.overridden override).rename ρ := by
  have himplementation : (override.rename ρ).implementation.getD (node.implementation.rename ρ)
      = (override.implementation.getD node.implementation).rename ρ := by
    show (override.implementation.map (Implementation.rename ρ)).getD _ = _
    cases override.implementation <;> rfl
  simp only [BusinessNode.overridden, BusinessNode.rename, himplementation]
  rfl

def available (views : List View) (taskGid : Str) : List Str :=
  (views.filter fun view => view.taskGid = some taskGid).flatMap View.placed

/-- A node is shown in a variant. -/
def Variant.shows (variant : Variant) (available : List Str) (gid : Str) : Prop :=
  ¬ (gid ∈ available ∧ ∃ gids ∈ variant.activeNodeGids, gid ∉ gids)

instance (variant : Variant) (available : List Str) (gid : Str) :
    Decidable (variant.shows available gid) := inferInstanceAs (Decidable (¬ _))

def Variant.apply (variant : Variant) (node : BusinessNode) : BusinessNode :=
  match lookup Prod.fst node.gid variant.nodeOverrides with
  | some entry => node.overridden entry.2
  | none => node

/-- The nodes of a graph as a variant shows them. -/
def Variant.effective (variant : Variant) (views : List View) (nodes : List BusinessNode) : List BusinessNode :=
  (nodes.filter fun node => variant.shows (available views variant.taskGid) node.gid).map variant.apply

theorem checkVariant_eq_ok {views : List View} {variant : Variant} : checkVariant graph views variant = .ok ()
      ↔ ((∀ entry ∈ variant.nodeOverrides, entry.1 ∈ available views variant.taskGid)
          ∧ ∀ gids ∈ variant.activeNodeGids, ∀ gid ∈ gids, gid ∈ available views variant.taskGid)
        ∧ (∀ node ∈ variant.effective views graph.nodes, node.check = .ok ())
        ∧ checkPlain (graph.items.map DecompositionItem.gid) (variant.effective views graph.nodes)
            (graph.edges.filter fun edge =>
              edge.sourceNodeGid ∈ nodeGids (variant.effective views graph.nodes)
                ∧ edge.targetNodeGid ∈ nodeGids (variant.effective views graph.nodes)) = .ok () := by
  simp only [checkVariant, andThen_eq_ok, require_eq_ok, forM_eq_ok]
  rfl

theorem available_rename (views : List View) (taskGid : Str) :
    available (views.map (View.rename ρ)) taskGid = (available views taskGid).map (ρ .node) := by
  have hfilter : (views.map (View.rename ρ)).filter (fun view => view.taskGid = some taskGid)
      = (views.filter fun view => view.taskGid = some taskGid).map (View.rename ρ) := by
    rw [List.filter_map]
    rfl
  rw [available, available, hfilter, List.flatMap_map, List.map_flatMap]
  exact List.flatMap_congr fun view _ => view.placed_rename

variable {views : List View} {variant : Variant}

theorem Variant.apply_gid (variant : Variant) (node : BusinessNode) : (variant.apply node).gid = node.gid := by
  rw [Variant.apply]
  split <;> rfl

theorem Variant.apply_rename (hapart : TellsApart ρ .node gids)
    (hoverrides : ∀ entry ∈ variant.nodeOverrides, entry.1 ∈ gids) (hnode : node.gid ∈ gids) :
    (variant.rename ρ).apply (node.rename ρ) = (variant.apply node).rename ρ := by
  have hlookup := @TellsApart.lookup_map ρ .node gids node.gid _ _ hapart Prod.fst Prod.fst
    (fun entry : Str × NodeOverride => (ρ .node entry.1, entry.2.rename ρ)) variant.nodeOverrides
    (fun _ => rfl) (by
      intro gid hgid
      obtain ⟨entry, hentry, rfl⟩ := List.mem_map.mp hgid
      exact hoverrides entry hentry) hnode
  rw [Variant.apply, Variant.apply]
  rw [show (variant.rename ρ).nodeOverrides = variant.nodeOverrides.map fun entry =>
    (ρ .node entry.1, entry.2.rename ρ) from rfl, show (node.rename ρ).gid = ρ .node node.gid from rfl, hlookup]
  cases lookup Prod.fst node.gid variant.nodeOverrides with
  | none => rfl
  | some entry => exact BusinessNode.overridden_rename entry.2

theorem Variant.shows_rename (hapart : TellsApart ρ .node gids) {placed : List Str} (hplaced : placed ⊆ gids)
    (hactive : ∀ active ∈ variant.activeNodeGids, active ⊆ gids) {gid : Str} (hgid : gid ∈ gids) :
    (variant.rename ρ).shows (placed.map (ρ .node)) (ρ .node gid) ↔ variant.shows placed gid := by
  rw [Variant.shows, Variant.shows, hapart.mem_map_iff hplaced hgid]
  have hactive' : (∃ active ∈ (variant.rename ρ).activeNodeGids, ρ .node gid ∉ active)
      ↔ ∃ active ∈ variant.activeNodeGids, gid ∉ active := by
    show (∃ active ∈ variant.activeNodeGids.map (List.map (ρ .node)), _) ↔ _
    cases hgids : variant.activeNodeGids with
    | none => simp
    | some active =>
      have hmem := hapart.mem_map_iff (hactive active hgids) hgid
      simp [hmem]
  rw [hactive']

theorem Variant.effective_rename (hapart : TellsApart ρ .node gids) (hnodes : nodeGids nodes ⊆ gids)
    (hplaced : available views variant.taskGid ⊆ gids)
    (hactive : ∀ active ∈ variant.activeNodeGids, active ⊆ gids)
    (hoverrides : ∀ entry ∈ variant.nodeOverrides, entry.1 ∈ gids) :
    (variant.rename ρ).effective (views.map (View.rename ρ)) (nodes.map (BusinessNode.rename ρ))
      = (variant.effective views nodes).map (BusinessNode.rename ρ) := by
  have hgids : ∀ node ∈ nodes, node.gid ∈ gids := fun node hnode => hnodes (List.mem_map_of_mem hnode)
  rw [Variant.effective, Variant.effective, available_rename, List.filter_map, List.map_map, List.map_map]
  have hfilter : nodes.filter ((fun node => decide ((variant.rename ρ).shows
      ((available views variant.taskGid).map (ρ .node)) node.gid)) ∘ BusinessNode.rename ρ)
        = nodes.filter fun node => variant.shows (available views variant.taskGid) node.gid := by
    refine List.filter_congr fun node hnode => decide_eq_decide.mpr ?_
    exact Variant.shows_rename hapart hplaced hactive (hgids node hnode)
  rw [show (variant.rename ρ).taskGid = variant.taskGid from rfl, hfilter]
  refine List.map_congr_left fun node hnode => ?_
  exact Variant.apply_rename hapart hoverrides (hgids node (List.mem_filter.mp hnode).1)

theorem Variant.nodeGids_effective (variant : Variant) (views : List View) (nodes : List BusinessNode) :
    nodeGids (variant.effective views nodes) ⊆ nodeGids nodes := by
  intro gid hgid
  obtain ⟨shown, hshown, rfl⟩ := List.mem_map.mp hgid
  obtain ⟨node, hnode, rfl⟩ := List.mem_map.mp hshown
  rw [Variant.apply_gid]
  exact List.mem_map_of_mem (List.mem_filter.mp hnode).1

theorem checkVariant_rename (hρ : Gives ρ) (hapart : TellsApart ρ .node (nodeGids graph.nodes))
    (hedges : ∀ edge ∈ graph.edges, edge.sourceNodeGid ∈ nodeGids graph.nodes
      ∧ edge.targetNodeGid ∈ nodeGids graph.nodes)
    (hplaced : available views variant.taskGid ⊆ nodeGids graph.nodes)
    (h : checkVariant graph views variant = .ok ()) :
    checkVariant (graph.rename ρ) (views.map (View.rename ρ)) (variant.rename ρ) = .ok () := by
  obtain ⟨⟨hoverrides, hactive⟩, hnodes, hplain⟩ := checkVariant_eq_ok.mp h
  have hrenamed : (variant.rename ρ).effective (views.map (View.rename ρ)) (graph.rename ρ).nodes
      = (variant.effective views graph.nodes).map (BusinessNode.rename ρ) :=
    Variant.effective_rename hapart (fun gid hgid => hgid) hplaced
      (fun active hin gid hgid => hplaced (hactive active hin gid hgid))
      (fun entry hentry => hplaced (hoverrides entry hentry))
  have hsub := variant.nodeGids_effective views graph.nodes
  rw [checkVariant_eq_ok, hrenamed, nodeGids_rename, available_rename]
  refine ⟨⟨?_, ?_⟩, ?_, ?_⟩
  · intro entry hentry
    obtain ⟨original, horiginal, rfl⟩ := List.mem_map.mp hentry
    exact List.mem_map_of_mem (hoverrides original horiginal)
  · intro active hin gid hgid
    obtain ⟨original, horiginal, rfl⟩ := Option.mem_map.mp hin
    obtain ⟨node, hnode, rfl⟩ := List.mem_map.mp hgid
    exact List.mem_map_of_mem (hactive original horiginal node hnode)
  · intro node hnode
    obtain ⟨original, horiginal, rfl⟩ := List.mem_map.mp hnode
    exact BusinessNode.check_rename hρ (hnodes original horiginal)
  · have hitems : (graph.rename ρ).items.map DecompositionItem.gid
        = (graph.items.map DecompositionItem.gid).map (ρ .item) := by
      simp only [GraphDraft.rename, List.map_map]
      rfl
    have hfilter : (graph.rename ρ).edges.filter (fun edge =>
        edge.sourceNodeGid ∈ (nodeGids (variant.effective views graph.nodes)).map (ρ .node)
          ∧ edge.targetNodeGid ∈ (nodeGids (variant.effective views graph.nodes)).map (ρ .node))
        = (graph.edges.filter fun edge =>
            edge.sourceNodeGid ∈ nodeGids (variant.effective views graph.nodes)
              ∧ edge.targetNodeGid ∈ nodeGids (variant.effective views graph.nodes)).map (FlowEdge.rename ρ) := by
      rw [show (graph.rename ρ).edges = graph.edges.map (FlowEdge.rename ρ) from rfl, List.filter_map]
      refine congrArg _ (List.filter_congr fun edge hedge => decide_eq_decide.mpr ?_)
      obtain ⟨hsource, htarget⟩ := hedges edge hedge
      exact and_congr (hapart.mem_map_iff hsub hsource) (hapart.mem_map_iff hsub htarget)
    rw [hitems, hfilter]
    exact checkPlain_rename hapart hsub (fun edge hedge => hedges edge (List.mem_filter.mp hedge).1) hplain

/-! ## The whole graph -/

theorem checkPlacement_eq_ok {view : View} {placement : Placement} : checkPlacement graph view placement = .ok ()
      ↔ ∃ node, lookup BusinessNode.gid placement.nodeGid graph.nodes = some node
        ∧ (view.viewType = .org → node.homeScopeGid = view.scopeGid) := by
  have hfind : (graph.nodes.find? fun node => node.gid = placement.nodeGid)
      = lookup BusinessNode.gid placement.nodeGid graph.nodes := by
    unfold lookup
    congr 1
  simp only [checkPlacement, bind_eq_ok, found_eq_ok, require_eq_ok, hfind]

/-- What `validate_workspace` checks of the node that a scope stands for. -/
def ScopeLinked (graph : GraphDraft) (scope : Scope) : Prop :=
  scope.businessNodeGid.getD [] ≠ [] →
    ∃ node ∈ lookup BusinessNode.gid (scope.businessNodeGid.getD []) graph.nodes, node.level = 1

theorem checkWorkspace_eq_ok : checkWorkspace graph definition = .ok ()
    ↔ (∀ scope ∈ definition.scopes, ScopeLinked graph scope)
      ∧ (∀ node ∈ graph.nodes, ∀ gid ∈ node.homeScopeGid, gid ∈ definition.scopes.map Scope.gid)
      ∧ (∀ view ∈ definition.views, ∀ placement ∈ view.placements, checkPlacement graph view placement = .ok ())
      ∧ ∀ variant ∈ definition.variants, checkVariant graph definition.views variant = .ok () := by
  simp only [checkWorkspace, andThen_eq_ok, require_eq_ok, forM_eq_ok]
  refine and_congr_left fun _ => forall₂_congr fun scope _ => ?_
  cases hlinked : scope.businessNodeGid.getD [] with
  | nil => simp [ScopeLinked, hlinked]
  | cons c gid => simp [ScopeLinked, hlinked]

theorem placed_subset (h : checkWorkspace graph definition = .ok ()) {view : View}
    (hview : view ∈ definition.views) : view.placed ⊆ nodeGids graph.nodes := by
  intro gid hgid
  obtain ⟨placement, hplacement, rfl⟩ := List.mem_map.mp hgid
  obtain ⟨node, hnode, -⟩ := checkPlacement_eq_ok.mp
    ((checkWorkspace_eq_ok.mp h).2.2.1 view hview placement hplacement)
  exact key_of_lookup hnode ▸ List.mem_map_of_mem (mem_of_lookup hnode)

theorem available_subset (h : checkWorkspace graph definition = .ok ()) (taskGid : Str) :
    available definition.views taskGid ⊆ nodeGids graph.nodes := by
  intro gid hgid
  obtain ⟨view, hview, hin⟩ := List.mem_flatMap.mp hgid
  exact placed_subset h (List.mem_filter.mp hview).1 hin

theorem checkWorkspace_rename (hρ : Gives ρ) (hapart : TellsApart ρ .node (nodeGids graph.nodes))
    (hedges : ∀ edge ∈ graph.edges, edge.sourceNodeGid ∈ nodeGids graph.nodes
      ∧ edge.targetNodeGid ∈ nodeGids graph.nodes)
    (h : checkWorkspace graph definition = .ok ()) :
    checkWorkspace (graph.rename ρ) (definition.rename ρ) = .ok () := by
  obtain ⟨hscopes, hhomes, hplacements, hvariants⟩ := checkWorkspace_eq_ok.mp h
  have hlookup : ∀ gid ∈ nodeGids graph.nodes, lookup BusinessNode.gid (ρ .node gid) (graph.rename ρ).nodes
      = (lookup BusinessNode.gid gid graph.nodes).map (BusinessNode.rename ρ) := fun gid hgid =>
    hapart.lookup_map (fun _ => rfl) (fun gid hgid => hgid) hgid
  refine checkWorkspace_eq_ok.mpr ⟨?_, ?_, ?_, ?_⟩
  · intro scope hscope
    obtain ⟨original, horiginal, rfl⟩ := List.mem_map.mp hscope
    have hlinked := hscopes original horiginal
    rw [ScopeLinked] at hlinked ⊢
    rw [show (original.rename ρ).businessNodeGid = original.businessNodeGid.map fun gid =>
      if gid = [] then [] else ρ .node gid from rfl]
    cases hgid : original.businessNodeGid with
    | none => exact fun hne => absurd rfl hne
    | some gid =>
      by_cases hnil : gid = []
      · subst hnil
        exact fun hne => absurd rfl hne
      · rw [hgid] at hlinked
        obtain ⟨node, hnode, hlevel⟩ := hlinked hnil
        intro _
        rw [Option.getD_some, Option.mem_def] at hnode
        have hin : gid ∈ nodeGids graph.nodes :=
          key_of_lookup hnode ▸ List.mem_map_of_mem (mem_of_lookup hnode)
        have hfound := hlookup gid hin
        rw [hnode] at hfound
        refine ⟨node.rename ρ, ?_, hlevel⟩
        rw [Option.map_some, Option.getD_some, if_neg hnil]
        exact hfound
  · intro node hnode gid hgid
    obtain ⟨original, horiginal, rfl⟩ := List.mem_map.mp hnode
    have hhome := hhomes original horiginal gid hgid
    rw [show (definition.rename ρ).scopes = definition.scopes.map (Scope.rename ρ) from rfl, List.map_map]
    exact hhome
  · intro view hview placement hplacement
    obtain ⟨view, horiginal, rfl⟩ := List.mem_map.mp hview
    obtain ⟨placement, hplaced, rfl⟩ := List.mem_map.mp hplacement
    obtain ⟨node, hnode, hhome⟩ := checkPlacement_eq_ok.mp (hplacements view horiginal placement hplaced)
    have hin : placement.nodeGid ∈ nodeGids graph.nodes :=
      key_of_lookup hnode ▸ List.mem_map_of_mem (mem_of_lookup hnode)
    have hfound := hlookup _ hin
    rw [hnode] at hfound
    exact checkPlacement_eq_ok.mpr ⟨node.rename ρ, hfound, hhome⟩
  · intro variant hvariant
    obtain ⟨variant, horiginal, rfl⟩ := List.mem_map.mp hvariant
    exact checkVariant_rename hρ hapart hedges (available_subset h _) (hvariants variant horiginal)

/-- What `GraphDraft` validates, the size apart. -/
def GraphDraft.Accepted (graph : GraphDraft) : Prop :=
  graph.checkFields = .ok () ∧ graph.checkReferences = .ok ()

def GraphDraft.itemGids (graph : GraphDraft) : List Str := graph.items.map DecompositionItem.gid

/-- What an accepted graph refers to is there. -/
structure Referenced (graph : GraphDraft) : Prop where
  nodes : (nodeGids graph.nodes).Nodup
  nodeKeys : (graph.nodes.map BusinessNode.nodeKey).Nodup
  axis : ∀ node ∈ graph.nodes, node.xItemKey ∈ graph.axis.xItems ∧ node.yItemKey ∈ graph.axis.yItems
  edgeEnds : ∀ edge ∈ graph.edges, edge.sourceNodeGid ∈ nodeGids graph.nodes
    ∧ edge.targetNodeGid ∈ nodeGids graph.nodes
  cards : ∀ node ∈ graph.nodes, checkNode graph.itemGids node = .ok ()
  workspace : ∀ definition ∈ graph.workspace, checkWorkspace graph definition = .ok ()
  ports : ∀ edge ∈ graph.edges, checkEdgePorts graph.nodes edge = .ok ()
  noSelf : ∀ edge ∈ graph.edges, edge.sourceNodeGid ≠ edge.targetNodeGid
  flow : BoundedDag graph.dependencies
  items : graph.itemGids.Nodup
  owners : ∀ item ∈ graph.items, ∀ gid ∈ item.businessNodeGid, gid ∈ nodeGids graph.nodes
  itemEnds : ∀ edge ∈ graph.itemEdges, edge.sourceItemGid ∈ graph.itemGids
    ∧ edge.targetItemGid ∈ graph.itemGids
  decomposition : BoundedDag graph.itemLinks
  capabilitySources : ∀ binding ∈ graph.capabilityBindings, ∃ item ∈ graph.items,
    item.gid = binding.sourceItemGid ∧ item.itemType = .taskTool
  contextSources : ∀ binding ∈ graph.contextBindings, binding.sourceItemGid ∈ graph.itemGids
  edges : (graph.edges.map FlowEdge.gid).Nodup
  itemEdges : (graph.itemEdges.map DecompositionEdge.gid).Nodup
  capabilities : (graph.capabilityBindings.map CapabilityBinding.gid).Nodup
  contexts : (graph.contextBindings.map ContextBinding.gid).Nodup

theorem checkReferences_eq_ok : graph.checkReferences = .ok () ↔ Referenced graph := by
  simp only [GraphDraft.checkReferences, GraphDraft.validateWorkspace, andThen_eq_ok, require_eq_ok,
    forM_eq_ok, Option.mem_toList, bind_assoc]
  constructor
  · rintro ⟨h1, h2, h3, h4, h5, h6, h7, h8, h9, h10, h11, h12, h13, h14, h15, h16, h17, h18⟩
    obtain ⟨h8, h8'⟩ := (GraphDraft.checkBusinessDag_eq_ok h1 h4).mp h8
    exact ⟨h1, h2, h3, h4, h5, h6, h7, h8, h8', h9, h10, h11,
      (GraphDraft.checkDecompositionDag_eq_ok h9 h11).mp h12, h13, h14, h15, h16, h17, h18⟩
  · intro h
    exact ⟨h.nodes, h.nodeKeys, h.axis, h.edgeEnds, h.cards, h.workspace, h.ports,
      (GraphDraft.checkBusinessDag_eq_ok h.nodes h.edgeEnds).mpr ⟨h.noSelf, h.flow⟩, h.items, h.owners,
      h.itemEnds, (GraphDraft.checkDecompositionDag_eq_ok h.items h.itemEnds).mpr h.decomposition,
      h.capabilitySources, h.contextSources, h.edges, h.itemEdges, h.capabilities, h.contexts⟩

theorem BoundedDag.map {f : Str → Str} {edges : List (Str × Str)} (h : BoundedDag edges)
    (hinj : ∀ e ∈ edges, ∀ e' ∈ edges, f e.2 = f e'.1 → e.2 = e'.1) :
    BoundedDag (edges.map (Prod.map f f)) :=
  boundedDag_iff.mpr ((boundedDag_iff.mp h).map (by norm_num) hinj)

def GraphDraft.rowGids (graph : GraphDraft) : RowKind → List Str
  | .node => nodeGids graph.nodes
  | .edge => graph.edges.map FlowEdge.gid
  | .item => graph.itemGids
  | .itemEdge => graph.itemEdges.map DecompositionEdge.gid
  | .capability => graph.capabilityBindings.map CapabilityBinding.gid
  | .context => graph.contextBindings.map ContextBinding.gid

/-- **New ids keep what is accepted.** -/
theorem GraphDraft.Accepted.rename (h : graph.Accepted) (hρ : Gives ρ)
    (hapart : ∀ kind, TellsApart ρ kind (graph.rowGids kind)) : (graph.rename ρ).Accepted := by
  obtain ⟨hfields, hreferences⟩ := h
  have href := checkReferences_eq_ok.mp hreferences
  have hnode : TellsApart ρ .node (nodeGids graph.nodes) := hapart .node
  have hitem : TellsApart ρ .item graph.itemGids := hapart .item
  have hitems : (graph.rename ρ).itemGids = graph.itemGids.map (ρ .item) := by
    simp only [GraphDraft.itemGids, GraphDraft.rename, List.map_map]
    rfl
  have hnodes : nodeGids (graph.rename ρ).nodes = (nodeGids graph.nodes).map (ρ .node) := nodeGids_rename
  refine ⟨?_, checkReferences_eq_ok.mpr ?_⟩
  · simp only [GraphDraft.checkFields, andThen_eq_ok, require_eq_ok, forM_eq_ok, Option.mem_toList] at hfields ⊢
    obtain ⟨hworkspace, haxis, hn, hnodeFields, he, hedgeFields, hi, hitemFields, hie, hlinkFields, hc,
      hcapabilityFields, hx, hcontextFields⟩ := hfields
    simp only [GraphDraft.rename, List.length_map, List.forall_mem_map]
    refine ⟨?_, haxis, hn, ?_, he, ?_, hi, ?_, hie, ?_, hc, ?_, hx, ?_⟩
    · intro definition hdefinition
      obtain ⟨original, horiginal, rfl⟩ := Option.mem_map.mp hdefinition
      refine WorkspaceDefinition.check_rename (fun view hview => ?_) (hworkspace original horiginal)
      exact hnode.mono (placed_subset (href.workspace original horiginal) hview)
    · exact fun node hin => BusinessNode.check_rename hρ (hnodeFields node hin)
    · exact fun edge hin => FlowEdge.check_rename hρ (hedgeFields edge hin)
    · exact fun item hin => DecompositionItem.check_rename hρ (hitemFields item hin)
    · intro edge hin
      refine DecompositionEdge.check_rename hρ (hitem.mono fun gid hgid => ?_) (hlinkFields edge hin)
      rcases List.mem_pair.mp hgid with rfl | rfl
      · exact (href.itemEnds edge hin).1
      · exact (href.itemEnds edge hin).2
    · exact fun binding hin => CapabilityBinding.check_rename hρ (hcapabilityFields binding hin)
    · exact fun binding hin => ContextBinding.check_rename hρ (hcontextFields binding hin)
  · refine ⟨(hapart .node).nodup_rename (fun _ => rfl) href.nodes, ?_, List.forall_mem_map.mpr href.axis, ?_, ?_, ?_,
      ?_, ?_, ?_, (hapart .item).nodup_rename (fun _ => rfl) href.items, ?_, ?_, ?_, ?_, ?_,
      (hapart .edge).nodup_rename (fun _ => rfl) href.edges, (hapart .itemEdge).nodup_rename (fun _ => rfl) href.itemEdges,
      (hapart .capability).nodup_rename (fun _ => rfl) href.capabilities,
      (hapart .context).nodup_rename (fun _ => rfl) href.contexts⟩
    · rw [show (graph.rename ρ).nodes = graph.nodes.map (BusinessNode.rename ρ) from rfl, List.map_map]
      exact href.nodeKeys
    · rw [hnodes]
      exact List.forall_mem_map.mpr fun edge hedge => (href.edgeEnds edge hedge).imp List.mem_map_of_mem List.mem_map_of_mem
    · rw [hitems]
      exact List.forall_mem_map.mpr fun node hin => checkNode_rename (href.cards node hin)
    · intro definition hdefinition
      obtain ⟨original, horiginal, rfl⟩ := Option.mem_map.mp hdefinition
      exact checkWorkspace_rename hρ hnode href.edgeEnds (href.workspace original horiginal)
    · refine List.forall_mem_map.mpr fun edge hedge => ?_
      rw [show (graph.rename ρ).nodes = graph.nodes.map (BusinessNode.rename ρ) from rfl,
        checkEdgePorts_rename hnode (fun gid hgid => hgid) (href.edgeEnds edge hedge).1 (href.edgeEnds edge hedge).2]
      exact href.ports edge hedge
    · refine List.forall_mem_map.mpr fun edge hedge heq => ?_
      obtain ⟨hsource, htarget⟩ := href.edgeEnds edge hedge
      exact href.noSelf edge hedge (hnode _ hsource _ htarget heq)
    · have hdependencies : (graph.rename ρ).dependencies
          = graph.dependencies.map (Prod.map (ρ .node) (ρ .node)) := by
        simp only [GraphDraft.dependencies, GraphDraft.rename, List.filter_map, List.map_map]
        rfl
      have hends : ∀ e ∈ graph.dependencies, e.1 ∈ nodeGids graph.nodes ∧ e.2 ∈ nodeGids graph.nodes :=
        List.forall_mem_map.mpr fun edge hedge => href.edgeEnds edge (List.mem_filter.mp hedge).1
      rw [hdependencies]
      exact href.flow.map fun e he e' he' heq => hnode _ (hends e he).2 _ (hends e' he').1 heq
    · rw [hnodes]
      refine List.forall_mem_map.mpr fun item hin gid hgid => ?_
      obtain ⟨owner, howner, rfl⟩ := Option.mem_map.mp hgid
      exact List.mem_map_of_mem (href.owners item hin owner howner)
    · rw [hitems]
      exact List.forall_mem_map.mpr fun edge hedge => (href.itemEnds edge hedge).imp List.mem_map_of_mem List.mem_map_of_mem
    · have hlinks : (graph.rename ρ).itemLinks = graph.itemLinks.map (Prod.map (ρ .item) (ρ .item)) := by
        simp only [GraphDraft.itemLinks, GraphDraft.rename, List.map_map]
        rfl
      have hends : ∀ e ∈ graph.itemLinks, e.1 ∈ graph.itemGids ∧ e.2 ∈ graph.itemGids :=
        List.forall_mem_map.mpr href.itemEnds
      rw [hlinks]
      exact href.decomposition.map fun e he e' he' heq => hitem _ (hends e he).2 _ (hends e' he').1 heq
    · refine List.forall_mem_map.mpr fun binding hin => ?_
      obtain ⟨item, hitemIn, hgid, htool⟩ := href.capabilitySources binding hin
      exact ⟨item.rename ρ, List.mem_map_of_mem hitemIn, congrArg (ρ .item) hgid, htool⟩
    · rw [hitems]
      exact List.forall_mem_map.mpr fun binding hin => List.mem_map_of_mem (href.contextSources binding hin)

end Ai00.Agent
