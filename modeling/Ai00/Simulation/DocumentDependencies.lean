import Ai00.Basic.Checks
import Ai00.Basic.DepthFirst
import Ai00.Basic.KeyedRows
import Ai00.Basic.PosixPath

/-! # Dependencies of documents

`validate_document_dependency_graph` of `domain/plmxml_environment_codec.py`. The supplements of a primary
document declare what they depend on; documents are told by their normalized path, without regard to case.
The graph keeps one list of dependencies for each path: of several supplements with one path it keeps what
the last one declares.

The check meets what is asked of it exactly if an overwritten supplement declares nothing that the last one
of its path does not, or the documents are refused for what is kept (`dependency_graph_iff`).
-/

namespace Ai00.Simulation

open KeyedRows PosixPath Relation

/-! ## Data -/

/-- An item of `supplements`. -/
structure Supplement where
  name : Str
  dependencies : List Str
deriving DecidableEq

/-- An item of `names`. -/
structure DocumentName where
  key : Str
  name : Str

/-- An item of `graph`, and of the graph that is returned. -/
structure DocumentNode where
  key : Str
  dependencies : List Str
deriving DecidableEq

inductive DependencyError where
  | cycle
  /-- The call does not return. -/
  | hangs
deriving DecidableEq

section

variable (folding : CaseFolding)

/-- `_identity`. -/
def documentIdentity (value : Str) : Str := folding.casefold (normpath (replaceChar '\\' ['/'] value))

/-- `names`. -/
def documentNames (primary : Str) (supplements : List Supplement) : List DocumentName :=
  supplements.foldl (fun names s => upsert DocumentName.key ⟨documentIdentity folding s.name, s.name⟩ names)
    [⟨documentIdentity folding primary, primary⟩]

/-- `names.get(key, key)`. -/
def documentLabel (names : List DocumentName) (key : Str) : Str :=
  ((lookup DocumentName.key key names).map DocumentName.name).getD key

/-- `tuple(dict.fromkeys(_identity(item) for item in raw_dependencies))`. -/
def dependencyKeys (s : Supplement) : List Str := (s.dependencies.map (documentIdentity folding)).eraseDups

/-- One round of the loop over the supplements. -/
def declareSupplement (primaryKey : Str) (graph : List DocumentNode) (s : Supplement) :
    Except DependencyError (List DocumentNode) := do
  let graph := upsert DocumentNode.key ⟨documentIdentity folding s.name, dependencyKeys folding s⟩ graph
  require (primaryKey ∉ dependencyKeys folding s) .cycle
  return graph

/-- The children that `visit` goes to. -/
def documentChildren (graph : List DocumentNode) (key : Str) : List Str :=
  (((lookup DocumentNode.key key graph).map DocumentNode.dependencies).getD []).filter
    fun child => child ∈ graph.map DocumentNode.key

def searchGraph (graph : List DocumentNode) : Except DependencyError Unit :=
  match DepthFirst.search (documentChildren graph) (graph.map DocumentNode.key) with
  | .ok _ => .ok ()
  | .error .cycle => .error .cycle
  | .error .hangs => .error .hangs

def validateDocumentDependencyGraph (primary : Str) (supplements : List Supplement) :
    Except DependencyError (List DocumentNode) := do
  let primaryKey := documentIdentity folding primary
  let names := documentNames folding primary supplements
  let graph ← supplements.foldlM (declareSupplement folding primaryKey) [⟨primaryKey, []⟩]
  searchGraph graph
  return graph.map fun node => ⟨documentLabel names node.key, node.dependencies.map (documentLabel names)⟩

end

/-! ## Identities of documents -/

variable {folding : CaseFolding}

/-- **The identity of a document is its own identity.** -/
theorem documentIdentity_self (folding : CaseFolding) (value : Str) :
    documentIdentity folding (documentIdentity folding value) = documentIdentity folding value := by
  have hreplaced : ∀ value : Str, '\\' ∉ replaceChar '\\' ['/'] value := by
    intro value hin
    obtain ⟨c, -, hc⟩ := List.mem_flatMap.mp hin
    split_ifs at hc with heq
    · exact absurd (List.mem_singleton.mp hc) (by decide)
    · exact heq (List.mem_singleton.mp hc).symm
  have hnormal : '\\' ∉ normpath (replaceChar '\\' ['/'] value) := by
    intro hin
    rcases mem_normpath hin with hin | hin | hin
    · exact hreplaced value hin
    · exact absurd hin (by decide)
    · exact absurd hin (by decide)
  have hfolded : '\\' ∉ folding.casefold (normpath (replaceChar '\\' ['/'] value)) := fun hin =>
    hnormal ((folding.mem_casefold (by simp) hnormal).mp hin)
  have hsame : ∀ {s : Str}, '\\' ∉ s → replaceChar '\\' ['/'] s = s := by
    intro s hs
    rw [replaceChar]
    have hchars : ∀ c ∈ s, (if c = '\\' then ['/'] else [c]) = [c] := by
      intro c hc
      refine if_neg ?_
      rintro rfl
      exact hs hc
    rw [List.flatMap_congr hchars, List.flatMap_singleton']
  show folding.casefold (normpath (replaceChar '\\' ['/'] (folding.casefold _))) = _
  rw [hsame hfolded, folding.normpath_casefold hnormal, normpath_normpath, folding.casefold_casefold]
  rfl

/-! ## What is declared and what is kept -/

section

variable (folding : CaseFolding) (supplements : List Supplement)

/-- A supplement of one path depends on a document of another one. -/
def Declares (a b : Str) : Prop :=
  ∃ s ∈ supplements, documentIdentity folding s.name = a ∧ ∃ item ∈ s.dependencies, documentIdentity folding item = b

def lastOf (a : Str) : Option Supplement := supplements.reverse.find? fun s => documentIdentity folding s.name = a

/-- The last supplement of one path depends on a document of another one. -/
def Keeps (a b : Str) : Prop :=
  ∃ s ∈ lastOf folding supplements a, ∃ item ∈ s.dependencies, documentIdentity folding item = b

/-- Some document leads back to itself. -/
def Cyclic (depends : Str → Str → Prop) : Prop := ∃ a, TransGen depends a a

def HasEdge (graph : List DocumentNode) (a b : Str) : Prop :=
  ∃ node ∈ graph, documentIdentity folding node.key = a ∧ ∃ item ∈ node.dependencies, documentIdentity folding item = b

/-- The check ends, raises for cycles and for dependencies on the primary document, and returns a graph
with everything that is declared. -/
structure ChecksDependencies (primary : Str) : Prop where
  ends : validateDocumentDependencyGraph folding primary supplements ≠ .error .hangs
  raises : validateDocumentDependencyGraph folding primary supplements = .error .cycle
    ↔ Cyclic (Declares folding supplements) ∨ ∃ a, Declares folding supplements a (documentIdentity folding primary)
  complete : ∀ graph, validateDocumentDependencyGraph folding primary supplements = .ok graph →
    ∀ a b, Declares folding supplements a b → HasEdge folding graph a b

end

variable {supplements : List Supplement} {primary a b : Str} {s : Supplement}

theorem mem_dependencyKeys : b ∈ dependencyKeys folding s
    ↔ ∃ item ∈ s.dependencies, documentIdentity folding item = b := by
  rw [dependencyKeys, List.mem_eraseDups, List.mem_map]

theorem lastOf_concat : lastOf folding (supplements ++ [s]) a
    = if documentIdentity folding s.name = a then some s else lastOf folding supplements a := by
  rw [lastOf, List.reverse_append, List.reverse_singleton, List.singleton_append, List.find?_cons]
  split_ifs with h
  · rw [decide_eq_true h]
  · rw [decide_eq_false h]
    rfl

theorem lastOf_mem (h : lastOf folding supplements a = some s) :
    s ∈ supplements ∧ documentIdentity folding s.name = a := by
  have hname := @List.find?_some _ (fun s : Supplement => decide (documentIdentity folding s.name = a)) _ _ h
  exact ⟨List.mem_reverse.mp (List.mem_of_find?_eq_some h), of_decide_eq_true hname⟩

theorem Keeps.declares (h : Keeps folding supplements a b) : Declares folding supplements a b := by
  obtain ⟨s, hs, hitem⟩ := h
  obtain ⟨hmem, hname⟩ := lastOf_mem hs
  exact ⟨s, hmem, hname, hitem⟩

/-! ## The graph -/

/-- What the graph has after the loop: for each path the keys of its last supplement. -/
structure GraphOf (folding : CaseFolding) (primary : Str) (supplements : List Supplement)
    (graph : List DocumentNode) : Prop where
  keys : (graph.map DocumentNode.key).Nodup
  found : ∀ a, lookup DocumentNode.key a graph = match lastOf folding supplements a with
    | some s => some ⟨a, dependencyKeys folding s⟩
    | none => if documentIdentity folding primary = a then some ⟨a, []⟩ else none

theorem graphOf_nil : GraphOf folding primary [] [⟨documentIdentity folding primary, []⟩] where
  keys := List.nodup_singleton _
  found a := by
    rw [lookup_cons]
    show (if documentIdentity folding primary = a then _ else _) = if documentIdentity folding primary = a then _ else _
    split_ifs with h
    · rw [← h]
    · rfl

theorem GraphOf.upsert {graph : List DocumentNode} (h : GraphOf folding primary supplements graph) (s : Supplement) :
    GraphOf folding primary (supplements ++ [s])
      (upsert DocumentNode.key ⟨documentIdentity folding s.name, dependencyKeys folding s⟩ graph) where
  keys := nodup_upsert h.keys
  found a := by
    rw [lookup_upsert, lastOf_concat, h.found]
    by_cases hname : documentIdentity folding s.name = a
    · rw [if_pos hname, if_pos hname, hname]
    · rw [if_neg hname, if_neg hname]

/-- **The loop over the supplements** refuses a dependency on the primary document, or leaves the graph. -/
theorem declareSupplements_cases (folding : CaseFolding) (primary : Str) (supplements : List Supplement) :
    (∃ graph, supplements.foldlM (declareSupplement folding (documentIdentity folding primary))
          [⟨documentIdentity folding primary, []⟩] = .ok graph ∧ GraphOf folding primary supplements graph
        ∧ ∀ a, ¬ Declares folding supplements a (documentIdentity folding primary))
      ∨ supplements.foldlM (declareSupplement folding (documentIdentity folding primary))
          [⟨documentIdentity folding primary, []⟩] = .error .cycle
        ∧ ∃ a, Declares folding supplements a (documentIdentity folding primary) := by
  induction supplements using List.reverseRecOn with
  | nil => exact Or.inl ⟨_, rfl, graphOf_nil, fun a ⟨s, hs, _⟩ => nomatch hs⟩
  | append_singleton supplements s ih =>
    rw [List.foldlM_append]
    rcases ih with ⟨graph, hgraph, hspec, hnone⟩ | ⟨herror, a, s', hs', hdepends⟩
    · rw [hgraph, ok_bind, List.foldlM_cons, declareSupplement]
      by_cases hprimary : documentIdentity folding primary ∈ dependencyKeys folding s
      · refine Or.inr ⟨?_, documentIdentity folding s.name, s, by simp, rfl, mem_dependencyKeys.mp hprimary⟩
        have hrefuse : require (documentIdentity folding primary ∉ dependencyKeys folding s) DependencyError.cycle
            = .error .cycle := if_neg (not_not.mpr hprimary)
        rw [hrefuse]
        rfl
      · refine Or.inl ⟨_, ?_, hspec.upsert s, ?_⟩
        · rw [require_bind hprimary]
          rfl
        · rintro a ⟨s', hs', hname, hitem⟩
          rcases List.mem_append.mp hs' with hs' | hs'
          · exact hnone a ⟨s', hs', hname, hitem⟩
          · rw [List.mem_singleton.mp hs'] at hitem
            exact hprimary (mem_dependencyKeys.mpr hitem)
    · refine Or.inr ⟨?_, a, s', List.mem_append_left _ hs', hdepends⟩
      rw [herror]
      rfl

variable {graph : List DocumentNode}

theorem mem_keys_iff : a ∈ graph.map DocumentNode.key ↔ lookup DocumentNode.key a graph ≠ none := by
  rw [ne_eq, lookup_eq_none_iff, List.mem_map]
  push Not
  rfl

/-- The children of a document are the declared ones that its last supplement depends on. -/
theorem GraphOf.edge_iff (h : GraphOf folding primary supplements graph) :
    DepthFirst.Edge (documentChildren graph) a b ↔ Keeps folding supplements a b ∧ b ∈ graph.map DocumentNode.key := by
  rw [DepthFirst.Edge, documentChildren, List.mem_filter, decide_eq_true_eq, h.found, Keeps]
  refine and_congr_left fun _ => ?_
  cases hlast : lastOf folding supplements a with
  | none =>
    show b ∈ (Option.map DocumentNode.dependencies (if documentIdentity folding primary = a then _ else _)).getD [] ↔ _
    split_ifs <;> simp
  | some s => simpa using mem_dependencyKeys

theorem GraphOf.hasCycle_iff (h : GraphOf folding primary supplements graph) :
    DepthFirst.HasCycle (documentChildren graph) ↔ Cyclic (Keeps folding supplements) := by
  have hin : ∀ {a b}, Keeps folding supplements a b → a ∈ graph.map DocumentNode.key := by
    rintro a b ⟨s, hs, -⟩
    rw [mem_keys_iff, h.found, hs]
    exact Option.some_ne_none _
  constructor
  · rintro ⟨a, ha⟩
    exact ⟨a, TransGen.mono (fun x y hxy => (h.edge_iff.mp hxy).1) a a ha⟩
  · rintro ⟨a, ha⟩
    have hpath : ∀ {b}, TransGen (Keeps folding supplements) b a → a ∈ graph.map DocumentNode.key →
        TransGen (DepthFirst.Edge (documentChildren graph)) b a := by
      intro b hba htarget
      induction hba using TransGen.head_induction_on with
      | single hba => exact .single (h.edge_iff.mpr ⟨hba, htarget⟩)
      | head hbc hca ih =>
        obtain ⟨d, hcd, -⟩ := TransGen.head'_iff.mp hca
        exact .head (h.edge_iff.mpr ⟨hbc, hin hcd⟩) ih
    obtain ⟨b, hab, -⟩ := TransGen.head'_iff.mp ha
    exact ⟨a, hpath ha (hin hab)⟩

theorem GraphOf.searchGraph_cases (h : GraphOf folding primary supplements graph) :
    searchGraph graph = .ok () ∧ ¬ Cyclic (Keeps folding supplements)
      ∨ searchGraph graph = .error .cycle ∧ Cyclic (Keeps folding supplements) := by
  have hcases := @DepthFirst.search_cases _ (documentChildren graph) (graph.map DocumentNode.key) _
    (fun a _ b hb => (h.edge_iff.mp hb).2) fun a ha => by
      have hnone : lookup DocumentNode.key a graph = none := by
        by_contra hne
        exact ha (mem_keys_iff.mpr hne)
      rw [documentChildren, hnone]
      rfl
  rw [h.hasCycle_iff] at hcases
  rcases hcases with ⟨⟨visited, hok⟩, hnone⟩ | ⟨herror, hcycle⟩
  · exact Or.inl ⟨by rw [searchGraph, hok], hnone⟩
  · exact Or.inr ⟨by rw [searchGraph, herror], hcycle⟩

/-! ## Names -/

/-- The name of a path, or the path, has the identity of the path. -/
theorem identity_documentLabel (ha : documentIdentity folding a = a) :
    documentIdentity folding (documentLabel (documentNames folding primary supplements) a) = a := by
  have hnames : ∀ entry ∈ documentNames folding primary supplements, documentIdentity folding entry.name = entry.key := by
    rw [documentNames]
    induction supplements using List.reverseRecOn with
    | nil => simp
    | append_singleton supplements s ih =>
      rw [List.foldl_concat]
      intro entry hentry
      rcases mem_upsert hentry with rfl | hentry
      · rfl
      · exact ih entry hentry
  rw [documentLabel]
  cases hfound : lookup DocumentName.key a (documentNames folding primary supplements) with
  | none => exact ha
  | some entry => exact (hnames entry (mem_of_lookup hfound)).trans (key_of_lookup hfound)

theorem GraphOf.hasEdge_iff (h : GraphOf folding primary supplements graph) :
    HasEdge folding (graph.map fun node => ⟨documentLabel (documentNames folding primary supplements) node.key,
      node.dependencies.map (documentLabel (documentNames folding primary supplements))⟩) a b
        ↔ Keeps folding supplements a b := by
  have hkey : ∀ node ∈ graph, documentIdentity folding node.key = node.key := by
    intro node hnode
    have hfound := lookup_of_mem h.keys hnode
    rw [h.found] at hfound
    cases hlast : lastOf folding supplements node.key with
    | some s =>
      rw [← (lastOf_mem hlast).2]
      exact documentIdentity_self folding s.name
    | none =>
      rw [hlast] at hfound
      by_cases hprimary : documentIdentity folding primary = node.key
      · rw [← hprimary]
        exact documentIdentity_self folding primary
      · simp only [if_neg hprimary] at hfound
        cases hfound
  have hnode : ∀ node ∈ graph, ∀ c, c ∈ node.dependencies ↔ Keeps folding supplements node.key c := by
    intro node hnode c
    have hfound := lookup_of_mem h.keys hnode
    rw [h.found] at hfound
    rw [Keeps]
    cases hlast : lastOf folding supplements node.key with
    | some s =>
      rw [hlast] at hfound
      rw [← congrArg DocumentNode.dependencies (Option.some.inj hfound)]
      simpa using mem_dependencyKeys
    | none =>
      rw [hlast] at hfound
      by_cases hprimary : documentIdentity folding primary = node.key
      · simp only [if_pos hprimary] at hfound
        rw [← congrArg DocumentNode.dependencies (Option.some.inj hfound)]
        simp
      · simp only [if_neg hprimary] at hfound
        cases hfound
  have hdependency : ∀ node ∈ graph, ∀ c ∈ node.dependencies, documentIdentity folding c = c := by
    intro node hin c hc
    obtain ⟨s, -, item, -, rfl⟩ := (hnode node hin c).mp hc
    exact documentIdentity_self folding item
  constructor
  · rintro ⟨shown, hshown, ha, item, hitem, hb⟩
    obtain ⟨node, hin, rfl⟩ := List.mem_map.mp hshown
    obtain ⟨c, hc, rfl⟩ := List.mem_map.mp hitem
    rw [identity_documentLabel (hkey node hin)] at ha
    rw [identity_documentLabel (hdependency node hin c hc)] at hb
    rw [← ha, ← hb]
    exact (hnode node hin c).mp hc
  · intro hkeeps
    have hin : lookup DocumentNode.key a graph ≠ none := by
      obtain ⟨s, hs, -⟩ := hkeeps
      rw [h.found, hs]
      exact Option.some_ne_none _
    obtain ⟨node, hfound⟩ := Option.ne_none_iff_exists'.mp hin
    have hmem := mem_of_lookup hfound
    have hsame : node.key = a := key_of_lookup hfound
    have hdepends : b ∈ node.dependencies := (hnode node hmem b).mpr (hsame ▸ hkeeps)
    exact ⟨_, List.mem_map_of_mem hmem, (identity_documentLabel (hkey node hmem)).trans hsame, _,
      List.mem_map_of_mem hdepends, identity_documentLabel (hdependency node hmem b hdepends)⟩

/-! ## The check -/

/-- **The check does what is asked of it** exactly if it refuses the documents for a dependency on the
primary one or for a cycle of what it keeps, or keeps everything that is declared. -/
theorem dependency_graph_iff (folding : CaseFolding) (primary : Str) (supplements : List Supplement) :
    ChecksDependencies folding supplements primary
      ↔ (∃ a, Declares folding supplements a (documentIdentity folding primary))
        ∨ Cyclic (Keeps folding supplements)
        ∨ ∀ a b, Declares folding supplements a b → Keeps folding supplements a b := by
  have hmono : Cyclic (Keeps folding supplements) → Cyclic (Declares folding supplements) := by
    rintro ⟨a, ha⟩
    exact ⟨a, TransGen.mono (fun x y hxy => hxy.declares) a a ha⟩
  rcases declareSupplements_cases folding primary supplements with ⟨graph, hgraph, hspec, hnone⟩ | ⟨herror, hprimary⟩
  · rcases hspec.searchGraph_cases with ⟨hsearch, hacyclic⟩ | ⟨hsearch, hcyclic⟩
    · have hresult : validateDocumentDependencyGraph folding primary supplements = .ok (graph.map fun node =>
          ⟨documentLabel (documentNames folding primary supplements) node.key,
            node.dependencies.map (documentLabel (documentNames folding primary supplements))⟩) := by
        rw [validateDocumentDependencyGraph, hgraph, ok_bind, hsearch, ok_bind]
        rfl
      constructor
      · intro h
        refine Or.inr (Or.inr fun a b hab => hspec.hasEdge_iff.mp (h.complete _ hresult a b hab))
      · rintro (⟨a, ha⟩ | hcycle | hall)
        · exact absurd ha (hnone a)
        · exact absurd hcycle hacyclic
        · refine ⟨by rw [hresult]; nofun, ?_, fun shown hshown a b hab => ?_⟩
          · rw [hresult]
            refine iff_of_false nofun ?_
            rintro (⟨a, ha⟩ | ⟨a, ha⟩)
            · exact hacyclic ⟨a, TransGen.mono hall a a ha⟩
            · exact hnone a ha
          · rw [hresult] at hshown
            cases hshown
            exact hspec.hasEdge_iff.mpr (hall a b hab)
    · have hresult : validateDocumentDependencyGraph folding primary supplements = .error .cycle := by
        rw [validateDocumentDependencyGraph, hgraph, ok_bind, hsearch]
        rfl
      refine iff_of_true ⟨by rw [hresult]; nofun, iff_of_true hresult (Or.inl (hmono hcyclic)), ?_⟩
        (Or.inr (Or.inl hcyclic))
      rw [hresult]
      nofun
  · have hresult : validateDocumentDependencyGraph folding primary supplements = .error .cycle := by
      rw [validateDocumentDependencyGraph, herror]
      rfl
    refine iff_of_true ⟨by rw [hresult]; nofun, iff_of_true hresult (Or.inr hprimary), ?_⟩ (Or.inl hprimary)
    rw [hresult]
    nofun

def asciiFolding : CaseFolding where
  fold c := if 65 ≤ c.toNat ∧ c.toNat ≤ 90 then [Char.ofNat (c.toNat + 32)] else [c]
  folded c := by
    split_ifs with h
    · obtain ⟨hlow, hhigh⟩ := h
      generalize c.toNat = n at hlow hhigh
      interval_cases n <;> rfl
    · simp [h]
  slash := rfl
  dot := rfl
  others c hslash hdot hback := by
    split_ifs with h
    · obtain ⟨hlow, hhigh⟩ := h
      generalize c.toNat = n at hlow hhigh
      interval_cases n <;> decide
    · simp [Ne.symm hslash, Ne.symm hdot, Ne.symm hback]

/-- Two supplements of one path, and one that depends on it and on which the first one depends. -/
def overwrittenSupplement : List Supplement :=
  [⟨['a'], [['b']]⟩, ⟨['A'], []⟩, ⟨['b'], [['a']]⟩]

theorem not_checked_overwritten :
    validateDocumentDependencyGraph asciiFolding ['p'] overwrittenSupplement
        = .ok [⟨['p'], []⟩, ⟨['A'], []⟩, ⟨['b'], [['A']]⟩]
      ∧ ¬ ChecksDependencies asciiFolding overwrittenSupplement ['p'] := by
  have hresult : validateDocumentDependencyGraph asciiFolding ['p'] overwrittenSupplement
      = .ok [⟨['p'], []⟩, ⟨['A'], []⟩, ⟨['b'], [['A']]⟩] := by decide +kernel
  refine ⟨hresult, fun h => ?_⟩
  have hcycle : Cyclic (Declares asciiFolding overwrittenSupplement) :=
    ⟨['a'], .tail (.single ⟨⟨['a'], [['b']]⟩, by decide, rfl, ['b'], by decide, rfl⟩)
      ⟨⟨['b'], [['a']]⟩, by decide, rfl, ['a'], by decide, rfl⟩⟩
  exact nomatch hresult.symm.trans (h.raises.mpr (Or.inl hcycle))

end Ai00.Simulation
