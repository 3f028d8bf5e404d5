import Ai00.Basic.Python
import Mathlib.Data.Finset.Sort
import Mathlib.Data.List.Lex
import Mathlib.Data.Prod.Lex

/-! # First suggestions of bindings

`domain/bop_vm_binding.py` of the simulation plugin. `build_binding_draft` binds the operations of a BOP to
the nodes of a VM whose product references are exactly those of the operation. A binding is automatic if
there is one such node; a node that several operations load automatically is left to a reviewer.

The draft holds every claim that an operation has on a node once, no two automatic loads of one node, and
every node as bound or as unmatched; it does not depend on the order in which operations and nodes are
given (`binding_draft_kept`).
-/

namespace Ai00.Simulation

/-! ## Data -/

structure OperationParameters where
  vpps : Str
  isLoadPart : Bool

/-- An operation; a product that is no mapping has no reference. -/
structure BopOperation where
  operationId : Str
  products : List (Option Str)
  parameters : Option OperationParameters

structure VmNode where
  nodeKey : Str
  productRef : Str

inductive DraftMode where
  | parts | vpps | structureOnly

inductive BindingRole where
  | load | operate
deriving DecidableEq

inductive Disposition where
  | auto | ambiguous | conflict
deriving DecidableEq

structure DraftBinding where
  bopNodeGid : Str
  vmNodeKey : Str
  role : BindingRole
  disposition : Disposition
  confidenceMilli : ℕ
  matchBasis : String
  conflictCode : String

structure BindingDraft where
  mode : DraftMode
  bindings : List DraftBinding
  autoCount : ℕ
  reviewCount : ℕ
  unmatchedBopNodeGids : List Str
  unmatchedVmNodeKeys : List Str

/-- What is used of Unicode. -/
structure UnicodeForms where
  nfkc : Str → Str
  casefold : Str → Str

/-! ## `build_binding_draft` -/

section

variable (unicode : UnicodeForms)

/-- `_identity`. -/
def identityOf (value : Str) : Str := unicode.casefold (strip (unicode.nfkc value))

/-- `_identity` of the `vpps` of an operation, which is empty without parameters. -/
def vppsOf (operation : BopOperation) : Str :=
  identityOf unicode ((operation.parameters.map OperationParameters.vpps).getD [])

def draftMode (operations : List BopOperation) : DraftMode :=
  if ∃ operation ∈ operations, operation.products ≠ [] then .parts
  else if ∃ operation ∈ operations, vppsOf unicode operation ≠ [] then .vpps
  else .structureOnly

def BopOperation.role (operation : BopOperation) : BindingRole :=
  if ∃ parameters ∈ operation.parameters, parameters.isLoadPart = true then .load else .operate

def operationIdentities (mode : DraftMode) (operation : BopOperation) : List Str :=
  match mode with
  | .parts =>
    (((operation.products.filterMap id).map (identityOf unicode)).filter (· ≠ [])).toFinset.sort
  | .vpps => if vppsOf unicode operation = [] then [] else [vppsOf unicode operation]
  | .structureOnly => []

def DraftMode.basis : DraftMode → String
  | parts => "product_ref_exact"
  | vpps => "vpps_exact"
  | structureOnly => "none"

def DraftMode.confidence : DraftMode → ℕ
  | parts => 970
  | vpps => 960
  | structureOnly => 0

/-- `vm_by_identity.get(identity, [])`; nodes without an identity are not in it. -/
def candidates (nodes : List VmNode) (identity : Str) : List VmNode :=
  if identity = [] then [] else nodes.filter fun node => identityOf unicode node.productRef = identity

def bindCandidates (mode : DraftMode) (operation : BopOperation) (found : List VmNode) : List DraftBinding :=
  let disposition := if found.length = 1 then .auto else .ambiguous
  found.map fun node => {
    bopNodeGid := operation.operationId
    vmNodeKey := node.nodeKey
    role := operation.role
    disposition
    confidenceMilli := if disposition = .auto then mode.confidence else 800
    matchBasis := mode.basis
    conflictCode := if disposition = .ambiguous then "duplicate_vm_identity" else "" }

/-- The bindings that the loop over the operations appends. -/
def bindOperations (mode : DraftMode) (nodes : List VmNode) (operations : List BopOperation) : List DraftBinding :=
  operations.flatMap fun operation => (operationIdentities unicode mode operation).flatMap fun identity =>
    bindCandidates mode operation (candidates unicode nodes identity)

def DraftBinding.isAutoLoad (key : Str) (binding : DraftBinding) : Bool :=
  binding.role = .load && binding.disposition = .auto && binding.vmNodeKey = key

/-- The loop over `load_by_vm.values()`. -/
def markConflict (bindings : List DraftBinding) (binding : DraftBinding) : DraftBinding :=
  if binding.isAutoLoad binding.vmNodeKey = true ∧ 1 < bindings.countP (·.isAutoLoad binding.vmNodeKey) then
    { binding with disposition := .conflict, confidenceMilli := 0, conflictCode := "multiple_load_claims" }
  else binding

def BindingRole.text : BindingRole → Str
  | load => "load".toList
  | operate => "operate".toList

def DraftBinding.sortKey (binding : DraftBinding) : Str ×ₗ Str ×ₗ Str :=
  toLex (binding.bopNodeGid, toLex (binding.vmNodeKey, binding.role.text))

/-- The operation is matched by none or not by all of its identities. -/
def unmatchedOperation (mode : DraftMode) (nodes : List VmNode) (operation : BopOperation) : Bool :=
  let found := (operationIdentities unicode mode operation).map (candidates unicode nodes)
  found.all List.isEmpty || found.any List.isEmpty

def buildBindingDraft (operations : List BopOperation) (nodes : List VmNode) : BindingDraft :=
  let operations := operations.mergeSort fun a b => a.operationId ≤ b.operationId
  let vmNodes := nodes.mergeSort fun a b => a.nodeKey ≤ b.nodeKey
  let mode := draftMode unicode operations
  let matched := bindOperations unicode mode vmNodes operations
  let bindings := (matched.map (markConflict matched)).mergeSort fun a b => a.sortKey ≤ b.sortKey
  { mode
    bindings
    autoCount := bindings.countP fun item => item.disposition = .auto
    reviewCount := bindings.countP fun item => item.disposition ≠ .auto
    unmatchedBopNodeGids :=
      ((operations.filter (unmatchedOperation unicode mode vmNodes)).map BopOperation.operationId).toFinset.sort
    unmatchedVmNodeKeys := ((vmNodes.map VmNode.nodeKey).filter fun key =>
      key ∉ matched.map DraftBinding.vmNodeKey).mergeSort (· ≤ ·) }

end

/-! ## Claims -/

/-- The operation, the node and the role of a binding. -/
def DraftBinding.claim (binding : DraftBinding) : Str × Str × BindingRole :=
  (binding.bopNodeGid, binding.vmNodeKey, binding.role)

/-- Every operation with every node whose product reference is one of its identities. -/
def claims (unicode : UnicodeForms) (mode : DraftMode) (operations : List BopOperation) (nodes : List VmNode) :
    List (Str × Str × BindingRole) :=
  operations.flatMap fun operation => (operationIdentities unicode mode operation).flatMap fun identity =>
    (candidates unicode nodes identity).map fun node => (operation.operationId, node.nodeKey, operation.role)

variable {unicode : UnicodeForms} {mode : DraftMode} {operations operations' : List BopOperation}
  {nodes nodes' : List VmNode} {bindings : List DraftBinding}

theorem markConflict_claim (bindings : List DraftBinding) (binding : DraftBinding) :
    (markConflict bindings binding).claim = binding.claim := by
  rw [markConflict]
  split_ifs <;> rfl

theorem map_claim_bindOperations :
    (bindOperations unicode mode nodes operations).map DraftBinding.claim = claims unicode mode operations nodes := by
  rw [bindOperations, claims, List.map_flatMap]
  congr 1
  funext operation
  rw [List.map_flatMap]
  congr 1
  funext identity
  rw [bindCandidates, List.map_map]
  rfl

theorem claims_perm (hoperations : operations'.Perm operations) (hnodes : nodes'.Perm nodes) :
    (claims unicode mode operations' nodes').Perm (claims unicode mode operations nodes) := by
  refine (hoperations.flatMap_right _).trans (List.Perm.flatMap_left _ fun operation _ => ?_)
  refine List.Perm.flatMap_left _ fun identity _ => List.Perm.map _ ?_
  rw [candidates, candidates]
  split_ifs
  · exact .refl _
  · exact hnodes.filter _

/-! ## Automatic loads -/

theorem pairwise_of_countP {α : Type} {p : α → Bool} {l : List α} (h : l.countP p ≤ 1) :
    l.Pairwise fun a b => p a = true → p b = false := by
  induction l with
  | nil => exact .nil
  | cons a l ih =>
    rw [List.countP_cons] at h
    refine List.pairwise_cons.mpr ⟨fun b hb ha => ?_, ih (by omega)⟩
    rw [if_pos ha] at h
    have hnone : l.countP p = 0 := by omega
    simpa using List.countP_eq_zero.mp hnone b hb

/-- **A node has one automatic load at most**: of several, all become conflicts. -/
theorem countP_markConflict_le (bindings : List DraftBinding) (key : Str) :
    (bindings.map (markConflict bindings)).countP (·.isAutoLoad key) ≤ 1 := by
  rw [List.countP_map]
  by_cases hone : bindings.countP (·.isAutoLoad key) ≤ 1
  · refine le_trans (List.countP_mono_left fun binding _ hauto => ?_) hone
    rw [Function.comp_apply, markConflict] at hauto
    split_ifs at hauto
    · simp [DraftBinding.isAutoLoad] at hauto
    · exact hauto
  · have hnone : bindings.countP ((·.isAutoLoad key) ∘ markConflict bindings) = 0 := by
      refine List.countP_eq_zero.mpr fun binding _ hauto => ?_
      rw [Function.comp_apply, markConflict] at hauto
      split_ifs at hauto with hconflict
      · simp [DraftBinding.isAutoLoad] at hauto
      · have hkey : binding.vmNodeKey = key := by
          simp only [DraftBinding.isAutoLoad, Bool.and_eq_true, decide_eq_true_eq] at hauto
          exact hauto.2
        rw [hkey] at hconflict
        exact hconflict ⟨hauto, by omega⟩
    omega

/-! ## The order of the input -/

theorem mergeSort_eq_of_perm {α : Type} {key : α → Str} {l l' : List α} (hperm : l'.Perm l)
    (hkeys : (l.map key).Nodup) :
    (l'.mergeSort fun a b => key a ≤ key b) = l.mergeSort fun a b => key a ≤ key b := by
  have hsorted : ∀ l : List α, (l.mergeSort fun a b => key a ≤ key b).Pairwise fun a b => key a ≤ key b := by
    intro l
    refine (List.pairwise_mergeSort (fun a b c hab hbc => ?_) (fun a b => ?_) l).imp fun h => by simpa using h
    · exact decide_eq_true (le_trans (of_decide_eq_true hab) (of_decide_eq_true hbc))
    · simpa using le_total (key a) (key b)
  have hall : (l'.mergeSort fun a b => key a ≤ key b).Perm (l.mergeSort fun a b => key a ≤ key b) :=
    (List.mergeSort_perm _ _).trans (hperm.trans (List.mergeSort_perm _ _).symm)
  refine hall.eq_of_pairwise (fun a b ha hb hab hba => ?_) (hsorted l') (hsorted l)
  have ha' : a ∈ l := hperm.mem_iff.mp ((List.mergeSort_perm _ _).mem_iff.mp ha)
  have hb' : b ∈ l := (List.mergeSort_perm _ _).mem_iff.mp hb
  exact List.inj_on_of_nodup_map hkeys ha' hb' (le_antisymm hab hba)

/-- What the loops find, before conflicts are marked and everything is sorted. -/
theorem draft_matched (unicode : UnicodeForms) (operations : List BopOperation) (nodes : List VmNode) :
    ∃ matched : List DraftBinding,
      (buildBindingDraft unicode operations nodes).bindings.Perm (matched.map (markConflict matched))
        ∧ (matched.map DraftBinding.claim).Perm
          (claims unicode (buildBindingDraft unicode operations nodes).mode operations nodes)
        ∧ ∀ key, key ∈ (buildBindingDraft unicode operations nodes).unmatchedVmNodeKeys
          ↔ key ∈ nodes.map VmNode.nodeKey ∧ key ∉ matched.map DraftBinding.vmNodeKey := by
  refine ⟨_, List.mergeSort_perm _ _, ?_, fun key => ?_⟩
  · rw [map_claim_bindOperations]
    exact claims_perm (List.mergeSort_perm _ _) (List.mergeSort_perm _ _)
  · have hkeys := ((List.mergeSort_perm nodes fun a b => decide (a.nodeKey ≤ b.nodeKey)).map
      VmNode.nodeKey).mem_iff (a := key)
    refine ((List.mergeSort_perm _ _).mem_iff.trans List.mem_filter).trans ?_
    rw [hkeys, decide_eq_true_eq]

/-- **What a draft keeps.** -/
theorem binding_draft_kept (unicode : UnicodeForms) (operations : List BopOperation) (nodes : List VmNode) :
    let draft := buildBindingDraft unicode operations nodes
    (draft.bindings.map DraftBinding.claim).Perm (claims unicode draft.mode operations nodes)
      ∧ (∀ key, draft.bindings.countP (·.isAutoLoad key) ≤ 1)
      ∧ (∀ key, draft.bindings.Pairwise fun a b =>
        (a.isAutoLoad key → b.role = .load → b.vmNodeKey = key → b.disposition ∈ [.conflict, .ambiguous])
          ∧ (b.isAutoLoad key → a.role = .load → a.vmNodeKey = key → a.disposition ∈ [.conflict, .ambiguous]))
      ∧ draft.autoCount + draft.reviewCount = draft.bindings.length
      ∧ (∀ node ∈ nodes, (∃ binding ∈ draft.bindings, binding.vmNodeKey = node.nodeKey)
        ↔ node.nodeKey ∉ draft.unmatchedVmNodeKeys)
      ∧ ((operations.map BopOperation.operationId).Nodup → (nodes.map VmNode.nodeKey).Nodup →
        ∀ operations' nodes', operations'.Perm operations → nodes'.Perm nodes →
          buildBindingDraft unicode operations' nodes' = draft) := by
  intro draft
  obtain ⟨matched, hbindings, hclaims, hunmatched⟩ := draft_matched unicode operations nodes
  have hone : ∀ key, draft.bindings.countP (·.isAutoLoad key) ≤ 1 := by
    intro key
    rw [hbindings.countP_eq]
    exact countP_markConflict_le matched key
  have hsame : (matched.map (markConflict matched)).map DraftBinding.claim = matched.map DraftBinding.claim := by
    rw [List.map_map]
    exact List.map_congr_left fun binding _ => markConflict_claim matched binding
  have hload : ∀ {key : Str} {binding : DraftBinding}, binding.isAutoLoad key = false → binding.role = .load →
      binding.vmNodeKey = key → binding.disposition ∈ [Disposition.conflict, .ambiguous] := by
    intro key binding hnot hrole hkey
    cases hdisposition : binding.disposition with
    | auto => simp [DraftBinding.isAutoLoad, hrole, hkey, hdisposition] at hnot
    | ambiguous => simp
    | conflict => simp
  refine ⟨?_, hone, fun key => ?_, ?_, fun node hnode => ?_, fun hids hkeys operations' nodes' hoperations hnodes => ?_⟩
  · exact (hbindings.map _).trans (hsame ▸ hclaims)
  · refine (pairwise_of_countP (hone key)).imp fun {a b} hnot => ⟨fun ha => hload (hnot ha), fun hb => ?_⟩
    refine hload ?_
    by_contra ha
    rw [hnot (Bool.eq_true_of_not_eq_false ha)] at hb
    cases hb
  · have hlength := draft.bindings.length_eq_countP_add_countP fun item => item.disposition = .auto
    have hreview : draft.reviewCount = draft.bindings.countP fun item =>
        ¬ decide (item.disposition = .auto) = true :=
      List.countP_congr fun item _ => by simp
    rw [hlength, hreview]
    rfl
  · have hbound : (∃ binding ∈ draft.bindings, binding.vmNodeKey = node.nodeKey)
        ↔ node.nodeKey ∈ matched.map DraftBinding.vmNodeKey := by
      have hkeys := (hbindings.map DraftBinding.claim).trans (List.Perm.of_eq hsame)
      have hmem := (hkeys.map fun claim => claim.2.1).mem_iff (a := node.nodeKey)
      rw [List.map_map, List.map_map] at hmem
      exact List.mem_map.symm.trans hmem
    rw [hbound, hunmatched, not_and, not_not]
    exact ⟨fun h _ => h, fun h => h (List.mem_map_of_mem hnode)⟩
  · show buildBindingDraft unicode operations' nodes' = buildBindingDraft unicode operations nodes
    rw [buildBindingDraft, buildBindingDraft, mergeSort_eq_of_perm hoperations hids,
      mergeSort_eq_of_perm hnodes hkeys]

end Ai00.Simulation
