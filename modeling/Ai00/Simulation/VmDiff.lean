import Ai00.Basic.Checks
import Ai00.Json.Value
import Mathlib.Data.List.Lex
import Mathlib.Data.Prod.Lex

/-! # Differences between two observations of a model

`VmObservation` of `domain/vm_identity.py` and the comparison of `domain/vm_diff.py` of the simulation
plugin. The occurrences of the later snapshot are taken in the order of their gids; each is
identified with the prior occurrence that carries its gid or, if there is none, with the only one of
its source that was not matched so far.

Such an occurrence may be identified with a prior one whose gid comes later (`Takes`), which is then
matched twice. For snapshots in which no gid comes twice, nothing is lost or doubled exactly if every
occurrence has a gid and none takes what is another one's (`diff_conserves_iff`).
-/

namespace Ai00.Simulation

/-! ## Data -/

inductive OccurrenceKind where
  | part | tool | fixture | equipment | socket
deriving DecidableEq

structure VmObservation where
  occurrenceGid : Option Str
  sourceInstanceId : Str
  sessionGid : Str
  kind : OccurrenceKind
  modelNumber : Str
  bomLine : Str
  revision : Str
  catiaOccurrenceName : Str
  normalizedTransform : List Str
  parentPath : List Str
  rawTransform : List Str
  representationLocations : List Str
  removed : Bool
  orderIndex : ℤ
  geometryHash : Str
  attributes : List (Str × Str)
deriving DecidableEq

inductive VmChange where
  | revisionUpgraded | representationReplaced | geometryContentChanged | moved | reordered | renamed
  | attributesChanged | ambiguousIdentity | removed | added
deriving DecidableEq

namespace VmChange

def rank : VmChange → ℕ
  | revisionUpgraded => 0
  | representationReplaced => 1
  | geometryContentChanged => 2
  | moved => 3
  | reordered => 4
  | renamed => 5
  | attributesChanged => 6
  | ambiguousIdentity => 7
  | removed => 8
  | added => 9

/-- In the alphabetical order of their names. -/
def sorted : List (VmChange × String) :=
  [(added, "added"), (ambiguousIdentity, "ambiguous_identity"), (attributesChanged, "attributes_changed"),
    (geometryContentChanged, "geometry_content_changed"), (moved, "moved"), (removed, "removed"),
    (renamed, "renamed"), (reordered, "reordered"), (representationReplaced, "representation_replaced"),
    (revisionUpgraded, "revision_upgraded")]

/-- `_CHANGES`: the changes with what they compare. -/
def changed (before after : VmObservation) : List VmChange :=
  (if before.revision ≠ after.revision then [revisionUpgraded] else [])
    ++ (if before.representationLocations ≠ after.representationLocations then [representationReplaced] else [])
    ++ (if before.geometryHash ≠ after.geometryHash then [geometryContentChanged] else [])
    ++ (if before.parentPath ≠ after.parentPath then [moved] else [])
    ++ (if before.orderIndex ≠ after.orderIndex then [reordered] else [])
    ++ (if before.catiaOccurrenceName ≠ after.catiaOccurrenceName then [renamed] else [])
    ++ (if before.attributes ≠ after.attributes then [attributesChanged] else [])

theorem changed_self (row : VmObservation) : changed row row = [] := by simp [changed]

end VmChange

structure VmDiffPayload where
  beforeParent : Option (List Str)
  afterParent : Option (List Str)
  beforeOrder : Option ℤ
  afterOrder : Option ℤ
  beforeRevision : Option Str
  afterRevision : Option Str
  beforeRepresentation : Option (List Str)
  afterRepresentation : Option (List Str)
  beforeGeometryHash : Option Str
  afterGeometryHash : Option Str
  /-- Only of an ambiguous identity. -/
  candidateOccurrenceGids : Option (List Str)

structure VmDiffItem where
  changeType : VmChange
  beforeOccurrenceGid : Option Str
  afterOccurrenceGid : Option Str
  severity : String
  payload : VmDiffPayload

structure VmDiff where
  algorithmVersion : Str
  items : List VmDiffItem
  summary : List (String × ℕ)

inductive VmDiffError where
  /-- Gids are sorted together with a missing one. -/
  | typeError

/-! ## Identities -/

/-- `_gid` of the occurrence. -/
def VmObservation.gid (row : VmObservation) : Option Str := row.occurrenceGid.filter (· ≠ [])

/-- `_item`. -/
def diffItem (change : VmChange) (before after : Option VmObservation) (candidates : Option (List Str)) :
    VmDiffItem where
  changeType := change
  beforeOccurrenceGid := before.bind VmObservation.gid
  afterOccurrenceGid := after.bind VmObservation.gid
  severity := if change = .ambiguousIdentity ∨ change = .removed then "warning" else "info"
  payload := {
    beforeParent := before.map VmObservation.parentPath
    afterParent := after.map VmObservation.parentPath
    beforeOrder := before.map VmObservation.orderIndex
    afterOrder := after.map VmObservation.orderIndex
    beforeRevision := before.map VmObservation.revision
    afterRevision := after.map VmObservation.revision
    beforeRepresentation := before.map VmObservation.representationLocations
    afterRepresentation := after.map VmObservation.representationLocations
    beforeGeometryHash := before.map VmObservation.geometryHash
    afterGeometryHash := after.map VmObservation.geometryHash
    candidateOccurrenceGids := candidates }

/-- What an incoming occurrence is found to be. -/
inductive Identity where
  | matched (previous : VmObservation)
  | added
  | ambiguous (candidates : List VmObservation)

/-- The gid that a match puts into `matched`. -/
def Identity.matchedGid : Identity → Option Str
  | matched previous => previous.gid
  | _ => none

/-- `by_gid.get`: the last row of a gid. -/
def byGid (prior : List VmObservation) (gid : Str) : Option VmObservation :=
  prior.reverse.find? fun row => row.gid = some gid

/-- `candidates`. -/
def candidatesOf (prior : List VmObservation) (matched : List Str) (source : Str) : List VmObservation :=
  prior.filter fun row => row.sourceInstanceId = source ∧ ∀ gid ∈ row.gid, gid ∉ matched

def identify (prior : List VmObservation) (matched : List Str) (incoming : VmObservation) : Identity :=
  match incoming.gid.bind (byGid prior) with
  | some previous => .matched previous
  | none =>
    match candidatesOf prior matched incoming.sourceInstanceId with
    | [] => .added
    | [previous] => .matched previous
    | candidates => .ambiguous candidates

/-- The loop over the incoming occurrences, with what each is found to be. -/
def identities (prior : List VmObservation) (matched : List Str) :
    List VmObservation → List (VmObservation × Identity)
  | [] => []
  | incoming :: rest =>
    let identity := identify prior matched incoming
    (incoming, identity) :: identities prior (matched ++ identity.matchedGid.toList) rest

/-- The incoming occurrences in the order of the loop. -/
def ordered (current : List VmObservation) : List VmObservation :=
  current.mergeSort fun a b =>
    toLex (a.gid.getD [], a.sourceInstanceId) ≤ toLex (b.gid.getD [], b.sourceInstanceId)

/-- What is found of the occurrences of a snapshot. -/
def reports (before after : List VmObservation) : List (VmObservation × Identity) :=
  identities before [] (ordered after)

/-! ## `compare_vm_snapshots` -/

/-- `sorted(_gid(row.occurrence_gid) for row in candidates)`, for more than one candidate. -/
def sortedGids (candidates : List VmObservation) : Except VmDiffError (List Str) := do
  let gids ← candidates.mapM fun row => found row.gid .typeError
  return gids.mergeSort

/-- The items that a round of the loop appends. -/
def reportItems (incoming : VmObservation) : Identity → Except VmDiffError (List VmDiffItem)
  | .matched previous => .ok ((VmChange.changed previous incoming).map fun change =>
    diffItem change (some previous) (some incoming) none)
  | .added => .ok [diffItem .added none (some incoming) none]
  | .ambiguous candidates => do
    let gids ← sortedGids candidates
    return [diffItem .ambiguousIdentity none (some incoming) (some gids)]

/-- The prior occurrences that are reported as removed. -/
def removedRows (before after : List VmObservation) : List VmObservation :=
  before.filter fun row => ∀ gid ∈ row.gid, gid ∉ (reports before after).filterMap fun r => r.2.matchedGid

def VmDiffItem.sortKey (item : VmDiffItem) : ℕ ×ₗ Str ×ₗ Str :=
  toLex (item.changeType.rank,
    toLex (item.beforeOccurrenceGid.getD [], item.afterOccurrenceGid.getD []))

def summaryOf (items : List VmDiffItem) : List (String × ℕ) :=
  (VmChange.sorted.map fun e => (e.2, items.countP fun item => item.changeType = e.1)).filter fun e => e.2 ≠ 0

def compareVmSnapshots (before after : List VmObservation) (algorithmVersion : Str) :
    Except VmDiffError VmDiff := do
  let found ← (reports before after).mapM fun r => reportItems r.1 r.2
  let removed := (removedRows before after).map fun row => diffItem .removed (some row) none none
  let items := (found.flatten ++ removed).mergeSort fun a b => a.sortKey ≤ b.sortKey
  return { algorithmVersion, items, summary := summaryOf items }

/-! ## What a comparison is to keep -/

/-- No gid comes twice. -/
def DistinctGids (rows : List VmObservation) : Prop :=
  rows.Pairwise fun a b => ∀ gid ∈ a.gid, b.gid ≠ some gid

instance (rows : List VmObservation) : Decidable (DistinctGids rows) :=
  inferInstanceAs (Decidable (List.Pairwise _ _))

def AllGids (rows : List VmObservation) : Prop := ∀ row ∈ rows, row.gid ≠ none

instance (rows : List VmObservation) : Decidable (AllGids rows) :=
  inferInstanceAs (Decidable (∀ row ∈ rows, row.gid ≠ none))

/-- Each incoming occurrence is found to be one thing, no prior one is matched twice, those that are not
matched are reported as removed, and gids are kept. -/
structure Conserves (before after : List VmObservation) (diff : VmDiff) : Prop where
  once : ((reports before after).map Prod.fst).Perm after
  shown : ∀ r ∈ reports before after, ∃ items, reportItems r.1 r.2 = .ok items ∧ items ⊆ diff.items
  matchedOnce : (reports before after).Pairwise fun r s =>
    ∀ row ∈ before, r.2 = .matched row → s.2 ≠ .matched row
  removed : ∀ row ∈ before, diffItem .removed (some row) none none ∈ diff.items
    ↔ ∀ r ∈ reports before after, r.2 ≠ .matched row
  carried : ∀ r ∈ reports before after, ∀ row ∈ before, r.1.gid ≠ none → r.1.gid = row.gid →
    r.2 = .matched row

/-- A snapshot does not differ from itself. -/
def SameAsItself (rows : List VmObservation) : Prop :=
  ∀ version, ∃ diff, compareVmSnapshots rows rows version = .ok diff ∧ diff.items = []

/-- An incoming occurrence takes a prior one that another incoming one carries: its own gid is new, that
gid comes behind it, and of its source there is no other prior occurrence but those whose gids come
before it. -/
def Takes (before after : List VmObservation) (incoming previous : VmObservation) : Prop :=
  (∀ row ∈ before, row.gid ≠ incoming.gid)
    ∧ previous.sourceInstanceId = incoming.sourceInstanceId
    ∧ (∃ other ∈ after, other.gid = previous.gid ∧ incoming.gid.getD [] < other.gid.getD [])
    ∧ ∀ row ∈ before, row.sourceInstanceId = incoming.sourceInstanceId → row ≠ previous →
      ∃ other ∈ after, other.gid = row.gid ∧ other.gid.getD [] < incoming.gid.getD []

instance (before after : List VmObservation) (incoming previous : VmObservation) :
    Decidable (Takes before after incoming previous) := by
  unfold Takes
  infer_instance

/-! ## The loop over the incoming occurrences -/

/-- The gids that some reports have put into `matched`. -/
def matchedGids (found : List (VmObservation × Identity)) : List Str := found.filterMap fun r => r.2.matchedGid

variable {prior before after current : List VmObservation} {row incoming previous : VmObservation}

theorem identities_fst (matched : List Str) (current : List VmObservation) :
    (identities prior matched current).map Prod.fst = current := by
  induction current generalizing matched with
  | nil => rfl
  | cons incoming rest ih => rw [identities, List.map_cons, ih]

/-- What an occurrence is found to be depends on the reports before it. -/
theorem identities_getElem? (matched : List Str) (current : List VmObservation) (i : ℕ) :
    (identities prior matched current)[i]? = current[i]?.map fun incoming =>
      (incoming, identify prior (matched ++ matchedGids ((identities prior matched current).take i)) incoming) := by
  induction current generalizing matched i with
  | nil => rfl
  | cons incoming rest ih =>
    cases i with
    | zero => simp [identities, matchedGids]
    | succ i =>
      rw [identities, List.getElem?_cons_succ, ih, List.getElem?_cons_succ, List.take_succ_cons, matchedGids,
        matchedGids, List.filterMap_cons]
      cases hgid : (identify prior matched incoming).matchedGid <;> simp

variable {r : VmObservation × Identity} {i : ℕ}

theorem reports_getElem? (h : (reports before after)[i]? = some r) :
    (ordered after)[i]? = some r.1 ∧ r.2 = identify before (matchedGids ((reports before after).take i)) r.1 := by
  rw [reports, identities_getElem?] at h
  obtain ⟨incoming, hincoming, rfl⟩ := Option.map_eq_some_iff.mp h
  exact ⟨hincoming, rfl⟩

theorem exists_report (before : List VmObservation) (h : (ordered after)[i]? = some incoming) :
    ∃ identity, (reports before after)[i]? = some (incoming, identity) := by
  rw [reports, identities_getElem?, h]
  exact ⟨_, rfl⟩

theorem mem_take_iff {α : Type} {l : List α} {a : α} : a ∈ l.take i ↔ ∃ j < i, l[j]? = some a := by
  rw [List.mem_iff_getElem?]
  refine exists_congr fun j => ?_
  rw [List.getElem?_take]
  split_ifs with hj
  · exact (and_iff_right hj).symm
  · exact iff_of_false nofun fun h => hj h.1

/-! ## Gids -/

variable {gid : Str} {matched : List Str} {x y : VmObservation}

variable {rows : List VmObservation}

theorem eq_of_gid (hgids : DistinctGids rows) (hx : x ∈ rows) (hy : y ∈ rows)
    (hxgid : x.gid = some gid) (hygid : y.gid = some gid) : x = y := by
  by_contra hne
  have hsymm : Std.Symm fun a b : VmObservation => ∀ gid ∈ a.gid, b.gid ≠ some gid :=
    ⟨fun a b hab gid hb ha => hab gid ha hb⟩
  exact hgids.forall hx hy hne gid hxgid hygid

theorem ordered_perm (after : List VmObservation) : (ordered after).Perm after := List.mergeSort_perm _ _

/-- The incoming occurrences are taken in the order of their gids. -/
theorem ordered_lt (hgids : DistinctGids after) (hall : AllGids after) :
    (ordered after).Pairwise fun a b => a.gid.getD [] < b.gid.getD [] := by
  have hsorted : (ordered after).Pairwise fun a b => toLex (a.gid.getD [], a.sourceInstanceId)
      ≤ toLex (b.gid.getD [], b.sourceInstanceId) := by
    refine (List.pairwise_mergeSort (fun a b c hab hbc => ?_) (fun a b => ?_) after).imp fun h => by simpa using h
    · exact decide_eq_true (le_trans (of_decide_eq_true hab) (of_decide_eq_true hbc))
    · simpa using le_total (toLex (a.gid.getD [], a.sourceInstanceId)) (toLex (b.gid.getD [], b.sourceInstanceId))
  have hdistinct : DistinctGids (ordered after) :=
    hgids.perm (ordered_perm after).symm fun hab gid hb ha => hab gid ha hb
  refine (hsorted.and hdistinct).imp_of_mem fun {a b} ha hb h => ?_
  obtain ⟨g, hg⟩ := Option.ne_none_iff_exists'.mp (hall a ((ordered_perm after).mem_iff.mp ha))
  obtain ⟨g', hg'⟩ := Option.ne_none_iff_exists'.mp (hall b ((ordered_perm after).mem_iff.mp hb))
  have hne : g ≠ g' := fun heq => h.2 g hg (heq ▸ hg')
  have hle := Prod.Lex.toLex_le_toLex.mp h.1
  rw [hg, hg'] at hle ⊢
  rcases hle with hlt | ⟨heq, -⟩
  · exact hlt
  · exact absurd heq hne

theorem lt_of_index {i j : ℕ} (hgids : DistinctGids after) (hall : AllGids after)
    (hx : (ordered after)[i]? = some x) (hy : (ordered after)[j]? = some y) (hij : i < j) :
    x.gid.getD [] < y.gid.getD [] := by
  obtain ⟨hi, rfl⟩ := List.getElem?_eq_some_iff.mp hx
  obtain ⟨hj, rfl⟩ := List.getElem?_eq_some_iff.mp hy
  exact List.pairwise_iff_getElem.mp (ordered_lt hgids hall) i j hi hj hij

theorem index_of_lt {i j : ℕ} (hgids : DistinctGids after) (hall : AllGids after)
    (hx : (ordered after)[i]? = some x) (hy : (ordered after)[j]? = some y)
    (hlt : x.gid.getD [] < y.gid.getD []) : i < j := by
  by_contra hij
  rcases lt_or_eq_of_le (not_lt.mp hij) with hij | rfl
  · exact lt_asymm hlt (lt_of_index hgids hall hy hx hij)
  · rw [hx] at hy
    cases hy
    exact lt_irrefl _ hlt

theorem byGid_cases (prior : List VmObservation) (gid : Str) :
    (∃ row ∈ prior, row.gid = some gid ∧ byGid prior gid = some row)
      ∨ (∀ row ∈ prior, row.gid ≠ some gid) ∧ byGid prior gid = none := by
  cases hfound : byGid prior gid with
  | none =>
    refine Or.inr ⟨fun row hrow hgid => ?_, rfl⟩
    exact absurd (decide_eq_true hgid) (List.find?_eq_none.mp hfound row (List.mem_reverse.mpr hrow))
  | some row =>
    have hgid : decide (row.gid = some gid) = true :=
      @List.find?_some _ (fun row : VmObservation => decide (row.gid = some gid)) _ _ hfound
    exact Or.inl ⟨row, List.mem_reverse.mp (List.mem_of_find?_eq_some hfound), of_decide_eq_true hgid, rfl⟩

theorem byGid_eq_some (hgids : DistinctGids prior) (hrow : row ∈ prior) (hgid : row.gid = some gid) :
    byGid prior gid = some row := by
  rcases byGid_cases prior gid with ⟨other, hother, hothergid, hfound⟩ | ⟨hnone, -⟩
  · rw [hfound, eq_of_gid hgids hother hrow hothergid hgid]
  · exact absurd hgid (hnone row hrow)

/-! ## What an occurrence is found to be -/

theorem mem_candidatesOf {source : Str} : row ∈ candidatesOf prior matched source
    ↔ row ∈ prior ∧ row.sourceInstanceId = source ∧ ∀ gid ∈ row.gid, gid ∉ matched := by
  rw [candidatesOf, List.mem_filter, decide_eq_true_eq]

theorem identify_carried (hgids : DistinctGids prior) (hrow : row ∈ prior) (hgid : row.gid = some gid)
    (hincoming : incoming.gid = some gid) : identify prior matched incoming = .matched row := by
  rw [identify, hincoming, Option.bind_some, byGid_eq_some hgids hrow hgid]

theorem identify_new (hincoming : incoming.gid = some gid) (hnew : ∀ row ∈ prior, row.gid ≠ some gid) :
    identify prior matched incoming = match candidatesOf prior matched incoming.sourceInstanceId with
        | [] => .added
        | [previous] => .matched previous
        | candidates => .ambiguous candidates := by
  rcases byGid_cases prior gid with ⟨row, hrow, hgid, -⟩ | ⟨-, hnone⟩
  · exact absurd hgid (hnew row hrow)
  · rw [identify, hincoming, Option.bind_some, hnone]

theorem identify_matched (hincoming : incoming.gid = some gid)
    (h : identify prior matched incoming = .matched previous) :
    previous ∈ prior ∧ (previous.gid = some gid ∨ (∀ row ∈ prior, row.gid ≠ some gid)
        ∧ candidatesOf prior matched incoming.sourceInstanceId = [previous]) := by
  rcases byGid_cases prior gid with ⟨row, hrow, hgid, hfound⟩ | ⟨hnew, -⟩
  · rw [identify, hincoming, Option.bind_some, hfound] at h
    cases h
    exact ⟨hrow, Or.inl hgid⟩
  · rw [identify_new hincoming hnew] at h
    split at h
    · cases h
    · next hcandidates =>
        cases h
        have hin : previous ∈ candidatesOf prior matched incoming.sourceInstanceId := by simp [hcandidates]
        exact ⟨(mem_candidatesOf.mp hin).1, Or.inr ⟨hnew, hcandidates⟩⟩
    · cases h

theorem identify_ambiguous {candidates : List VmObservation}
    (h : identify prior matched incoming = .ambiguous candidates) : candidates ⊆ prior := by
  rw [identify] at h
  split at h
  · cases h
  · split at h
    · cases h
    · cases h
    · cases h
      exact fun row hrow => (mem_candidatesOf.mp hrow).1

/-! ## Rows with gids -/

section

variable (hbefore : DistinctGids before) (hbeforeGids : AllGids before) (hafter : DistinctGids after)
  (hafterGids : AllGids after)

theorem mem_matchedGids : gid ∈ matchedGids ((reports before after).take i)
    ↔ ∃ k < i, ∃ r, (reports before after)[k]? = some r ∧ r.2.matchedGid = some gid := by
  rw [matchedGids, List.mem_filterMap]
  constructor
  · rintro ⟨r, hr, hgid⟩
    obtain ⟨k, hk, hr⟩ := mem_take_iff.mp hr
    exact ⟨k, hk, r, hr, hgid⟩
  · rintro ⟨k, hk, r, hr, hgid⟩
    exact ⟨r, mem_take_iff.mpr ⟨k, hk, hr⟩, hgid⟩

include hafterGids in
theorem report_matched (h : (reports before after)[i]? = some (x, .matched previous)) :
    x ∈ after ∧ previous ∈ before ∧ (previous.gid = x.gid ∨ (∀ row ∈ before, row.gid ≠ x.gid)
        ∧ candidatesOf before (matchedGids ((reports before after).take i)) x.sourceInstanceId = [previous]) := by
  obtain ⟨hx, hidentity⟩ := reports_getElem? h
  have hin : x ∈ after := (ordered_perm after).mem_iff.mp (List.mem_of_getElem? hx)
  obtain ⟨gid, hgid⟩ := Option.ne_none_iff_exists'.mp (hafterGids x hin)
  rw [hgid]
  exact ⟨hin, identify_matched hgid hidentity.symm⟩

include hbefore hbeforeGids hafter hafterGids in
/-- **A prior occurrence that is matched twice** was taken by the first one. -/
theorem takes_of_matched_twice {i j : ℕ} (hij : i < j)
    (hx : (reports before after)[i]? = some (x, .matched previous))
    (hy : (reports before after)[j]? = some (y, .matched previous)) : Takes before after x previous := by
  obtain ⟨-, hprevious, hxcases⟩ := report_matched hafterGids hx
  obtain ⟨hyin, -, hycases⟩ := report_matched hafterGids hy
  obtain ⟨gid, hgid⟩ := Option.ne_none_iff_exists'.mp (hbeforeGids previous hprevious)
  have hlt := lt_of_index hafter hafterGids (reports_getElem? hx).1 (reports_getElem? hy).1 hij
  -- the second one carries the gid, which is matched by then
  have hcarries : y.gid = previous.gid := by
    rcases hycases with hsame | ⟨-, hcandidates⟩
    · exact hsame.symm
    · have hfree := (mem_candidatesOf.mp (hcandidates ▸ List.mem_singleton_self previous)).2.2 gid hgid
      exact absurd (mem_matchedGids.mpr ⟨i, hij, _, hx, hgid⟩) hfree
  rcases hxcases with hsame | ⟨hnew, hcandidates⟩
  · rw [hcarries, hsame] at hlt
    exact absurd hlt (lt_irrefl _)
  · obtain ⟨-, hsource, hfree⟩ := mem_candidatesOf.mp (hcandidates ▸ List.mem_singleton_self previous)
    refine ⟨hnew, hsource, ⟨y, hyin, hcarries, hlt⟩, fun row hrow hrowSource hne => ?_⟩
    obtain ⟨rowGid, hrowGid⟩ := Option.ne_none_iff_exists'.mp (hbeforeGids row hrow)
    -- another one of the source is no candidate, so it was matched before, and by its own gid
    have hmatched : rowGid ∈ matchedGids ((reports before after).take i) := by
      by_contra hnot
      have hcandidate : row ∈ candidatesOf before (matchedGids ((reports before after).take i))
          x.sourceInstanceId := by
        refine mem_candidatesOf.mpr ⟨hrow, hrowSource, fun other hother => ?_⟩
        rw [hrowGid] at hother
        cases hother
        exact hnot
      rw [hcandidates] at hcandidate
      exact hne (List.mem_singleton.mp hcandidate)
    obtain ⟨k, hk, ⟨z, identity⟩, hz, hzgid⟩ := mem_matchedGids.mp hmatched
    cases identity with
    | added => cases hzgid
    | ambiguous candidates => cases hzgid
    | matched other =>
      obtain ⟨hzin, hother, hzcases⟩ := report_matched hafterGids hz
      have hsame : other = row := eq_of_gid hbefore hother hrow hzgid hrowGid
      subst hsame
      rcases hzcases with hzcarries | ⟨-, hzcandidates⟩
      · exact ⟨z, hzin, hzcarries.symm, lt_of_index hafter hafterGids (reports_getElem? hz).1
          (reports_getElem? hx).1 hk⟩
      · -- or the taken one had been a candidate then
        have hzsource := (mem_candidatesOf.mp (hzcandidates ▸ List.mem_singleton_self other)).2.1
        have hcandidate : previous ∈ candidatesOf before (matchedGids ((reports before after).take k))
            z.sourceInstanceId := by
          refine mem_candidatesOf.mpr ⟨hprevious, ?_, fun other' hother' hin => ?_⟩
          · rw [hsource, ← hrowSource, hzsource]
          · obtain ⟨l, hl, hr⟩ := mem_matchedGids.mp hin
            exact hfree other' hother' (mem_matchedGids.mpr ⟨l, by omega, hr⟩)
        rw [hzcandidates] at hcandidate
        exact absurd (List.mem_singleton.mp hcandidate).symm hne

include hbefore in
/-- An incoming occurrence is found to be the prior one whose gid it carries. -/
theorem report_carried {identity : Identity} (h : (reports before after)[i]? = some (x, identity))
    (hrow : row ∈ before) (hrowGid : row.gid = some gid) (hx : x.gid = some gid) : identity = .matched row :=
  (reports_getElem? h).2.trans (identify_carried hbefore hrow hrowGid hx)

include hbefore hbeforeGids hafter hafterGids in
/-- A prior occurrence that an incoming one takes is matched by that one, or was before, and later by
the one that carries its gid. -/
theorem matched_twice_of_takes (hxin : x ∈ after) (hprevious : previous ∈ before)
    (htakes : Takes before after x previous) :
    ∃ i j : ℕ, i < j ∧ ∃ y z : VmObservation, (reports before after)[i]? = some (y, .matched previous)
      ∧ (reports before after)[j]? = some (z, .matched previous) := by
  obtain ⟨hnew, hsource, ⟨y, hyin, hcarries, hlt⟩, hothers⟩ := htakes
  obtain ⟨gid, hgid⟩ := Option.ne_none_iff_exists'.mp (hbeforeGids previous hprevious)
  obtain ⟨i, hi⟩ := List.mem_iff_getElem?.mp ((ordered_perm after).mem_iff.mpr hxin)
  obtain ⟨j, hj⟩ := List.mem_iff_getElem?.mp ((ordered_perm after).mem_iff.mpr hyin)
  have hij := index_of_lt hafter hafterGids hi hj hlt
  obtain ⟨identity, hx⟩ := exists_report before hi
  obtain ⟨identity', hy⟩ := exists_report before hj
  rw [report_carried hbefore hy hprevious hgid (hcarries.trans hgid)] at hy
  by_cases hmatched : gid ∈ matchedGids ((reports before after).take i)
  · obtain ⟨k, hk, ⟨z, found⟩, hz, hzgid⟩ := mem_matchedGids.mp hmatched
    cases found with
    | added => cases hzgid
    | ambiguous candidates => cases hzgid
    | matched other =>
      obtain ⟨-, hother, -⟩ := report_matched hafterGids hz
      have hsame : other = previous := eq_of_gid hbefore hother hprevious hzgid hgid
      exact ⟨k, j, by omega, z, y, hsame ▸ hz, hy⟩
  · obtain ⟨xgid, hxgid⟩ := Option.ne_none_iff_exists'.mp (hafterGids x hxin)
    have honly : candidatesOf before (matchedGids ((reports before after).take i)) x.sourceInstanceId
        = [previous] := by
      have hmem : ∀ row, row ∈ candidatesOf before (matchedGids ((reports before after).take i)) x.sourceInstanceId
          ↔ row = previous := by
        intro row
        rw [mem_candidatesOf]
        constructor
        · rintro ⟨hrow, hrowSource, hfree⟩
          by_contra hne
          obtain ⟨z, hzin, hzcarries, hzlt⟩ := hothers row hrow hrowSource hne
          obtain ⟨k, hk⟩ := List.mem_iff_getElem?.mp ((ordered_perm after).mem_iff.mpr hzin)
          obtain ⟨found, hz⟩ := exists_report before hk
          obtain ⟨rowGid, hrowGid⟩ := Option.ne_none_iff_exists'.mp (hbeforeGids row hrow)
          have hfound := report_carried hbefore hz hrow hrowGid (hzcarries.trans hrowGid)
          refine hfree rowGid hrowGid (mem_matchedGids.mpr ⟨k, index_of_lt hafter hafterGids hk hi hzlt, _, hz, ?_⟩)
          rw [hfound]
          exact hrowGid
        · rintro rfl
          refine ⟨hprevious, hsource, fun other hother => ?_⟩
          rw [hgid] at hother
          cases hother
          exact hmatched
      have hnodup : (candidatesOf before (matchedGids ((reports before after).take i)) x.sourceInstanceId).Nodup := by
        refine List.Nodup.filter _ (hbefore.imp_of_mem fun {a b} ha _ hab heq => ?_)
        obtain ⟨g, hg⟩ := Option.ne_none_iff_exists'.mp (hbeforeGids a ha)
        exact hab g hg (heq ▸ hg)
      exact List.perm_singleton.mp ((List.perm_ext_iff_of_nodup hnodup (List.nodup_singleton previous)).mpr
        fun row => (hmem row).trans List.mem_singleton.symm)
    have hearly : identity = .matched previous := by
      have hidentity : identity = _ := (reports_getElem? hx).2
      rw [hidentity, identify_new hxgid (hxgid ▸ hnew), honly]
    exact ⟨i, j, hij, x, y, hearly ▸ hx, hy⟩

end

/-! ## The items -/

/-- What a round appends, where every candidate has a gid. -/
def reportedItems (r : VmObservation × Identity) : List VmDiffItem :=
  match r.2 with
  | .matched previous => (VmChange.changed previous r.1).map fun change =>
    diffItem change (some previous) (some r.1) none
  | .added => [diffItem .added none (some r.1) none]
  | .ambiguous candidates => [diffItem .ambiguousIdentity none (some r.1)
      (some (candidates.map fun row => row.gid.getD []).mergeSort)]

theorem reportItems_eq (hbeforeGids : AllGids before)
    (hr : r ∈ reports before after) : reportItems r.1 r.2 = .ok (reportedItems r) := by
  obtain ⟨i, hi⟩ := List.mem_iff_getElem?.mp hr
  have hidentity := (reports_getElem? hi).2
  obtain ⟨incoming, identity⟩ := r
  cases identity with
  | matched previous => rfl
  | added => rfl
  | ambiguous candidates =>
    have hgids : candidates.mapM (fun row => found row.gid VmDiffError.typeError)
        = .ok (candidates.map fun row => row.gid.getD []) := by
      refine mapM_eq_map fun row hrow => found_eq_ok.mpr ?_
      obtain ⟨gid, hgid⟩ := Option.ne_none_iff_exists'.mp
        (hbeforeGids row (identify_ambiguous hidentity.symm hrow))
      rw [hgid]
      rfl
    rw [reportItems, sortedGids, hgids]
    rfl

/-- All items, before they are sorted. -/
def allItems (before after : List VmObservation) : List VmDiffItem :=
  ((reports before after).map reportedItems).flatten
    ++ (removedRows before after).map fun row => diffItem .removed (some row) none none

/-- **What a comparison returns** if every prior occurrence has a gid. -/
theorem compare_eq (hbeforeGids : AllGids before) (after : List VmObservation) (version : Str) :
    ∃ diff, compareVmSnapshots before after version = .ok diff ∧ diff.items.Perm (allItems before after) := by
  have hreports : (reports before after).mapM (fun r => reportItems r.1 r.2)
      = .ok ((reports before after).map reportedItems) :=
    mapM_eq_map fun r hr => reportItems_eq hbeforeGids hr
  rw [compareVmSnapshots, hreports]
  exact ⟨_, rfl, List.mergeSort_perm _ _⟩

theorem changed_ne_removed {change : VmChange} (h : change ∈ VmChange.changed x y) : change ≠ .removed := by
  rintro rfl
  simp [VmChange.changed] at h

theorem reportedItems_ne_removed {item : VmDiffItem} (h : item ∈ reportedItems r) :
    item.changeType ≠ .removed := by
  obtain ⟨incoming, identity⟩ := r
  cases identity with
  | matched previous =>
    obtain ⟨change, hchange, rfl⟩ := List.mem_map.mp h
    exact changed_ne_removed hchange
  | added =>
    rw [List.mem_singleton.mp h]
    nofun
  | ambiguous candidates =>
    rw [List.mem_singleton.mp h]
    nofun

theorem mem_removedRows : row ∈ removedRows before after
    ↔ row ∈ before ∧ ∀ gid ∈ row.gid, gid ∉ matchedGids (reports before after) := by
  rw [removedRows, List.mem_filter, decide_eq_true_eq]
  rfl

theorem removed_iff (hbefore : DistinctGids before) (hbeforeGids : AllGids before) (hafterGids : AllGids after)
    (hrow : row ∈ before) : diffItem .removed (some row) none none ∈ allItems before after
      ↔ ∀ r ∈ reports before after, r.2 ≠ .matched row := by
  obtain ⟨gid, hgid⟩ := Option.ne_none_iff_exists'.mp (hbeforeGids row hrow)
  have hmem : diffItem .removed (some row) none none ∈ allItems before after ↔ row ∈ removedRows before after := by
    rw [allItems, List.mem_append]
    constructor
    · rintro (hin | hin)
      · obtain ⟨items, hitems, hin⟩ := List.mem_flatten.mp hin
        obtain ⟨r, -, rfl⟩ := List.mem_map.mp hitems
        exact absurd rfl (reportedItems_ne_removed hin)
      · obtain ⟨other, hother, heq⟩ := List.mem_map.mp hin
        have hsame : other.gid = row.gid := congrArg VmDiffItem.beforeOccurrenceGid heq
        rwa [← eq_of_gid hbefore (mem_removedRows.mp hother).1 hrow (hsame.trans hgid) hgid]
    · exact fun hin => Or.inr (List.mem_map_of_mem hin)
  rw [hmem, mem_removedRows, and_iff_right hrow]
  constructor
  · intro hfree r hr hmatched
    refine hfree gid hgid (List.mem_filterMap.mpr ⟨r, hr, ?_⟩)
    rw [hmatched]
    exact hgid
  · intro hnone other hother hin
    rw [hgid] at hother
    cases hother
    obtain ⟨⟨incoming, identity⟩, hr, hrgid⟩ := List.mem_filterMap.mp hin
    cases identity with
    | added => cases hrgid
    | ambiguous candidates => cases hrgid
    | matched previous =>
      obtain ⟨i, hi⟩ := List.mem_iff_getElem?.mp hr
      obtain ⟨-, hprevious, -⟩ := report_matched hafterGids hi
      refine hnone _ hr ?_
      rw [eq_of_gid hbefore hprevious hrow hrgid hgid]

/-! ## Comparisons that conserve occurrences -/

theorem not_matched_twice (hbefore : DistinctGids before) (hbeforeGids : AllGids before)
    (hafter : DistinctGids after) (hafterGids : AllGids after)
    (htakes : ∀ incoming ∈ after, ∀ previous ∈ before, ¬ Takes before after incoming previous) :
    (reports before after).Pairwise fun r s => ∀ row ∈ before, r.2 = .matched row → s.2 ≠ .matched row := by
  rw [List.pairwise_iff_getElem]
  intro i j hi hj hij row hrow hr hs
  have hfirst : (reports before after)[i]? = some ((reports before after)[i].1, .matched row) := by
    rw [List.getElem?_eq_getElem hi, ← hr]
  have hsecond : (reports before after)[j]? = some ((reports before after)[j].1, .matched row) := by
    rw [List.getElem?_eq_getElem hj, ← hs]
  exact htakes _ (report_matched hafterGids hfirst).1 row hrow
    (takes_of_matched_twice hbefore hbeforeGids hafter hafterGids hij hfirst hsecond)

/-- **Nothing is lost or doubled** where no occurrence takes what is another one's. -/
theorem conserves_of_not_takes (hbefore : DistinctGids before) (hbeforeGids : AllGids before)
    (hafter : DistinctGids after) (hafterGids : AllGids after)
    (htakes : ∀ incoming ∈ after, ∀ previous ∈ before, ¬ Takes before after incoming previous)
    {diff : VmDiff} (hitems : diff.items.Perm (allItems before after)) : Conserves before after diff where
  once := by
    rw [reports, identities_fst]
    exact ordered_perm after
  shown r hr := by
    refine ⟨_, reportItems_eq hbeforeGids hr, fun item hitem => hitems.mem_iff.mpr (List.mem_append_left _ ?_)⟩
    exact List.mem_flatten.mpr ⟨_, List.mem_map_of_mem hr, hitem⟩
  matchedOnce := not_matched_twice hbefore hbeforeGids hafter hafterGids htakes
  removed row hrow := by
    rw [hitems.mem_iff]
    exact removed_iff hbefore hbeforeGids hafterGids hrow
  carried r hr row hrow hsome hgid := by
    obtain ⟨gid, hrgid⟩ := Option.ne_none_iff_exists'.mp hsome
    obtain ⟨i, hi⟩ := List.mem_iff_getElem?.mp hr
    exact report_carried hbefore hi hrow (hgid.symm.trans hrgid) hrgid

theorem Conserves.not_twice {diff : VmDiff} (h : Conserves before after diff) {i j : ℕ} (hij : i < j)
    (hrow : row ∈ before) (hx : (reports before after)[i]? = some (x, .matched row)) :
    (reports before after)[j]? ≠ some (y, .matched row) := by
  intro hy
  obtain ⟨hi, hx⟩ := List.getElem?_eq_some_iff.mp hx
  obtain ⟨hj, hy⟩ := List.getElem?_eq_some_iff.mp hy
  exact List.pairwise_iff_getElem.mp h.matchedOnce i j hi hj hij row hrow (by rw [hx]) (by rw [hy])

/-- A snapshot whose occurrences have gids of their own does not differ from itself. -/
theorem sameAsItself_of_gids (hgids : DistinctGids rows) (hall : AllGids rows) :
    SameAsItself rows := by
  intro version
  obtain ⟨diff, hdiff, hitems⟩ := compare_eq hall rows version
  have hself : ∀ r ∈ reports rows rows, r.1 ∈ rows ∧ r.2 = .matched r.1 := by
    intro r hr
    obtain ⟨i, hi⟩ := List.mem_iff_getElem?.mp hr
    have hin := (ordered_perm rows).mem_iff.mp (List.mem_of_getElem? (reports_getElem? hi).1)
    obtain ⟨gid, hgid⟩ := Option.ne_none_iff_exists'.mp (hall r.1 hin)
    exact ⟨hin, report_carried hgids hi hin hgid hgid⟩
  have hfound : ((reports rows rows).map reportedItems).flatten = [] := by
    refine List.flatten_eq_nil_iff.mpr fun items hin => ?_
    obtain ⟨r, hr, rfl⟩ := List.mem_map.mp hin
    rw [reportedItems, (hself r hr).2]
    show (VmChange.changed r.1 r.1).map _ = []
    rw [VmChange.changed_self, List.map_nil]
  have hremoved : removedRows rows rows = [] := by
    refine List.eq_nil_iff_forall_not_mem.mpr fun row hin => ?_
    obtain ⟨hrow, hfree⟩ := mem_removedRows.mp hin
    obtain ⟨gid, hgid⟩ := Option.ne_none_iff_exists'.mp (hall row hrow)
    obtain ⟨i, hi⟩ := List.mem_iff_getElem?.mp ((ordered_perm rows).mem_iff.mpr hrow)
    obtain ⟨identity, hreport⟩ := exists_report rows hi
    refine hfree gid hgid (List.mem_filterMap.mpr ⟨_, List.mem_of_getElem? hreport, ?_⟩)
    rw [report_carried hgids hreport hrow hgid hgid]
    exact hgid
  refine ⟨diff, hdiff, List.perm_nil.mp ?_⟩
  rw [allItems, hfound, hremoved] at hitems
  exact hitems

theorem allGids_of_sameAsItself (hsame : SameAsItself rows) : AllGids rows := by
  intro row hrow hnone
  obtain ⟨diff, hdiff, hitems⟩ := hsame []
  obtain ⟨found, -, hdiff⟩ := bind_eq_ok.mp hdiff
  cases hdiff
  have hremoved : row ∈ removedRows rows rows := by
    rw [mem_removedRows, hnone]
    exact ⟨hrow, nofun⟩
  have hperm := List.mergeSort_perm (found.flatten ++ (removedRows rows rows).map fun row =>
    diffItem .removed (some row) none none) fun a b => decide (a.sortKey ≤ b.sortKey)
  exact List.eq_nil_iff_forall_not_mem.mp hitems _
    (hperm.mem_iff.mpr (List.mem_append_right _ (List.mem_map_of_mem hremoved)))

/-- **A comparison conserves occurrences, and snapshots are the same as themselves**, exactly if every
occurrence has a gid and no incoming one takes a prior one that another one carries. -/
theorem diff_conserves_iff (hbefore : DistinctGids before) (hafter : DistinctGids after) (version : Str) :
    ((∃ diff, compareVmSnapshots before after version = .ok diff ∧ Conserves before after diff)
        ∧ SameAsItself before ∧ SameAsItself after)
      ↔ (AllGids before ∧ AllGids after)
        ∧ ∀ incoming ∈ after, ∀ previous ∈ before, ¬ Takes before after incoming previous := by
  constructor
  · rintro ⟨⟨diff, -, hconserves⟩, hsameBefore, hsameAfter⟩
    have hbeforeGids := allGids_of_sameAsItself hsameBefore
    have hafterGids := allGids_of_sameAsItself hsameAfter
    refine ⟨⟨hbeforeGids, hafterGids⟩, fun incoming hincoming previous hprevious htakes => ?_⟩
    obtain ⟨i, j, hij, y, z, hy, hz⟩ := matched_twice_of_takes hbefore hbeforeGids hafter hafterGids hincoming
      hprevious htakes
    exact hconserves.not_twice hij hprevious hy hz
  · rintro ⟨⟨hbeforeGids, hafterGids⟩, htakes⟩
    obtain ⟨diff, hdiff, hitems⟩ := compare_eq hbeforeGids after version
    exact ⟨⟨diff, hdiff, conserves_of_not_takes hbefore hbeforeGids hafter hafterGids htakes hitems⟩,
      sameAsItself_of_gids hbefore hbeforeGids, sameAsItself_of_gids hafter hafterGids⟩

def observed (gid source : Str) : VmObservation where
  occurrenceGid := gid
  sourceInstanceId := source
  sessionGid := []
  kind := .part
  modelNumber := []
  bomLine := []
  revision := []
  catiaOccurrenceName := []
  normalizedTransform := []
  parentPath := []
  rawTransform := []
  representationLocations := []
  removed := false
  orderIndex := 0
  geometryHash := []
  attributes := []

def onePart : List VmObservation := [observed "2".toList "x".toList]

def newSource : List VmObservation := [observed "1".toList "y".toList, observed "2".toList "x".toList]

theorem diff_conserves_newSource :
    (∃ diff, compareVmSnapshots onePart newSource [] = .ok diff ∧ Conserves onePart newSource diff)
      ∧ SameAsItself onePart ∧ SameAsItself newSource :=
  (diff_conserves_iff (by decide) (by decide) []).mpr ⟨by decide, by decide⟩

/-- The part, and a new one of the same source with a smaller gid. -/
def sameSource : List VmObservation := [observed "1".toList "x".toList, observed "2".toList "x".toList]

/-- The new part takes the prior one, which is matched again. -/
theorem not_conserved_sameSource :
    (DistinctGids onePart ∧ AllGids onePart) ∧ (DistinctGids sameSource ∧ AllGids sameSource)
      ∧ ¬ ∃ diff, compareVmSnapshots onePart sameSource [] = .ok diff ∧ Conserves onePart sameSource diff := by
  refine ⟨by decide, by decide, ?_⟩
  rintro ⟨diff, -, hconserves⟩
  have htakes : Takes onePart sameSource (observed "1".toList "x".toList) (observed "2".toList "x".toList) := by
    decide
  obtain ⟨i, j, hij, y, z, hy, hz⟩ := matched_twice_of_takes (by decide) (by decide) (by decide) (by decide)
    List.mem_cons_self List.mem_cons_self htakes
  exact hconserves.not_twice hij List.mem_cons_self hy hz

end Ai00.Simulation
