import Ai00.Basic.Ancestors

/-! # Walking a parent function

`parent a` is the parent of `a`, if it has one. `climb` walks from an element to its ancestors until
it meets a target, at most `fuel` steps; over an acyclic parent function a fuel that covers the
ancestors is enough, and the walk meets the target exactly where it is an ancestor
(`climb_eq_some`). `closure` collects the elements of a list that descend from some of them, in
passes over the list until one adds nothing. `search` goes down from the roots of a list with a queue
of elements, and meets those that lead up to a root (`search_roots`).
-/

namespace Ai00.Parents

open Relation Ancestors

variable {α : Type} {parent parent' : α → Option α} {a b target : α}

/-- The relation of a parent function. -/
def Edge (parent : α → Option α) (a b : α) : Prop := parent a = some b

/-! ## Walking up -/

section

variable [DecidableEq α]

/-- Whether a walk up meets the target; none where the fuel is used up first. -/
def climb (parent : α → Option α) (target : α) : ℕ → Option α → Option Bool
  | _, none => some false
  | 0, some _ => none
  | fuel + 1, some a => if a = target then some true else climb parent target fuel (parent a)

/-- **A walk over an acyclic parent function ends** when the fuel covers the elements it can meet. -/
theorem climb_ne_none (hacyclic : Acyclic (Edge parent)) {fuel : ℕ} {met : List α} {a : α}
    (hmet : ∀ b, ReflTransGen (Edge parent) a b → b ∈ met) (hlength : met.length ≤ fuel) :
    climb parent target fuel (some a) ≠ none := by
  induction fuel generalizing a met with
  | zero =>
    have hnil : met = [] := List.length_eq_zero_iff.mp (Nat.le_zero.mp hlength)
    have ha := hmet a .refl
    rw [hnil] at ha
    cases ha
  | succ fuel ih =>
    rw [climb]
    split_ifs with heq
    · simp
    · cases hparent : parent a with
      | none => cases fuel <;> simp [climb]
      | some p =>
        have hedge : Edge parent a p := hparent
        -- the walk does not come back to `a`
        have hrest : ∀ b, ReflTransGen (Edge parent) p b → b ∈ met.erase a := by
          intro b hb
          have hne : b ≠ a := by
            rintro rfl
            exact hacyclic b (.head' hedge hb)
          exact (List.mem_erase_of_ne hne).mpr (hmet b (.head hedge hb))
        have herase := List.length_erase_of_mem (hmet a .refl)
        exact ih hrest (by omega)

/-- A walk that ends meets the target exactly where the target is reached. -/
theorem climb_eq_some {fuel : ℕ} {found : Bool}
    (h : climb parent target fuel (some a) = some found) :
    found = true ↔ ReflTransGen (Edge parent) a target := by
  induction fuel generalizing a with
  | zero => cases h
  | succ fuel ih =>
    rw [climb] at h
    split_ifs at h with heq
    · cases h
      exact iff_of_true rfl (heq ▸ .refl)
    · cases hparent : parent a with
      | none =>
        have hfalse : found = false := by
          rw [hparent] at h
          cases fuel <;> simpa [climb] using h.symm
        refine iff_of_false (by simp [hfalse]) fun hreach => ?_
        rcases ReflTransGen.cases_head hreach with hsame | ⟨b, hedge, -⟩
        · exact heq hsame
        · rw [Edge, hparent] at hedge
          cases hedge
      | some p =>
        rw [hparent] at h
        refine (ih h).trans ⟨fun hreach => .head hparent hreach, fun hreach => ?_⟩
        rcases ReflTransGen.cases_head hreach with hsame | ⟨b, hedge, hrest⟩
        · exact absurd hsame heq
        · rw [Edge, hparent] at hedge
          cases hedge
          exact hrest

end

/-! ## Collecting descendants -/

section

variable [DecidableEq α] {β : Type}

def collect (key : β → α) (up : β → Option α) (rows : List β) (found : List α) : List α :=
  rows.foldl (fun found row =>
    if (∃ p ∈ up row, p ∈ found) ∧ key row ∉ found then found ++ [key row] else found) found

/-- Passes until one adds nothing; none where the fuel is used up first. -/
def closure (key : β → α) (up : β → Option α) (rows : List β) : ℕ → List α → Option (List α)
  | 0, _ => none
  | fuel + 1, found =>
    if (collect key up rows found).length = found.length then some found
    else closure key up rows fuel (collect key up rows found)

theorem collect_grows (key : β → α) (up : β → Option α) (rows : List β) (found : List α) :
    found <+: collect key up rows found := by
  unfold collect
  induction rows generalizing found with
  | nil => exact List.prefix_refl _
  | cons row rows ih =>
    rw [List.foldl_cons]
    refine List.IsPrefix.trans ?_ (ih _)
    split_ifs
    · exact List.prefix_append _ _
    · exact List.prefix_refl _

variable {key : β → α} {up : β → Option α} {rows : List β} {found result : List α}

theorem mem_collect {a : α} (h : a ∈ collect key up rows found) :
    a ∈ found ∨ ∃ row ∈ rows, key row = a ∧ ∃ p ∈ up row, p ∈ collect key up rows found := by
  unfold collect at h ⊢
  induction rows generalizing found with
  | nil => exact .inl h
  | cons row rows ih =>
    rw [List.foldl_cons] at h ⊢
    rcases ih h with hin | ⟨r, hr, hkey, hparent⟩
    · by_cases hadd : (∃ p ∈ up row, p ∈ found) ∧ key row ∉ found
      · rw [if_pos hadd] at hin
        rcases List.mem_append.mp hin with hin | hin
        · exact .inl hin
        · obtain ⟨p, hp, hfound⟩ := hadd.1
          refine .inr ⟨row, List.mem_cons_self, (List.mem_singleton.mp hin).symm, p, hp, ?_⟩
          rw [if_pos hadd]
          exact (collect_grows key up rows (found ++ [key row])).subset
            (List.mem_append_left _ hfound)
      · rw [if_neg hadd] at hin
        exact .inl hin
    · exact .inr ⟨r, List.mem_cons_of_mem _ hr, hkey, hparent⟩

theorem collect_nodup (h : found.Nodup) : (collect key up rows found).Nodup := by
  unfold collect
  induction rows generalizing found with
  | nil => exact h
  | cons row rows ih =>
    rw [List.foldl_cons]
    refine ih ?_
    split_ifs with hadd
    · exact List.nodup_append.mpr ⟨h, List.nodup_singleton _, fun a ha b hb heq =>
        hadd.2 (by rw [List.mem_singleton] at hb; rw [← hb, ← heq]; exact ha)⟩
    · exact h

/-- A pass that adds nothing finds every row whose parent is collected. -/
theorem closed_of_collect (h : collect key up rows found = found) {row : β} (hrow : row ∈ rows)
    {p : α} (hp : p ∈ up row) (hin : p ∈ found) : key row ∈ found := by
  suffices hmem : ∀ start, p ∈ start → key row ∈ collect key up rows start by
    rw [← h]
    exact hmem found hin
  clear h hin
  intro start hin
  unfold collect
  induction rows generalizing start with
  | nil => cases hrow
  | cons r rows ih =>
    rw [List.foldl_cons]
    rcases List.mem_cons.mp hrow with rfl | hrow
    · refine (collect_grows key up rows _).subset ?_
      split_ifs with hadd
      · exact List.mem_append_right _ (List.mem_singleton_self _)
      · by_contra hnot
        exact hadd ⟨⟨p, hp, hin⟩, hnot⟩
    · refine ih hrow _ ?_
      split_ifs
      · exact List.mem_append_left _ hin
      · exact hin

/-- **What the passes end with** holds what they start with, is closed under the rows, and holds
nothing else but keys of rows. -/
theorem closure_eq_some {fuel : ℕ} (h : closure key up rows fuel found = some result) :
    found <+: result ∧ (∀ row ∈ rows, ∀ p ∈ up row, p ∈ result → key row ∈ result)
      ∧ ∀ a ∈ result, a ∈ found ∨ a ∈ rows.map key := by
  induction fuel generalizing found with
  | zero => cases h
  | succ fuel ih =>
    rw [closure] at h
    split_ifs at h with hlength
    · obtain rfl : found = result := Option.some.inj h
      have hsame : found = collect key up rows found :=
        (collect_grows key up rows found).eq_of_length hlength.symm
      exact ⟨List.prefix_refl _, fun row hrow p hp hin =>
        closed_of_collect hsame.symm hrow hp hin, fun a ha => .inl ha⟩
    · obtain ⟨hgrows, hclosed, honly⟩ := ih h
      refine ⟨(collect_grows key up rows found).trans hgrows, hclosed, fun a ha => ?_⟩
      rcases honly a ha with hin | hkey
      · rcases mem_collect hin with hin | ⟨row, hrow, rfl, -⟩
        · exact .inl hin
        · exact .inr (List.mem_map_of_mem hrow)
      · exact .inr hkey

/-- **The passes end** when the fuel is more than the keys still to collect. -/
theorem closure_ne_none {fuel : ℕ} {all : List α} (hnodup : found.Nodup) (hfound : found ⊆ all)
    (hkeys : rows.map key ⊆ all) (hfuel : all.length < fuel + found.length) :
    closure key up rows fuel found ≠ none := by
  induction fuel generalizing found with
  | zero =>
    have hle := (hnodup.subperm hfound).length_le
    omega
  | succ fuel ih =>
    rw [closure]
    split_ifs with hlength
    · simp
    · have hle := (collect_grows key up rows found).length_le
      refine ih (collect_nodup hnodup) (fun a ha => ?_) (by omega)
      rcases mem_collect ha with hin | ⟨row, hrow, rfl, -⟩
      · exact hfound hin
      · exact hkeys (List.mem_map_of_mem hrow)

end

/-! ## Searching down from the roots -/

section

variable {β : Type}

def roots (key : β → α) (up : β → Option α) (rows : List β) : List α :=
  (rows.filter fun row => up row = none).map key

/-- What is met from a queue, after what was visited; none where the fuel is used up first. -/
def search (children : α → List α) : ℕ → List α → List α → Option (List α)
  | _, [], visited => some visited
  | 0, _ :: _, _ => none
  | fuel + 1, a :: queue, visited => search children fuel (queue ++ children a) (a :: visited)

/-- The parent relation of some rows. -/
def Up (key : β → α) (up : β → Option α) (rows : List β) (a b : α) : Prop :=
  ∃ row ∈ rows, key row = a ∧ up row = some b

/-- An element leads up to a root. -/
def Rooted (key : β → α) (up : β → Option α) (rows : List β) (a : α) : Prop :=
  ∃ row ∈ rows, up row = none ∧ ReflTransGen (Up key up rows) a (key row)

variable {key : β → α} {up : β → Option α} {rows : List β} {queue visited : List α}

theorem mem_roots : a ∈ roots key up rows ↔ ∃ row ∈ rows, up row = none ∧ key row = a := by
  simp [roots, and_assoc]

theorem roots_nodup (h : (rows.map key).Nodup) : (roots key up rows).Nodup :=
  h.sublist (List.filter_sublist.map key)

theorem row_eq_of_key (h : (rows.map key).Nodup) {row row' : β} (hrow : row ∈ rows)
    (hrow' : row' ∈ rows) (heq : key row = key row') : row = row' :=
  List.inj_on_of_nodup_map h hrow hrow' heq

/-- What holds of a search under way. -/
structure Searching (key : β → α) (up : β → Option α) (rows : List β) (queue visited : List α) :
    Prop where
  nodup : (visited ++ queue).Nodup
  rooted : ∀ a ∈ visited ++ queue, Rooted key up rows a
  /-- What is met is a root or has its parent among the visited. -/
  parents : ∀ row ∈ rows, key row ∈ visited ++ queue → ∀ p ∈ up row, p ∈ visited
  rootsMet : ∀ row ∈ rows, up row = none → key row ∈ visited ++ queue
  childrenMet : ∀ row ∈ rows, ∀ p ∈ up row, p ∈ visited → key row ∈ visited ++ queue

theorem Rooted.mem_keys (h : Rooted key up rows a) : a ∈ rows.map key := by
  obtain ⟨root, hroot, -, hreach⟩ := h
  rcases ReflTransGen.cases_head hreach with rfl | ⟨b, ⟨row, hrow, rfl, -⟩, -⟩
  · exact List.mem_map_of_mem hroot
  · exact List.mem_map_of_mem hrow

theorem Searching.start (h : (rows.map key).Nodup) : Searching key up rows (roots key up rows) [] where
  nodup := roots_nodup h
  rooted a ha := by
    obtain ⟨row, hrow, hup, rfl⟩ := mem_roots.mp ha
    exact ⟨row, hrow, hup, .refl⟩
  parents row hrow hin p hp := by
    obtain ⟨root, hroot, hup, heq⟩ := mem_roots.mp hin
    obtain rfl := row_eq_of_key h hroot hrow heq
    rw [hup] at hp
    cases hp
  rootsMet row hrow hup := mem_roots.mpr ⟨row, hrow, hup, rfl⟩
  childrenMet row hrow p hp hin := by cases hin

/-- Where the queue is empty everything that leads up to a root was visited. -/
theorem mem_of_searched (h : Searching key up rows [] visited) (a : α) :
    a ∈ visited ↔ Rooted key up rows a := by
  have hnil : visited ++ [] = visited := List.append_nil _
  constructor
  · exact fun ha => h.rooted a (hnil.symm ▸ ha)
  · rintro ⟨root, hroot, hup, hreach⟩
    induction hreach using ReflTransGen.head_induction_on with
    | refl => exact hnil ▸ h.rootsMet root hroot hup
    | head hstep _ ih =>
      obtain ⟨row, hrow, rfl, hparent⟩ := hstep
      exact hnil ▸ h.childrenMet row hrow _ hparent ih

variable [DecidableEq α]

def children (key : β → α) (up : β → Option α) (rows : List β) (a : α) : List α :=
  (rows.filter fun row => up row = some a).map key

theorem mem_children : b ∈ children key up rows a ↔ ∃ row ∈ rows, up row = some a ∧ key row = b := by
  simp [children, and_assoc]

theorem children_nodup (h : (rows.map key).Nodup) : (children key up rows a).Nodup :=
  h.sublist (List.filter_sublist.map key)

theorem Searching.next (hkeys : (rows.map key).Nodup)
    (h : Searching key up rows (a :: queue) visited) :
    Searching key up rows (queue ++ children key up rows a) (a :: visited) := by
  have hperm : ((a :: visited) ++ (queue ++ children key up rows a)).Perm
      ((visited ++ a :: queue) ++ children key up rows a) := by
    rw [← List.append_assoc]
    exact (List.perm_middle.symm).append_right _
  have hnot : a ∉ visited := by
    have hnodup := List.nodup_append.mp h.nodup
    exact fun ha => hnodup.2.2 a ha a List.mem_cons_self rfl
  have hin : a ∈ visited ++ a :: queue := by simp
  refine ⟨hperm.nodup_iff.mpr (List.nodup_append.mpr ⟨h.nodup, children_nodup hkeys, ?_⟩), ?_, ?_, ?_, ?_⟩
  · -- the parent of a child was not visited, so that the child was not met
    rintro b hb c hc rfl
    obtain ⟨row, hrow, hup, rfl⟩ := mem_children.mp hc
    exact hnot (h.parents row hrow hb a hup)
  · intro b hb
    rcases List.mem_append.mp (hperm.mem_iff.mp hb) with hb | hb
    · exact h.rooted b hb
    · obtain ⟨row, hrow, hup, rfl⟩ := mem_children.mp hb
      obtain ⟨root, hroot, hnone, hreach⟩ := h.rooted a hin
      exact ⟨root, hroot, hnone, .head ⟨row, hrow, rfl, hup⟩ hreach⟩
  · intro row hrow hmet p hp
    rcases List.mem_append.mp (hperm.mem_iff.mp hmet) with hmet | hmet
    · exact List.mem_cons_of_mem _ (h.parents row hrow hmet p hp)
    · obtain ⟨child, hchild, hup, heq⟩ := mem_children.mp hmet
      obtain rfl := row_eq_of_key hkeys hchild hrow heq
      rw [hup] at hp
      cases hp
      exact List.mem_cons_self
  · exact fun row hrow hup => hperm.mem_iff.mpr (List.mem_append_left _ (h.rootsMet row hrow hup))
  · intro row hrow p hp hpin
    refine hperm.mem_iff.mpr (List.mem_append.mpr ?_)
    rcases List.mem_cons.mp hpin with rfl | hpin
    · exact Or.inr (mem_children.mpr ⟨row, hrow, hp, rfl⟩)
    · exact Or.inl (h.childrenMet row hrow p hp hpin)

/-- **A search from the roots ends**, and meets what leads up to a root. -/
theorem search_of_searching (hkeys : (rows.map key).Nodup) {fuel : ℕ}
    (h : Searching key up rows queue visited) (hfuel : rows.length ≤ fuel + visited.length) :
    ∃ met, search (children key up rows) fuel queue visited = some met
      ∧ ∀ a, a ∈ met ↔ Rooted key up rows a := by
  induction fuel generalizing queue visited with
  | zero =>
    cases queue with
    | nil => exact ⟨visited, rfl, mem_of_searched h⟩
    | cons a queue =>
      have hsub : visited ++ a :: queue ⊆ rows.map key := fun b hb => (h.rooted b hb).mem_keys
      have hle := (h.nodup.subperm hsub).length_le
      rw [List.length_append, List.length_cons, List.length_map] at hle
      omega
  | succ fuel ih =>
    cases queue with
    | nil => exact ⟨visited, rfl, mem_of_searched h⟩
    | cons a queue =>
      have hfuel' : rows.length ≤ fuel + (a :: visited).length := by
        rw [List.length_cons]
        omega
      exact ih (h.next hkeys) hfuel'

theorem search_roots (hkeys : (rows.map key).Nodup) :
    ∃ met, search (children key up rows) rows.length (roots key up rows) [] = some met
      ∧ ∀ a, a ∈ met ↔ Rooted key up rows a :=
  search_of_searching hkeys (.start hkeys) (Nat.le_add_right _ _)

end

end Ai00.Parents
