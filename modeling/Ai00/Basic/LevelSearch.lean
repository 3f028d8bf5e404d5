import Mathlib

/-! # Search by levels

From a root, a search asks for the children of a whole level at once and goes on with those it has not
found yet. It finds what the root leads to, each once (`mem_search`, `search_nodup`); the search ends,
as each level but the last finds something new.
-/

namespace Ai00.LevelSearch

variable {ν κ : Type} [DecidableEq κ] (key : ν → κ) (children : List ν → List ν)

/-- A row is put to what was found, and to the next level, if it is new. -/
def visit (state : List ν × List ν) (a : ν) : List ν × List ν :=
  if key a ∈ state.1.map key then state else (state.1 ++ [a], state.2 ++ [a])

def search : ℕ → List ν → List ν → List ν
  | 0, found, _ => found
  | _ + 1, found, [] => found
  | fuel + 1, found, a :: pending =>
    let state := (children (a :: pending)).foldl (visit key) (found, [])
    search fuel state.1 state.2

variable {key} {found pending rows : List ν} {a : ν}

/-! ## One level -/

theorem foldl_visit : ∃ new, rows.foldl (visit key) (found, pending) = (found ++ new, pending ++ new)
    ∧ (∀ b ∈ new, b ∈ rows) ∧ (∀ b ∈ rows, key b ∈ (found ++ new).map key)
    ∧ ((found.map key).Nodup → ((found ++ new).map key).Nodup) := by
  induction rows generalizing found pending with
  | nil =>
    refine ⟨[], by simp, (fun b hb => nomatch hb), (fun b hb => nomatch hb), fun h => ?_⟩
    rwa [List.append_nil]
  | cons b rows ih =>
    rw [List.foldl_cons, visit]
    split_ifs with hseen
    · obtain ⟨new, hfold, hrows, hall, hnodup⟩ := @ih found pending
      refine ⟨new, hfold, fun c hc => .tail _ (hrows c hc), fun c hc => ?_, hnodup⟩
      rcases List.mem_cons.mp hc with rfl | hc
      · rw [List.map_append]
        exact List.mem_append_left _ hseen
      · exact hall c hc
    · obtain ⟨new, hfold, hrows, hall, hnodup⟩ := @ih (found ++ [b]) (pending ++ [b])
      have happend : found ++ [b] ++ new = found ++ b :: new := by simp
      refine ⟨b :: new, ?_, fun c hc => ?_, fun c hc => ?_, fun h => ?_⟩
      · rw [hfold]
        simp
      · rcases List.mem_cons.mp hc with rfl | hc
        · exact List.mem_cons_self
        · exact .tail _ (hrows c hc)
      · rw [← happend]
        rcases List.mem_cons.mp hc with rfl | hc
        · simp
        · exact hall c hc
      · rw [← happend]
        refine hnodup ?_
        rw [List.map_append, List.map_singleton]
        refine h.append (List.nodup_singleton _) fun k hk hk' => hseen ?_
        rwa [← List.mem_singleton.mp hk']

/-! ## All levels -/

/-- What a search was given and where it stands: everything that was found comes from the root, and its
children were found unless it is in the level that comes next. -/
structure Sound (child : ν → ν → Prop) (key : ν → κ) (root : ν) (found pending : List ν) : Prop where
  begun : root ∈ found
  reached : ∀ a ∈ found, Relation.ReflTransGen child root a
  level : ∀ a ∈ pending, a ∈ found
  closed : ∀ a ∈ found, a ∉ pending → ∀ b, child a b → b ∈ found
  nodup : (found.map key).Nodup

variable {child : ν → ν → Prop} {root : ν}

omit [DecidableEq κ] in
theorem Sound.start : Sound child key root [root] [root] where
  begun := List.mem_singleton_self root
  reached b hb := by
    rw [List.mem_singleton.mp hb]
  level b hb := hb
  closed b hb hnot := absurd hb hnot
  nodup := List.nodup_singleton _

/-- Rows that the root leads to are told by their keys. -/
def Told (child : ν → ν → Prop) (key : ν → κ) (root : ν) : Prop :=
  ∀ a b, Relation.ReflTransGen child root a → Relation.ReflTransGen child root b → key a = key b → a = b

variable {children}

theorem Sound.next (htold : Told child key root)
    (hchildren : ∀ level b, b ∈ children level ↔ ∃ a ∈ level, child a b)
    (h : Sound child key root found pending) :
    ∃ new, (children pending).foldl (visit key) (found, []) = (found ++ new, new)
      ∧ Sound child key root (found ++ new) new := by
  obtain ⟨new, hfold, hrows, hall, hnodup⟩ := @foldl_visit ν κ _ key found [] (children pending)
  have hreached : ∀ b ∈ children pending, Relation.ReflTransGen child root b := by
    intro b hb
    obtain ⟨c, hc, hchild⟩ := (hchildren pending b).mp hb
    exact (h.reached c (h.level c hc)).tail hchild
  have hfound : ∀ b ∈ found ++ new, Relation.ReflTransGen child root b := by
    intro b hb
    rcases List.mem_append.mp hb with hb | hb
    · exact h.reached b hb
    · exact hreached b (hrows b hb)
  refine ⟨new, hfold, List.mem_append_left _ h.begun, hfound, fun b hb => List.mem_append_right _ hb, ?_,
    hnodup h.nodup⟩
  intro b hb hnot c hchild
  have hold : b ∈ found := (List.mem_append.mp hb).resolve_right hnot
  by_cases hpending : b ∈ pending
  · have hin : c ∈ children pending := (hchildren pending c).mpr ⟨b, hpending, hchild⟩
    obtain ⟨d, hd, hkey⟩ := List.mem_map.mp (hall c hin)
    -- the row of this key that was found is the child
    have heq : d = c := htold d c (hfound d hd) (hreached c hin) hkey
    exact heq ▸ hd
  · exact List.mem_append_left _ (h.closed b hold hpending c hchild)

omit [DecidableEq κ] in
theorem Sound.complete (h : Sound child key root found []) (b : ν) :
    b ∈ found ↔ Relation.ReflTransGen child root b := by
  refine ⟨h.reached b, fun hreach => ?_⟩
  induction hreach with
  | refl => exact h.begun
  | tail _ hchild ih => exact h.closed _ ih List.not_mem_nil _ hchild

theorem Sound.search (htold : Told child key root)
    (hchildren : ∀ level b, b ∈ children level ↔ ∃ a ∈ level, child a b)
    {all : List ν} (hall : ∀ b, Relation.ReflTransGen child root b → b ∈ all)
    (h : Sound child key root found pending) {fuel : ℕ} (hfuel : all.length + 1 ≤ found.length + fuel) :
    Sound child key root (search key children fuel found pending) [] := by
  have hbound : ∀ {found pending : List ν}, Sound child key root found pending → found.length ≤ all.length := by
    intro found pending hsound
    have hnodup : found.Nodup := List.Nodup.of_map _ hsound.nodup
    exact (hnodup.subperm fun b hb => hall b (hsound.reached b hb)).length_le
  induction fuel generalizing found pending with
  | zero =>
    have := hbound h
    omega
  | succ fuel ih =>
    cases pending with
    | nil => exact h
    | cons b pending =>
      obtain ⟨new, hfold, hlevel⟩ := h.next htold hchildren
      rw [LevelSearch.search, hfold]
      cases new with
      | nil =>
        cases fuel with
        | zero => exact hlevel
        | succ fuel => exact hlevel
      | cons c new =>
        refine ih hlevel ?_
        simp only [List.length_append, List.length_cons]
        omega

/-- **A search by levels** finds what the root leads to, each once. -/
theorem search_complete (htold : Told child key root)
    (hchildren : ∀ level b, b ∈ children level ↔ ∃ a ∈ level, child a b)
    {all : List ν} (hall : ∀ b, Relation.ReflTransGen child root b → b ∈ all) {fuel : ℕ}
    (hfuel : all.length ≤ fuel) :
    (∀ b, b ∈ search key children fuel [root] [root] ↔ Relation.ReflTransGen child root b)
      ∧ ((search key children fuel [root] [root]).map key).Nodup := by
  have hsound := @Sound.search ν κ _ key children [root] [root] child root htold hchildren all hall .start fuel
    (by simpa [Nat.add_comm] using hfuel)
  exact ⟨hsound.complete, hsound.nodup⟩

end Ai00.LevelSearch
