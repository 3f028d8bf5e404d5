import Mathlib

/-! # Numbered lists

The items of a list get consecutive numbers from a first one on, and are found by a key. Where
the keys differ, the number of a key is that of its item (`number?_of_mem`), different keys have
different numbers (`number?_inj`), and rows written under numbers that no older row has are found
again under them (`find?_numbered`).
-/

namespace Ai00.Numbering

variable {α κ ρ β : Type} [DecidableEq κ] {key : α → κ} {l : List α} {first n : Nat} {k k' : κ}
  {e : α × Nat}

def number? (key : α → κ) (l : List α) (first : Nat) (k : κ) : Option Nat :=
  (((l.zipIdx first).map (fun e => (key e.1, e.2))).find? (·.1 == k)).map Prod.snd

omit [DecidableEq κ] in
theorem first_le (he : e ∈ l.zipIdx first) : first ≤ e.2 := (List.mem_zipIdx he).1

omit [DecidableEq κ] in
theorem lt_first_add (he : e ∈ l.zipIdx first) : e.2 < first + l.length := (List.mem_zipIdx he).2.1

omit [DecidableEq κ] in
theorem exists_mem_zipIdx {a : α} (h : a ∈ l) (first : Nat) : ∃ e ∈ l.zipIdx first, e.1 = a := by
  rw [← List.zipIdx_map_fst first l] at h
  exact List.mem_map.mp h

theorem nodup_map_zipIdx {f : α × Nat → β} (l : List α) (first : Nat)
    (h : ∀ a b, f a = f b → a.2 = b.2) : ((l.zipIdx first).map f).Nodup := by
  have hnumbers : ((l.zipIdx first).map Prod.snd).Nodup := by
    rw [List.zipIdx_map_snd]
    exact List.nodup_range'
  refine (hnumbers.of_map _).map_on fun a ha b hb hab => ?_
  exact List.inj_on_of_nodup_map hnumbers ha hb (h a b hab)

theorem eq_of_number {e e' : α × Nat} (he : e ∈ l.zipIdx first) (he' : e' ∈ l.zipIdx first)
    (h : e.2 = e'.2) : e = e' :=
  List.inj_on_of_nodup_map (nodup_map_zipIdx (f := Prod.snd) l first fun _ _ => id) he he' h

theorem exists_of_number? (h : number? key l first k = some n) :
    ∃ e ∈ l.zipIdx first, key e.1 = k ∧ e.2 = n := by
  unfold number? at h
  obtain ⟨pair, hfind, rfl⟩ := Option.map_eq_some_iff.mp h
  obtain ⟨e, he, rfl⟩ := List.mem_map.mp (List.mem_of_find?_eq_some hfind)
  exact ⟨e, he, by simpa using List.find?_some hfind, rfl⟩

theorem number?_isSome_iff (first : Nat) : (number? key l first k).isSome ↔ k ∈ l.map key := by
  have hkeys : ((l.zipIdx first).map (fun e => (key e.1, e.2))).map Prod.fst = l.map key := by
    rw [List.map_map]
    calc (l.zipIdx first).map (Prod.fst ∘ fun e => (key e.1, e.2))
        = ((l.zipIdx first).map Prod.fst).map key := by rw [List.map_map]; rfl
      _ = l.map key := by rw [List.zipIdx_map_fst]
  rw [number?, Option.isSome_map, List.find?_isSome, ← hkeys, List.mem_map]
  simp

/-- **The number of a key** is that of its item. -/
theorem number?_of_mem (hkeys : (l.map key).Nodup) (he : e ∈ l.zipIdx first) :
    number? key l first (key e.1) = some e.2 := by
  have hmem : key e.1 ∈ l.map key := by
    refine List.mem_map_of_mem ?_
    exact List.fst_mem_of_mem_zipIdx he
  obtain ⟨n, hn⟩ := Option.isSome_iff_exists.mp ((number?_isSome_iff first).mpr hmem)
  obtain ⟨e', he', hkey, rfl⟩ := exists_of_number? hn
  rw [hn, Option.some.injEq]
  have hidx := (List.mem_zipIdx he).2.2
  have hidx' := (List.mem_zipIdx he').2.2
  have hfirst := first_le he
  have hfirst' := first_le he'
  have hlast := lt_first_add he
  have hlast' := lt_first_add he'
  have hindex : e.2 - first < (l.map key).length := by
    rw [List.length_map]
    omega
  have hindex' : e'.2 - first < (l.map key).length := by
    rw [List.length_map]
    omega
  have hsame : (l.map key)[e'.2 - first] = (l.map key)[e.2 - first] := by
    rw [List.getElem_map, List.getElem_map, ← hidx, ← hidx', hkey]
  have hnumber := hkeys.getElem_inj_iff.mp hsame
  omega

theorem number?_inj (h : number? key l first k = some n) (h' : number? key l first k' = some n) :
    k = k' := by
  obtain ⟨e, he, rfl, hn⟩ := exists_of_number? h
  obtain ⟨e', he', rfl, hn'⟩ := exists_of_number? h'
  rw [eq_of_number he he' (hn.trans hn'.symm)]

/-- **A row under a new number** is found again. -/
theorem find?_numbered {rowKey : ρ → Nat} {f : α × Nat → ρ} {rows : List ρ} (shift : Nat)
    (hkey : ∀ e, rowKey (f e) = e.2 + shift) (hold : ∀ r ∈ rows, rowKey r < first)
    (he : e ∈ l.zipIdx first) :
    (rows ++ (l.zipIdx first).map f).find? (fun r => rowKey r == e.2 + shift) = some (f e) := by
  have hnone : rows.find? (fun r => rowKey r == e.2 + shift) = none := by
    refine List.find?_eq_none.mpr fun r hr => ?_
    have hlt := hold r hr
    have hle := first_le he
    simp only [beq_iff_eq]
    omega
  rw [List.find?_append, hnone, Option.none_or, List.find?_map]
  obtain ⟨e', hfind⟩ : ∃ e', (l.zipIdx first).find?
      ((fun r => rowKey r == e.2 + shift) ∘ f) = some e' := by
    rw [← Option.isSome_iff_exists, List.find?_isSome]
    exact ⟨e, he, by simp [hkey]⟩
  have hnumber : e'.2 = e.2 := by
    have hfound := List.find?_some hfind
    simpa [hkey] using hfound
  rw [hfind, eq_of_number (List.mem_of_find?_eq_some hfind) he hnumber]
  rfl

end Ai00.Numbering
