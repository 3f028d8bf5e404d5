import Ai00.Basic.Checks
import Ai00.Basic.KeyedRows

/-! # Completing rows by what they lack

Expected rows are compared with actual ones of the same keys. `Reconciled` says that they agree key by key. Where
the actual rows lack some, each of these is made and added, and the others may be extended; the result is
reconciled exactly if what was made and what was extended agrees (`reconciled_complete_iff`).
-/

namespace Ai00.KeyedRows

/-! ## Dictionaries -/

section

variable {ρ κ : Type} [DecidableEq κ] {key : ρ → κ} {rows : List ρ} {k : κ}

theorem lookup_dictionary : lookup key k (upsertAll key rows []) = lookup key k rows.reverse := by
  rw [lookup_upsertAll]
  exact Option.or_none

theorem nodup_dictionary : ((upsertAll key rows []).map key).Nodup := nodup_upsertAll List.nodup_nil

theorem lookup_isSome_iff : (lookup key k rows).isSome ↔ k ∈ rows.map key := by
  rw [← Option.ne_none_iff_isSome, Ne, lookup_eq_none_iff, List.mem_map]
  push Not
  rfl

theorem key_mem_dictionary : k ∈ (upsertAll key rows []).map key ↔ k ∈ rows.map key := by
  rw [← lookup_isSome_iff, lookup_dictionary, lookup_isSome_iff, List.map_reverse, List.mem_reverse]

end

/-! ## Reconciled rows -/

section

variable {α β κ ε : Type} [DecidableEq κ] {expectedKey : α → κ} {key : β → κ} {agree : α → β → Prop}
  {make : α → Except ε β} {extend : β → β} {expected lacking : List α} {actual created : List β}

/-- Each expected row agrees with the actual one of its key, the last one, and the actual rows have no other
keys. -/
structure Reconciled (expectedKey : α → κ) (key : β → κ) (agree : α → β → Prop) (expected : List α)
    (actual : List β) : Prop where
  found : ∀ a ∈ expected, ∃ b, lookup key (expectedKey a) actual.reverse = some b ∧ agree a b
  known : ∀ b ∈ actual, key b ∈ expected.map expectedKey

/-- The rows that a loop made are those of its elements. -/
theorem mem_mapM_iff (h : lacking.mapM make = .ok created) {b : β} :
    b ∈ created ↔ ∃ a ∈ lacking, make a = .ok b := by
  have hall := forall₂_of_mapM h
  clear h
  induction hall with
  | nil => simp
  | @cons a c l bs hac hall ih =>
    constructor
    · intro hb
      rcases List.mem_cons.mp hb with rfl | hb
      · exact ⟨a, List.mem_cons_self, hac⟩
      · obtain ⟨a', ha', hb⟩ := ih.mp hb
        exact ⟨a', List.mem_cons_of_mem _ ha', hb⟩
    · rintro ⟨a', ha', hb⟩
      rcases List.mem_cons.mp ha' with rfl | ha'
      · exact Except.ok.inj (hb.symm.trans hac) ▸ List.mem_cons_self
      · exact List.mem_cons_of_mem _ (ih.mpr ⟨a', ha', hb⟩)

theorem lookup_complete {k : κ} (hextend : ∀ b, key (extend b) = key b) :
    lookup key k (actual.map extend ++ created).reverse
      = (lookup key k created.reverse).or ((lookup key k actual.reverse).map extend) := by
  rw [lookup_append_reverse, ← List.map_reverse, ← map_lookup hextend]

/-! ## Rows that were made -/

section

variable (hcreated : lacking.mapM make = .ok created) (hmake : ∀ a ∈ lacking, ∀ b, make a = .ok b → key b = expectedKey a)

include hcreated hmake

/-- What counts of the rows that were made is made of what counts of the others. -/
theorem lookup_made (k : κ) : lookup expectedKey k lacking.reverse = none ∧ lookup key k created.reverse = none
      ∨ ∃ a b, lookup expectedKey k lacking.reverse = some a ∧ make a = .ok b
          ∧ lookup key k created.reverse = some b := by
  have hall := forall₂_of_mapM hcreated
  clear hcreated
  induction hall with
  | nil => exact .inl ⟨rfl, rfl⟩
  | @cons a b l bs hab hall ih =>
    have hkey := hmake a List.mem_cons_self b hab
    rw [List.reverse_cons, List.reverse_cons, lookup_append, lookup_append]
    rcases ih fun a' ha' => hmake a' (List.mem_cons_of_mem _ ha') with ⟨ha, hb⟩ | ⟨a', b', ha, hmade, hb⟩
    · rw [ha, hb, Option.none_or, Option.none_or, lookup_cons, lookup_cons, hkey]
      by_cases hk : expectedKey a = k
      · exact .inr ⟨a, b, if_pos hk, hab, if_pos hk⟩
      · exact .inl ⟨if_neg hk, if_neg hk⟩
    · exact .inr ⟨a', b', by rw [ha, Option.some_or], hmade, by rw [hb, Option.some_or]⟩

theorem reconciled_made_iff : Reconciled expectedKey key agree (upsertAll expectedKey lacking []) created
    ↔ ∀ a ∈ upsertAll expectedKey lacking [], ∀ b, make a = .ok b → agree a b := by
  have hfound : ∀ a ∈ upsertAll expectedKey lacking [],
      ∃ b, make a = .ok b ∧ lookup key (expectedKey a) created.reverse = some b := by
    intro a ha
    have hlook := lookup_of_mem nodup_dictionary ha
    rw [lookup_dictionary] at hlook
    rcases lookup_made hcreated hmake (expectedKey a) with ⟨hnone, -⟩ | ⟨a', b, ha', hmade, hb⟩
    · exact nomatch hlook.symm.trans hnone
    · exact ⟨b, Option.some.inj (hlook.symm.trans ha') ▸ hmade, hb⟩
  constructor
  · intro h a ha b hb
    obtain ⟨b', hb', hlook⟩ := hfound a ha
    obtain ⟨c, hc, hagree⟩ := h.found a ha
    have hbb : b = b' := Except.ok.inj (hb.symm.trans hb')
    have hcb : c = b := (Option.some.inj (hc.symm.trans hlook)).trans hbb.symm
    exact hcb ▸ hagree
  · intro h
    refine ⟨fun a ha => ?_, fun b hb => ?_⟩
    · obtain ⟨b, hb, hlook⟩ := hfound a ha
      exact ⟨b, hlook, h a ha b hb⟩
    · obtain ⟨a, ha, hab⟩ := (mem_mapM_iff hcreated).mp hb
      rw [hmake a ha b hab, key_mem_dictionary]
      exact List.mem_map_of_mem ha

end

/-! ## What a completion leaves -/

section

variable (hnodup : (expected.map expectedKey).Nodup) (hcreated : lacking.mapM make = .ok created)
  (hmake : ∀ a ∈ lacking, ∀ b, make a = .ok b → key b = expectedKey a)
  (hlacking : ∀ a, a ∈ lacking ↔ a ∈ expected ∧ lookup key (expectedKey a) actual.reverse = none)

include hnodup hcreated hmake hlacking

theorem lookup_created {a : α} (ha : a ∈ expected) :
    a ∉ lacking ∧ lookup key (expectedKey a) created.reverse = none
      ∨ a ∈ lacking ∧ ∃ b, make a = .ok b ∧ lookup key (expectedKey a) created.reverse = some b := by
  rcases lookup_made hcreated hmake (expectedKey a) with ⟨hnone, hmade⟩ | ⟨a', b, hlook, hmade, hb⟩
  · refine .inl ⟨fun hlack => ?_, hmade⟩
    exact lookup_eq_none_iff.mp hnone a (List.mem_reverse.mpr hlack) rfl
  · have hlack := List.mem_reverse.mp (mem_of_lookup hlook)
    have hsame : a' = a := List.inj_on_of_nodup_map hnodup ((hlacking a').mp hlack).1 ha (key_of_lookup hlook)
    subst hsame
    exact .inr ⟨hlack, b, hmade, hb⟩

/-- **What a completion leaves**: the rows are reconciled exactly if each extended one and each one that was made
agrees with the expected row of its key. -/
theorem reconciled_complete_iff (hextend : ∀ b, key (extend b) = key b)
    (hknown : ∀ b ∈ actual, key b ∈ expected.map expectedKey) :
    Reconciled expectedKey key agree expected (actual.map extend ++ created)
      ↔ (∀ a ∈ expected, ∀ b, lookup key (expectedKey a) actual.reverse = some b → agree a (extend b))
        ∧ ∀ a ∈ lacking, ∀ b, make a = .ok b → agree a b := by
  have hlookup := fun a ha => lookup_created hnodup hcreated hmake hlacking (a := a) ha
  constructor
  · intro h
    refine ⟨fun a ha b hb => ?_, fun a ha b hb => ?_⟩
    · obtain ⟨c, hc, hagree⟩ := h.found a ha
      rw [lookup_complete hextend, hb] at hc
      rcases hlookup a ha with ⟨-, hnone⟩ | ⟨hlack, -⟩
      · rw [hnone] at hc
        exact Option.some.inj hc ▸ hagree
      · exact nomatch hb.symm.trans ((hlacking a).mp hlack).2
    · obtain ⟨hexpected, -⟩ := (hlacking a).mp ha
      obtain ⟨c, hc, hagree⟩ := h.found a hexpected
      rcases hlookup a hexpected with ⟨hnot, -⟩ | ⟨-, b', hb', hfound⟩
      · exact absurd ha hnot
      · rw [lookup_complete hextend, hfound, Option.some_or] at hc
        have hbb : b = b' := Except.ok.inj (hb.symm.trans hb')
        exact hbb ▸ Option.some.inj hc ▸ hagree
  · rintro ⟨hpresent, hmade⟩
    refine ⟨fun a ha => ?_, fun b hb => ?_⟩
    · rw [lookup_complete hextend]
      rcases hlookup a ha with ⟨hnot, hnone⟩ | ⟨hlack, b, hb, hfound⟩
      · cases hlook : lookup key (expectedKey a) actual.reverse with
        | none => exact absurd ((hlacking a).mpr ⟨ha, hlook⟩) hnot
        | some b =>
          refine ⟨extend b, ?_, hpresent a ha b hlook⟩
          rw [hnone]
          rfl
      · exact ⟨b, by rw [hfound, Option.some_or], hmade a hlack b hb⟩
    · rcases List.mem_append.mp hb with hb | hb
      · obtain ⟨c, hc, rfl⟩ := List.mem_map.mp hb
        rw [hextend]
        exact hknown c hc
      · obtain ⟨a, ha, hab⟩ := (mem_mapM_iff hcreated).mp hb
        rw [hmake a ha b hab]
        exact List.mem_map_of_mem ((hlacking a).mp ha).1

end

end

end Ai00.KeyedRows
