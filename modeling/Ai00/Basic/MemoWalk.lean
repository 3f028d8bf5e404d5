import Mathlib

/-! # Walks up a table of links, with a memo

`link k` is where the entry `k` of a table points; there is none if the table has no such entry. A chain
of links is followed until it comes to a target (`First`); it may leave the table or run into a loop.

`resolve` follows the chain with a memo of what earlier walks have found. It stops at what the memo
knows, outside the table and at a place where it has been, and enters what it finds for all the places
of the walk. If the memo is `Sound`, what is found is the first target of the chain, and the memo stays
sound (`resolve_sound`).
-/

namespace Ai00.MemoWalk

variable {κ : Type}

/-- The first target of the chain from an entry. -/
inductive First (link : κ → Option κ) (target : κ → Prop) : κ → κ → Prop
  | here {k : κ} (h : target k) : First link target k k
  | step {k next r : κ} (h : ¬ target k) (hlink : link k = some next) (hnext : First link target next r) :
      First link target k r

section

variable {link : κ → Option κ} {target : κ → Prop} {k next r : κ}

theorem First.is_target (h : First link target k r) : target r := by
  induction h with
  | here h => exact h
  | step _ _ _ ih => exact ih

theorem first_iff_next (hk : ¬ target k) (hlink : link k = some next) :
    First link target k r ↔ First link target next r := by
  constructor
  · intro h
    cases h with
    | here h => exact absurd h hk
    | step _ hother hnext =>
      rw [hlink] at hother
      cases hother
      exact hnext
  · exact First.step hk hlink

theorem not_first_of_none (hk : ¬ target k) (hlink : link k = none) : ¬ First link target k r := by
  intro h
  cases h with
  | here h => exact hk h
  | step _ hother _ =>
    rw [hlink] at hother
    cases hother

/-- A chain that stays among entries that are no targets has none. -/
theorem not_first_of_closed {places : List κ} (hplaces : ∀ p ∈ places, ¬ target p ∧ ∃ q ∈ places, link p = some q)
    (hk : k ∈ places) : ¬ First link target k r := by
  intro h
  induction h with
  | here h => exact (hplaces _ hk).1 h
  | step _ hlink _ ih =>
    obtain ⟨-, q, hq, hlink'⟩ := hplaces _ hk
    rw [hlink] at hlink'
    cases hlink'
    exact ih hq

theorem first_iff_reaches
    (hapart : ∀ a b, target a → target b → Relation.ReflTransGen (fun x y => link x = some y) a b → a = b)
    (hr : target r) : First link target k r ↔ Relation.ReflTransGen (fun x y => link x = some y) k r := by
  constructor
  · intro h
    induction h with
    | here _ => exact .refl
    | step _ hlink _ ih => exact .head hlink (ih hr)
  · intro h
    induction h using Relation.ReflTransGen.head_induction_on with
    | refl => exact .here hr
    | @head a b hab hbr ih =>
      by_cases ha : target a
      · rw [hapart a r ha hr (.head hab hbr)]
        exact .here hr
      · exact .step ha hab ih

end

section

variable [DecidableEq κ] (link : κ → Option κ) (memo : κ → Option (Option κ))

/-- The places of a walk, and where it stops. The fuel is for the places. -/
def walk : ℕ → List κ → κ → List κ × κ
  | 0, trail, current => (trail, current)
  | fuel + 1, trail, current =>
    match link current with
    | none => (trail, current)
    | some next =>
      if memo current = none ∧ current ∉ trail then walk fuel (trail ++ [current]) next
      else (trail, current)

/-- What is found for an entry, and the memo after it. -/
def resolve (fuel : ℕ) (k : κ) : Option κ × (κ → Option (Option κ)) :=
  let (trail, current) := walk link memo fuel [] k
  let found := (memo current).join
  (found, fun p => if p ∈ trail then some found else memo p)

end

variable {link : κ → Option κ} {target : κ → Prop} {memo : κ → Option (Option κ)}

/-- The memo knows the targets, and what it knows is the first target of the chain. -/
structure Sound (link : κ → Option κ) (target : κ → Prop) (memo : κ → Option (Option κ)) : Prop where
  targets : ∀ k, target k → memo k ≠ none
  first : ∀ k found, memo k = some found → ∀ r, found = some r ↔ First link target k r

theorem sound_targets {memo : κ → Option (Option κ)} (htarget : ∀ k, target k → memo k = some (some k))
    (hother : ∀ k, ¬ target k → memo k = none) : Sound link target memo where
  targets k hk := by
    rw [htarget k hk]
    exact Option.some_ne_none _
  first k found hfound r := by
    by_cases hk : target k
    · rw [htarget k hk] at hfound
      cases hfound
      constructor
      · intro heq
        cases heq
        exact .here hk
      · intro h
        cases h with
        | here _ => rfl
        | step hnot _ _ => exact absurd hk hnot
    · rw [hother k hk] at hfound
      cases hfound

/-- What is known of a walk from `start` on its way. -/
structure OnTrail (link : κ → Option κ) (target : κ → Prop) (start : κ) (trail : List κ) (current : κ) : Prop where
  nodup : trail.Nodup
  linked : ∀ p ∈ trail, ¬ target p ∧ ∃ next, link p = some next ∧ (next ∈ trail ∨ next = current)
  same : ∀ p ∈ trail, ∀ r, First link target p r ↔ First link target current r
  start : ∀ r, First link target start r ↔ First link target current r

theorem onTrail_nil (start : κ) : OnTrail link target start [] start :=
  ⟨List.nodup_nil, by simp, by simp, fun _ => Iff.rfl⟩

variable {trail : List κ}

/-- **One step up**, from a place that is no target. -/
theorem OnTrail.step {start : κ} {current next : κ} (h : OnTrail link target start trail current)
    (hcurrent : ¬ target current) (hnew : current ∉ trail) (hlink : link current = some next) :
    OnTrail link target start (trail ++ [current]) next where
  nodup := by
    rw [← List.concat_eq_append, List.nodup_concat]
    exact ⟨hnew, h.nodup⟩
  linked p hp := by
    rcases List.mem_append.mp hp with hp | hp
    · obtain ⟨hnot, above, habove, hwhere⟩ := h.linked p hp
      refine ⟨hnot, above, habove, Or.inl ?_⟩
      rcases hwhere with hin | rfl
      · exact List.mem_append_left _ hin
      · exact List.mem_append_right _ (List.mem_singleton_self _)
    · rw [List.mem_singleton.mp hp]
      exact ⟨hcurrent, next, hlink, Or.inr rfl⟩
  same p hp r := by
    rcases List.mem_append.mp hp with hp | hp
    · rw [h.same p hp r, first_iff_next hcurrent hlink]
    · rw [List.mem_singleton.mp hp, first_iff_next hcurrent hlink]
  start r := (h.start r).trans (first_iff_next hcurrent hlink)

/-- Why a walk has stopped. -/
def Stopped (link : κ → Option κ) (memo : κ → Option (Option κ)) (trail : List κ) (current : κ) : Prop :=
  link current = none ∨ memo current ≠ none ∨ current ∈ trail

theorem join_of_stopped (hsound : Sound link target memo) {start : κ} {current : κ}
    (h : OnTrail link target start trail current) (hstopped : Stopped link memo trail current) (r : κ) :
    (memo current).join = some r ↔ First link target current r := by
  cases hmemo : memo current with
  | some found => exact hsound.first current found hmemo r
  | none =>
    have hcurrent : ¬ target current := fun ht => hsound.targets current ht hmemo
    refine iff_of_false (by simp) ?_
    rcases hstopped with hnone | hknown | hback
    · exact not_first_of_none hcurrent hnone
    · exact absurd hmemo hknown
    · -- the walk has come back: its places are a loop without a target
      refine not_first_of_closed (fun p hp => ?_) hback
      obtain ⟨hnot, next, hnext, hwhere⟩ := h.linked p hp
      refine ⟨hnot, next, ?_, hnext⟩
      rcases hwhere with hin | rfl
      · exact hin
      · exact hback

variable [DecidableEq κ]

/-- **A walk stops** with the fuel of the table, and its places are those of a trail. -/
theorem walk_spec (hsound : Sound link target memo) {table : List κ} (htable : ∀ k, link k ≠ none → k ∈ table)
    {start : κ} {fuel : ℕ} {current : κ} (h : OnTrail link target start trail current)
    (hfuel : table.length < fuel + trail.length) :
    ∃ trail' current', walk link memo fuel trail current = (trail', current')
      ∧ OnTrail link target start trail' current' ∧ Stopped link memo trail' current' := by
  induction fuel generalizing trail current with
  | zero =>
    -- the places of the walk are different entries of the table
    have hlength : trail.length ≤ table.length := by
      refine (List.subperm_of_subset h.nodup fun p hp => htable p ?_).length_le
      obtain ⟨-, next, hnext, -⟩ := h.linked p hp
      rw [hnext]
      exact Option.some_ne_none _
    omega
  | succ fuel ih =>
    rw [walk]
    cases hlink : link current with
    | none => exact ⟨trail, current, rfl, h, Or.inl hlink⟩
    | some next =>
      by_cases hon : memo current = none ∧ current ∉ trail
      · have hcurrent : ¬ target current := fun ht => hsound.targets current ht hon.1
        simp only [if_pos hon]
        refine ih (h.step hcurrent hon.2 hlink) ?_
        rw [List.length_append, List.length_singleton]
        omega
      · simp only [if_neg hon]
        refine ⟨trail, current, rfl, h, Or.inr ?_⟩
        rcases not_and_or.mp hon with hknown | hback
        · exact Or.inl hknown
        · exact Or.inr (not_not.mp hback)

/-- **What is found is the first target of the chain**, and the memo stays sound. -/
theorem resolve_sound (hsound : Sound link target memo) {table : List κ} (htable : ∀ k, link k ≠ none → k ∈ table)
    {fuel : ℕ} (hfuel : table.length < fuel) (k : κ) :
    (∀ r, (resolve link memo fuel k).1 = some r ↔ First link target k r)
      ∧ Sound link target (resolve link memo fuel k).2 := by
  obtain ⟨trail, current, hwalk, htrail, hstopped⟩ := walk_spec hsound htable (onTrail_nil k) (by simpa using hfuel)
  have hfound := join_of_stopped hsound htrail hstopped
  rw [resolve, hwalk]
  refine ⟨fun r => (hfound r).trans (htrail.start r).symm, fun p hp => ?_, fun p found hp r => ?_⟩
  · show (if p ∈ trail then some _ else memo p) ≠ none
    split_ifs
    · exact Option.some_ne_none _
    · exact hsound.targets p hp
  · change (if p ∈ trail then some _ else memo p) = some found at hp
    split_ifs at hp with hin
    · cases hp
      exact (hfound r).trans (htrail.same p hin r).symm
    · exact hsound.first p found hp r

end Ai00.MemoWalk
