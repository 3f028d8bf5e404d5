import Mathlib

/-! # Calls one after another

A state that calls take to the next state, one after another. `after next s calls` is the state they
lead to; `past ++ [b] <+: calls` says that the run makes the call `b` after the calls `past`.

Invariants and relations between the states of a run each have their induction (`after_invariant`,
`after_related`). A ticket shows a counter that only grows: one that is outdated stays so.
-/

namespace Ai00.Successive

variable {σ β : Type} (next : σ → β → σ)

def after (s : σ) (calls : List β) : σ := calls.foldl next s

@[simp] theorem after_nil (s : σ) : after next s [] = s := rfl

@[simp] theorem after_cons (s : σ) (b : β) (calls : List β) :
    after next s (b :: calls) = after next (next s b) calls := rfl

theorem after_append (s : σ) (calls more : List β) :
    after next s (calls ++ more) = after next (after next s calls) more := List.foldl_append

theorem after_concat (s : σ) (calls : List β) (b : β) :
    after next s (calls ++ [b]) = next (after next s calls) b := by
  rw [after_append, after_cons, after_nil]

variable {next} {s : σ} {calls : List β}

variable {I : σ → Prop}

/-- **Induction over a run.** Each call is one that is allowed where the run makes it. -/
theorem after_invariant {allowed : σ → β → Prop} (hs : I s)
    (hnext : ∀ s b, I s → allowed s b → I (next s b))
    (hall : ∀ past b, past ++ [b] <+: calls → allowed (after next s past) b) :
    I (after next s calls) := by
  induction calls using List.reverseRecOn with
  | nil => exact hs
  | append_singleton calls b ih =>
    rw [after_concat]
    refine hnext _ _ (ih fun past c h => hall past c ?_) (hall calls b (List.prefix_refl _))
    exact h.trans (List.prefix_append _ _)

theorem after_keeps (hs : I s) (hnext : ∀ s b, I s → I (next s b)) : I (after next s calls) := by
  induction calls using List.reverseRecOn with
  | nil => exact hs
  | append_singleton calls b ih =>
    rw [after_concat]
    exact hnext _ _ ih

/-- **How the end of a run is related to its start.** -/
theorem after_related {R : σ → σ → Prop} (hrefl : ∀ s, R s s)
    (htrans : ∀ s s' s'', R s s' → R s' s'' → R s s'') (hs : I s)
    (hnext : ∀ s b, I s → I (next s b)) (hR : ∀ s b, I s → R s (next s b)) :
    R s (after next s calls) := by
  induction calls generalizing s with
  | nil => exact hrefl s
  | cons b calls ih => exact htrans _ _ _ (hR s b hs) (ih (hnext s b hs))

theorem forall_prefix_iff {P : List β → β → Prop} :
    (∀ past b, past ++ [b] <+: calls → P past b) ↔ ∀ i (hi : i < calls.length), P (calls.take i) calls[i] := by
  constructor
  · intro h i hi
    refine h _ _ ?_
    rw [List.take_append_getElem hi]
    exact List.take_prefix _ _
  · rintro h past b ⟨more, rfl⟩
    have hi : past.length < (past ++ [b] ++ more).length := by simp
    have hcall := h past.length hi
    simpa using hcall

/-! ## Tickets -/

section

variable {κ τ : Type} (key : τ → κ) (shown : τ → ℕ)

/-- The ticket shows no more than the counter of its key. -/
def Dated (count : κ → ℕ) (x : τ) : Prop := shown x ≤ count (key x)

/-- The counter of its key has gone past the ticket. -/
def Outdated (count : κ → ℕ) (x : τ) : Prop := shown x < count (key x)

variable {key shown} {count count' : κ → ℕ} {x : τ}

theorem Dated.mono (h : Dated key shown count x) (hle : ∀ k, count k ≤ count' k) :
    Dated key shown count' x := le_trans h (hle _)

theorem Outdated.mono (h : Outdated key shown count x) (hle : ∀ k, count k ≤ count' k) :
    Outdated key shown count' x := lt_of_lt_of_le h (hle _)

theorem Dated.outdated (h : Dated key shown count x) (hlt : count (key x) < count' (key x)) :
    Outdated key shown count' x := lt_of_le_of_lt h hlt

end

end Ai00.Successive
