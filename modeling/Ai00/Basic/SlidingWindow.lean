import Mathlib

/-! # What a sliding window costs

Events have an instant and a cost. To bound what the events of a window cost, it is enough to keep
the last ones: `expire` forgets those in front that are as old as a horizon, and `Retains` says that
nothing but such events is missing from what is kept. A window behind the horizon then costs no more
than what is kept (`Retains.total_within_le`).

Windows are `Narrow`: no two of their instants are a whole width apart. The two kinds of half-open
intervals are (`narrow_Ico`, `narrow_Ioc`), a closed interval is not.
-/

namespace Ai00.SlidingWindow

structure Event (τ : Type) where
  instant : τ
  cost : ℤ

variable {τ : Type}

def total (events : List (Event τ)) : ℤ := (events.map Event.cost).sum

theorem total_append (events more : List (Event τ)) : total (events ++ more) = total events + total more := by
  rw [total, List.map_append, List.sum_append]
  rfl

def within (window : τ → Prop) [DecidablePred window] (events : List (Event τ)) : List (Event τ) :=
  events.filter fun e => window e.instant

theorem total_le_of_sublist {events more : List (Event τ)} (h : events.Sublist more)
    (hcosts : ∀ e ∈ more, 0 ≤ e.cost) : total events ≤ total more := by
  induction h with
  | slnil => exact le_refl _
  | cons e _ ih =>
    have hrest := ih fun e he => hcosts e (List.mem_cons_of_mem _ he)
    have he := hcosts e List.mem_cons_self
    simp only [total, List.map_cons, List.sum_cons] at hrest ⊢
    omega
  | cons_cons e _ ih =>
    have hrest := ih fun e he => hcosts e (List.mem_cons_of_mem _ he)
    simp only [total, List.map_cons, List.sum_cons] at hrest ⊢
    omega

variable [LinearOrder τ]

/-! ## Forgetting -/

/-- Without the events in front that are as old as the horizon. -/
def expire (horizon : τ) (events : List (Event τ)) : List (Event τ) :=
  events.dropWhile fun e => e.instant ≤ horizon

/-- What was forgotten at an earlier horizon would be forgotten now. -/
theorem expire_expire {horizon later : τ} (hle : horizon ≤ later) (events : List (Event τ)) :
    expire later (expire horizon events) = expire later events := by
  induction events with
  | nil => rfl
  | cons e events ih =>
    by_cases hold : e.instant ≤ horizon
    · have hlater : e.instant ≤ later := hold.trans hle
      simp only [expire, List.dropWhile_cons, decide_eq_true hold, decide_eq_true hlater, if_true] at ih ⊢
      exact ih
    · simp only [expire, List.dropWhile_cons, decide_eq_false hold, Bool.false_eq_true, if_false]

theorem expire_eq_within {events : List (Event τ)} {horizon : τ}
    (h : (events.map Event.instant).Pairwise (· ≤ ·)) :
    expire horizon events = within (horizon < ·) events := by
  induction events with
  | nil => rfl
  | cons e events ih =>
    obtain ⟨hfirst, h⟩ := List.pairwise_cons.mp h
    by_cases hold : e.instant ≤ horizon
    · simpa [expire, within, hold] using ih h
    · have hlater : ∀ x ∈ events, horizon < x.instant := fun x hx =>
        (not_le.mp hold).trans_le (hfirst _ (List.mem_map_of_mem hx))
      rw [within, List.filter_eq_self.mpr (by simpa [not_le.mp hold] using hlater)]
      simp [expire, hold]

/-- Nothing but events as old as the horizon is missing in front. -/
def Retains (horizon : τ) (all kept : List (Event τ)) : Prop :=
  ∃ gone, all = gone ++ kept ∧ ∀ e ∈ gone, e.instant ≤ horizon

variable {horizon later : τ} {all kept : List (Event τ)} {e : Event τ}

theorem Retains.mono (h : Retains horizon all kept) (hle : horizon ≤ later) : Retains later all kept := by
  obtain ⟨gone, hall, hgone⟩ := h
  exact ⟨gone, hall, fun e he => (hgone e he).trans hle⟩

theorem Retains.expire (h : Retains horizon all kept) (hle : horizon ≤ later) :
    Retains later all (SlidingWindow.expire later kept) := by
  obtain ⟨gone, hall, hgone⟩ := h
  refine ⟨gone ++ kept.takeWhile fun e => e.instant ≤ later, ?_, fun e he => ?_⟩
  · rw [hall, List.append_assoc, SlidingWindow.expire, List.takeWhile_append_dropWhile]
  · rcases List.mem_append.mp he with he | he
    · exact (hgone e he).trans hle
    · simpa using List.mem_takeWhile_imp he

theorem Retains.append (h : Retains horizon all kept) (e : Event τ) :
    Retains horizon (all ++ [e]) (kept ++ [e]) := by
  obtain ⟨gone, hall, hgone⟩ := h
  exact ⟨gone, by rw [hall, List.append_assoc], hgone⟩

/-- **A window behind the horizon** costs no more than what is kept. -/
theorem Retains.total_within_le (h : Retains horizon all kept) (hcosts : ∀ e ∈ all, 0 ≤ e.cost)
    {window : τ → Prop} [DecidablePred window] (hwindow : ∀ x, window x → horizon < x) :
    total (within window all) ≤ total kept := by
  obtain ⟨gone, rfl, hgone⟩ := h
  have hnone : within window gone = [] := by
    refine List.filter_eq_nil_iff.mpr fun e he hin => ?_
    exact absurd (hwindow _ (of_decide_eq_true hin)) (not_lt.mpr (hgone e he))
  have hkept : within window (gone ++ kept) = within window kept := by
    rw [within, List.filter_append]
    exact (congrArg (· ++ _) hnone).trans (List.nil_append _)
  rw [hkept]
  exact total_le_of_sublist List.filter_sublist fun e he => hcosts e (List.mem_append_right _ he)

/-- **In order**, what is left at the horizon is all that is later. -/
theorem Retains.expire_eq (h : Retains horizon all kept) (hsorted : (all.map Event.instant).Pairwise (· ≤ ·)) :
    SlidingWindow.expire horizon kept = within (horizon < ·) all := by
  obtain ⟨gone, rfl, hgone⟩ := h
  rw [List.map_append] at hsorted
  have hnone : gone.filter (fun e => horizon < e.instant) = [] :=
    List.filter_eq_nil_iff.mpr fun e he => by simpa using hgone e he
  rw [expire_eq_within (List.pairwise_append.mp hsorted).2.1, within, within, List.filter_append, hnone,
    List.nil_append]

/-! ## Windows -/

section

variable [AddCommGroup τ] [IsOrderedAddMonoid τ] {width : τ}

/-- Any two instants are less than the width apart. -/
def Narrow (width : τ) (window : τ → Prop) : Prop := ∀ x y, window x → window y → y < x + width

theorem narrow_Ico (start : τ) : Narrow width fun x => start ≤ x ∧ x < start + width :=
  fun _ _ hx hy => hy.2.trans_le (add_le_add_left hx.1 width)

theorem narrow_Ioc (start : τ) : Narrow width fun x => start < x ∧ x ≤ start + width :=
  fun _ _ hx hy => hy.2.trans_lt (add_lt_add_left hx.1 width)

theorem Narrow.behind {window : τ → Prop} (h : Narrow width window) {now : τ} (hnow : window now) :
    ∀ x, window x → now - width < x := fun x hx => sub_lt_iff_lt_add.mpr (h x now hx hnow)

end

end Ai00.SlidingWindow
