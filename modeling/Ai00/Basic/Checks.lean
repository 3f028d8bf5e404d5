import Ai00.Basic.Python

/-! # Checks that raise

A function that raises checks its arguments one after another. `require p e` goes on where `p`
holds, `found o e` goes on with the value of `o`, and `translate f x` is the `try` that raises
another error in the place of the one of `x`. Each has one lemma that says when it goes on.
-/

namespace Ai00

variable {ε ε' α : Type}

def require (p : Prop) [Decidable p] (e : ε) : Except ε Unit := if p then .ok () else .error e

def found (o : Option α) (e : ε) : Except ε α :=
  match o with
  | some a => .ok a
  | none => .error e

def translate (f : ε → ε') : Except ε α → Except ε' α
  | .ok a => .ok a
  | .error e => .error (f e)

@[simp] theorem require_eq_ok {p : Prop} [Decidable p] {e : ε} {u : Unit} :
    require p e = .ok u ↔ p := by
  unfold require
  by_cases h : p <;> simp [h]

variable {a : α}

@[simp] theorem found_eq_ok {o : Option α} {e : ε} : found o e = .ok a ↔ o = some a := by
  cases o <;> simp [found]

@[simp] theorem translate_eq_ok {f : ε → ε'} {x : Except ε α} :
    translate f x = .ok a ↔ x = .ok a := by
  cases x <;> simp [translate]

theorem map_eq_ok {β : Type} {f : α → β} {x : Except ε α} {b : β} :
    x.map f = .ok b ↔ ∃ a, x = .ok a ∧ f a = b := by
  cases x <;> simp [Except.map]

/-- What a loop of checked calls returns, one value for each element. -/
theorem forall₂_of_mapM {β : Type} {f : α → Except ε β} {l : List α} :
    ∀ {bs : List β}, l.mapM f = .ok bs → List.Forall₂ (fun a b => f a = .ok b) l bs := by
  induction l with
  | nil =>
    intro bs h
    cases h
    exact .nil
  | cons a l ih =>
    intro bs h
    rw [List.mapM_cons] at h
    obtain ⟨b, hb, h⟩ := bind_eq_ok.mp h
    obtain ⟨rest, hrest, h⟩ := bind_eq_ok.mp h
    cases h
    exact .cons hb (ih hrest)

theorem exists_of_forall₂ {α β : Type} {R : α → β → Prop} {l : List α} {l' : List β}
    (h : List.Forall₂ R l l') {b : β} (hb : b ∈ l') : ∃ a ∈ l, R a b := by
  induction h with
  | nil => cases hb
  | @cons x y _ _ hxy _ ih =>
    rcases List.mem_cons.mp hb with rfl | hb
    · exact ⟨x, List.mem_cons_self, hxy⟩
    · obtain ⟨a, ha, hab⟩ := ih hb
      exact ⟨a, List.mem_cons_of_mem _ ha, hab⟩

theorem ok_bind {β : Type} {f : α → Except ε β} : (Except.ok a >>= f) = f a := rfl

theorem require_bind {β : Type} {p : Prop} [Decidable p] {e : ε} {f : Unit → Except ε β} (h : p) :
    (require p e >>= f) = f () := by
  unfold require
  rw [if_pos h]
  rfl

theorem found_bind {β : Type} {o : Option α} {e : ε} {f : α → Except ε β} (h : o = some a) :
    (found o e >>= f) = f a := by
  rw [h]
  rfl

/-! ## Checks in sequence -/

section

variable {β : Type}

theorem andThen_eq_ok {x : Except ε Unit} {y : Except ε β} {b : β} :
    (x >>= fun _ => y) = .ok b ↔ x = .ok () ∧ y = .ok b := by
  cases x with
  | error e => simp [Bind.bind, Except.bind]
  | ok u => simp [Bind.bind, Except.bind]

theorem forM_eq_ok {f : α → Except ε Unit} {l : List α} : l.forM f = .ok () ↔ ∀ a ∈ l, f a = .ok () := by
  induction l with
  | nil => simp [pure, Except.pure]
  | cons a l ih =>
    rw [List.forM_eq_forM] at ih
    rw [List.forM_eq_forM, List.forM_cons, andThen_eq_ok, ih, List.forall_mem_cons]

/-- A loop of calls that raise nowhere. -/
theorem mapM_eq_map {f : α → Except ε β} {g : α → β} {l : List α} (h : ∀ a ∈ l, f a = .ok (g a)) :
    l.mapM f = .ok (l.map g) := by
  induction l with
  | nil => rfl
  | cons a l ih =>
    rw [List.mapM_cons, h a List.mem_cons_self, ih fun b hb => h b (List.mem_cons_of_mem _ hb)]
    rfl

/-- No call of a loop that returns raises. -/
theorem exists_of_mapM {f : α → Except ε β} {l : List α} {bs : List β} (h : l.mapM f = .ok bs)
    (ha : a ∈ l) : ∃ b, f a = .ok b := by
  have hall := forall₂_of_mapM h
  clear h
  induction hall with
  | nil => cases ha
  | cons hab _ ih =>
    rcases List.mem_cons.mp ha with rfl | ha
    · exact ⟨_, hab⟩
    · exact ih ha

end

end Ai00
