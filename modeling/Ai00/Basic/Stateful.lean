import Mathlib

/-! # Calls that raise and keep what they wrote

A call that makes several writes, each of them final, may raise between two of them. `Stateful σ ε α`
is a function of the state to what the call returns or raises and the state it leaves either way.

`Leaves R x` says how the state that `x` leaves is related to the one it finds, whatever `x` returns;
the relation goes through a sequence where it is transitive (`Leaves.bind`, `Leaves.forM`).
-/

namespace Ai00

def Stateful (σ ε α : Type) : Type := σ → Except ε α × σ

namespace Stateful

variable {σ ε α β γ : Type}

instance : Monad (Stateful σ ε) where
  pure a := fun s => (.ok a, s)
  bind x f := fun s =>
    match x s with
    | (.ok a, s') => f a s'
    | (.error e, s') => (.error e, s')

def raise (e : ε) : Stateful σ ε α := fun s => (.error e, s)

def read (f : σ → α) : Stateful σ ε α := fun s => (.ok (f s), s)

def modify (f : σ → σ) : Stateful σ ε Unit := fun s => (.ok (), f s)

/-- A computation that leaves the state alone. -/
def lift (x : Except ε α) : Stateful σ ε α := fun s => (x, s)

/-- `try … finally`: the state is changed however `x` ends. -/
def ensuring (x : Stateful σ ε α) (f : σ → σ) : Stateful σ ε α := fun s => ((x s).1, f (x s).2)

variable {s s' : σ} {x : Stateful σ ε α} {f : α → Stateful σ ε β}

@[simp] theorem pure_apply (a : α) : (pure a : Stateful σ ε α) s = (.ok a, s) := rfl

@[simp] theorem raise_apply (e : ε) : (raise e : Stateful σ ε α) s = (.error e, s) := rfl

@[simp] theorem read_apply (g : σ → α) : (read g : Stateful σ ε α) s = (.ok (g s), s) := rfl

@[simp] theorem modify_apply (g : σ → σ) : (modify g : Stateful σ ε Unit) s = (.ok (), g s) := rfl

@[simp] theorem lift_apply (y : Except ε α) : (lift y : Stateful σ ε α) s = (y, s) := rfl

theorem bind_ok {a : α} (h : x s = (.ok a, s')) : (x >>= f) s = f a s' := by
  show (match x s with | (.ok a, s') => f a s' | (.error e, s') => (.error e, s')) = _
  rw [h]

theorem bind_error {e : ε} (h : x s = (.error e, s')) : (x >>= f) s = (.error e, s') := by
  show (match x s with | (.ok a, s') => f a s' | (.error e, s') => (.error e, s')) = _
  rw [h]

@[simp] theorem read_bind (g : σ → α) : (read g >>= f) s = f (g s) s := rfl

@[simp] theorem modify_bind (g : σ → σ) (k : Unit → Stateful σ ε β) :
    (modify g >>= k) s = k () (g s) := rfl

@[simp] theorem raise_bind (e : ε) : (raise e >>= f) s = (.error e, s) := rfl

/-- A sequence goes on after its first part, or ends with it. -/
theorem bind_cases (x : Stateful σ ε α) (f : α → Stateful σ ε β) (s : σ) :
    (∃ a t, x s = (.ok a, t) ∧ (x >>= f) s = f a t)
      ∨ ∃ e t, x s = (.error e, t) ∧ (x >>= f) s = (.error e, t) := by
  rcases hx : x s with ⟨result, t⟩
  cases result with
  | ok a => exact .inl ⟨a, t, rfl, bind_ok hx⟩
  | error e => exact .inr ⟨e, t, rfl, bind_error hx⟩

variable {y : Except ε α}

theorem lift_bind_ok {a : α} (h : y = .ok a) : (lift y >>= f) s = f a s := by
  rw [h]
  rfl

theorem lift_bind_error {e : ε} (h : y = .error e) :
    (lift y >>= f) s = (.error e, s) := by
  rw [h]
  rfl

/-- A sequence that returns went through its first part. -/
theorem bind_returns {b : β} : (x >>= f) s = (.ok b, s') ↔ ∃ a t, x s = (.ok a, t) ∧ f a t = (.ok b, s') := by
  constructor
  · intro h
    rcases hx : x s with ⟨result, t⟩
    cases result with
    | ok a => exact ⟨a, t, rfl, (bind_ok hx).symm.trans h⟩
    | error e =>
      rw [bind_error hx] at h
      cases h
  · rintro ⟨a, t, hx, hf⟩
    rw [bind_ok hx, hf]

theorem lift_bind_returns {b : β} : (lift y >>= f) s = (.ok b, s') ↔ ∃ a, y = .ok a ∧ f a s = (.ok b, s') := by
  rw [bind_returns]
  constructor
  · rintro ⟨a, t, hy, hf⟩
    cases hy
    exact ⟨a, rfl, hf⟩
  · rintro ⟨a, rfl, hf⟩
    exact ⟨a, s, rfl, hf⟩

@[simp] theorem pure_eq_ok {a b : α} :
    (pure a : Stateful σ ε α) s = (.ok b, s') ↔ b = a ∧ s' = s := by
  simp [eq_comm]

/-! ## What a call leaves -/

def Leaves (R : σ → σ → Prop) (x : Stateful σ ε α) : Prop := ∀ s, R s (x s).2

variable {R : σ → σ → Prop}

theorem Leaves.left (hx : Leaves R x) {r : Except ε α} (h : x s = (r, s')) : R s s' := by
  have hleft := hx s
  rw [h] at hleft
  exact hleft

theorem Leaves.bind (htrans : ∀ s s' s'', R s s' → R s' s'' → R s s'')
    (hx : Leaves R x) (hf : ∀ a, Leaves R (f a)) : Leaves R (x >>= f) := by
  intro s
  have hfirst := hx s
  cases h : x s with
  | mk result s' =>
    rw [h] at hfirst
    cases result with
    | ok a =>
      rw [bind_ok h]
      exact htrans _ _ _ hfirst (hf a s')
    | error e =>
      rw [bind_error h]
      exact hfirst

theorem Leaves.lift (hrefl : ∀ s, R s s) (y : Except ε α) :
    Leaves R (Stateful.lift y : Stateful σ ε α) := fun s => hrefl s

theorem Leaves.pure (hrefl : ∀ s, R s s) (a : α) : Leaves R (Pure.pure a : Stateful σ ε α) := fun s => hrefl s

theorem Leaves.foldlM (hrefl : ∀ s, R s s)
    (htrans : ∀ s s' s'', R s s' → R s' s'' → R s s'') {g : α → β → Stateful σ ε α}
    (hg : ∀ a b, Leaves R (g a b)) (bs : List β) (a : α) : Leaves R (bs.foldlM g a) := by
  induction bs generalizing a with
  | nil => exact hrefl
  | cons b bs ih => exact Leaves.bind htrans (hg a b) fun a' => ih a'

/-! ## What a call does not raise -/

def Avoids (bad : ε) (x : Stateful σ ε α) : Prop := ∀ s, (x s).1 ≠ .error bad

theorem Avoids.bind {bad : ε} (hx : Avoids bad x) (hf : ∀ a, Avoids bad (f a)) : Avoids bad (x >>= f) := by
  intro s
  rcases bind_cases x f s with ⟨a, t, -, heq⟩ | ⟨e, t, hraised, heq⟩
  · rw [heq]
    exact hf a t
  · have hother := hx s
    rw [hraised] at hother
    rw [heq]
    exact fun hsame => hother (congrArg Except.error (Except.error.inj hsame))

theorem Avoids.pure {bad : ε} (a : α) : Avoids bad (Pure.pure a : Stateful σ ε α) :=
  fun _ heq => nomatch heq

theorem Avoids.raise {bad e : ε} (h : e ≠ bad) : Avoids bad (Stateful.raise e : Stateful σ ε α) :=
  fun _ heq => h (Except.error.inj heq)

theorem Avoids.read {bad : ε} (g : σ → α) : Avoids bad (Stateful.read g : Stateful σ ε α) :=
  fun _ heq => nomatch heq

theorem Avoids.modify {bad : ε} (g : σ → σ) : Avoids bad (Stateful.modify g : Stateful σ ε Unit) :=
  fun _ heq => nomatch heq

end Stateful

end Ai00
