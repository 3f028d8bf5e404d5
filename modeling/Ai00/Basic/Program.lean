import Mathlib

/-! # Calls as programs over atomic requests

A call of a service is a `Program`: it returns, raises, or sends one request to the stores
around it and goes on with the answer. A request is atomic; everything between two requests
is pure. When a request fails the call fails, with the error translated (`except … raise`).

The same program is run in two ways. `Program.run` answers its requests one after another
from one state. In a `World` any number of calls are in flight over one shared state, and a
step answers the next request of any of them. `Program.Meets` is the rule for properties of a
call that hold whatever the answers are: each request it sends satisfies `P` for the answers
received so far.
-/

namespace Ai00

variable {Req : Type} {Res : Req → Type} {E α β : Type}

inductive Program (Res : Req → Type) (E α : Type) : Type where
  | ret (value : α)
  | raise (error : E)
  | call (request : Req) (onError : E → E) (next : Res request → Program Res E α)

/-- A request and its answer. -/
structure Exchange (Res : Req → Type) where
  request : Req
  answer : Res request

namespace Program

def bind : Program Res E α → (α → Program Res E β) → Program Res E β
  | ret a, f => f a
  | raise e, _ => raise e
  | call r g k, f => call r g (fun a => (k a).bind f)

instance : Monad (Program Res E) where
  pure := ret
  bind := bind

/-- One request; an error passes unchanged. -/
def request (r : Req) : Program Res E (Res r) := call r id ret

/-- One request inside `try`; the handler translates the error. -/
def attempt (r : Req) (onError : E → E) : Program Res E (Res r) := call r onError ret

/-- A pure computation that may raise. -/
def lift : Except E α → Program Res E α
  | .ok a => ret a
  | .error e => raise e

@[simp] theorem pure_eq (a : α) : (pure a : Program Res E α) = ret a := rfl

@[simp] theorem ret_bind (a : α) (f : α → Program Res E β) : (ret a >>= f) = f a := rfl

@[simp] theorem raise_bind (e : E) (f : α → Program Res E β) : (raise e >>= f) = raise e := rfl

@[simp] theorem call_bind (r : Req) (g : E → E) (k : Res r → Program Res E α)
    (f : α → Program Res E β) : (call r g k >>= f) = call r g (fun a => k a >>= f) := rfl

@[simp] theorem lift_ok (a : α) : (lift (.ok a) : Program Res E α) = ret a := rfl

@[simp] theorem lift_error (e : E) : (lift (.error e) : Program Res E α) = raise e := rfl

/-! ## Running alone -/

section

variable {σ : Type} (handle : (r : Req) → σ → Except E (Res r) × σ)

def run : Program Res E α → σ → Except E α × σ
  | ret a, s => (.ok a, s)
  | raise e, s => (.error e, s)
  | call r g k, s =>
    match handle r s with
    | (.ok a, s') => run (k a) s'
    | (.error e, s') => (.error (g e), s')

@[simp] theorem run_ret (a : α) (s : σ) : run handle (ret a) s = (.ok a, s) := rfl

@[simp] theorem run_raise (e : E) (s : σ) : run handle (raise e : Program Res E α) s = (.error e, s) := rfl

theorem run_call (r : Req) (g : E → E) (k : Res r → Program Res E α) (s : σ) : run handle (call r g k) s =
      match handle r s with
      | (.ok a, s') => run handle (k a) s'
      | (.error e, s') => (.error (g e), s') := by
  rw [run]

theorem run_bind (p : Program Res E α) (f : α → Program Res E β) (s : σ) : run handle (p >>= f) s =
      match run handle p s with
      | (.ok a, s') => run handle (f a) s'
      | (.error e, s') => (.error e, s') := by
  induction p generalizing s with
  | ret a => rfl
  | raise e => rfl
  | call r g k ih =>
    rw [call_bind, run_call, run_call]
    rcases handle r s with ⟨x, s'⟩
    cases x with
    | ok a => exact ih a s'
    | error e => rfl

theorem run_bind_ok {p : Program Res E α} {f : α → Program Res E β} {s s' : σ} {a : α}
    (h : run handle p s = (.ok a, s')) : run handle (p >>= f) s = run handle (f a) s' := by
  rw [run_bind, h]

end

/-! ## Properties of every path

`Meets P Q h p`: with `h` the exchanges so far, every request of `p` satisfies `P` and every
value it returns satisfies `Q`, whatever the answers are. -/

def Meets (P : List (Exchange Res) → Req → Prop) (Q : List (Exchange Res) → α → Prop) :
    List (Exchange Res) → Program Res E α → Prop
  | h, ret a => Q h a
  | _, raise _ => True
  | h, call r _ k => P h r ∧ ∀ a, Meets P Q (h ++ [⟨r, a⟩]) (k a)

section

variable {P P' : List (Exchange Res) → Req → Prop} {Q Q' : List (Exchange Res) → α → Prop}
  {R : List (Exchange Res) → β → Prop} {h : List (Exchange Res)}

@[simp] theorem meets_ret (a : α) : Meets P Q h (ret a : Program Res E α) ↔ Q h a := Iff.rfl

@[simp] theorem meets_raise (e : E) : Meets P Q h (raise e : Program Res E α) ↔ True := Iff.rfl

@[simp] theorem meets_call (r : Req) (g : E → E) (k : Res r → Program Res E α) :
    Meets P Q h (call r g k) ↔ P h r ∧ ∀ a, Meets P Q (h ++ [⟨r, a⟩]) (k a) := Iff.rfl

theorem meets_request_bind {r : Req} {f : Res r → Program Res E β} :
    Meets P R h (request r >>= f) ↔ P h r ∧ ∀ a, Meets P R (h ++ [⟨r, a⟩]) (f a) := Iff.rfl

theorem Meets.mono {p : Program Res E α} (hp : Meets P Q h p)
    (hP : ∀ h r, P h r → P' h r) (hQ : ∀ h a, Q h a → Q' h a) : Meets P' Q' h p := by
  induction p generalizing h with
  | ret a => exact hQ h a hp
  | raise e => trivial
  | call r g k ih => exact ⟨hP h r hp.1, fun a => ih a (hp.2 a)⟩

/-- **Sequencing.** The second part starts from the exchanges of the first. -/
theorem Meets.bind {p : Program Res E α} {f : α → Program Res E β} (hp : Meets P Q h p)
    (hf : ∀ h a, Q h a → Meets P R h (f a)) : Meets P R h (p >>= f) := by
  induction p generalizing h with
  | ret a => exact hf h a hp
  | raise e => trivial
  | call r g k ih => exact ⟨hp.1, fun a => ih a (hp.2 a)⟩

theorem Meets.lift {x : Except E α} (hx : ∀ a, x = .ok a → Q h a) :
    Meets P Q h (Program.lift x : Program Res E α) := by
  cases x with
  | ok a => exact hx a rfl
  | error e => trivial

end

/-! ## One invariant along a run -/

section

variable {σ : Type} {handle : (r : Req) → σ → Except E (Res r) × σ}

end

end Program

end Ai00
