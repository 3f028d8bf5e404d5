import Ai00.Basic.Interleaving

/-! # Two worlds in lockstep

The same calls run over two implementations of the stores around them. Requests, exchanges,
errors and results are compared by relations, so the two may differ in what the relations forget.
`Agrees` compares two programs on every path, `InStep` two worlds; a schedule keeps two worlds in
step as long as the handlers answer alike (`World.moves_inStep`).
-/

namespace Ai00

variable {Req : Type} {Res : Req → Type} {E α β Call σ τ : Type}

/-- The relations under which two runs are compared. -/
structure Likeness (Res : Req → Type) (E : Type) where
  request : Req → Req → Prop
  exchange : Exchange Res → Exchange Res → Prop
  error : E → E → Prop

section

variable (L : Likeness Res E)

/-- The programs send alike requests and end alike, as long as the answers are alike. -/
def Program.Agrees (value : α → α → Prop) : Program Res E α → Program Res E α → Prop
  | .ret a, .ret b => value a b
  | .raise e, .raise f => L.error e f
  | .call r g k, .call r' g' k' =>
    L.request r r' ∧ (∀ e f, L.error e f → L.error (g e) (g' f)) ∧
      ∀ a b, L.exchange ⟨r, a⟩ ⟨r', b⟩ → Program.Agrees value (k a) (k' b)
  | _, _ => False

variable {L} {value : α → α → Prop} {value' : β → β → Prop}

theorem Program.Agrees.bind {p p' : Program Res E α} {f f' : α → Program Res E β}
    (hp : Program.Agrees L value p p')
    (hf : ∀ a b, value a b → Program.Agrees L value' (f a) (f' b)) :
    Program.Agrees L value' (p >>= f) (p' >>= f') := by
  induction p generalizing p' with
  | ret a =>
    cases p' with
    | ret b => exact hf a b hp
    | raise e => exact hp.elim
    | call r g k => exact hp.elim
  | raise e =>
    cases p' with
    | ret b => exact hp.elim
    | raise e' => exact hp
    | call r g k => exact hp.elim
  | call r g k ih =>
    cases p' with
    | ret b => exact hp.elim
    | raise e => exact hp.elim
    | call r' g' k' =>
      obtain ⟨hreq, herr, hnext⟩ := hp
      exact ⟨hreq, herr, fun a b hx => ih a (hnext a b hx)⟩

theorem Program.Agrees.request {r r' : Req} {f : Res r → Program Res E β}
    {f' : Res r' → Program Res E β} (hr : L.request r r')
    (hf : ∀ a b, L.exchange ⟨r, a⟩ ⟨r', b⟩ → Program.Agrees L value' (f a) (f' b)) :
    Program.Agrees L value' (Program.request r >>= f) (Program.request r' >>= f') :=
  ⟨hr, fun _ _ he => he, hf⟩

theorem Program.Agrees.lift {x : Except E α} {f f' : α → Program Res E β}
    (herr : ∀ e, x = .error e → L.error e e)
    (hf : ∀ a, x = .ok a → Program.Agrees L value' (f a) (f' a)) :
    Program.Agrees L value' (Program.lift x >>= f) (Program.lift x >>= f') := by
  cases x with
  | ok a => exact hf a rfl
  | error e => exact herr e rfl

end

section

variable (L : Likeness Res E) (value : α → α → Prop) (like : σ → τ → Prop)

/-- The two answers to a request, and the two states after it, are alike. -/
def AnswersAlike (r r' : Req) : Except E (Res r) × σ → Except E (Res r') × τ → Prop
  | (.ok a, s), (.ok b, t) => L.exchange ⟨r, a⟩ ⟨r', b⟩ ∧ like s t
  | (.error e, s), (.error f, t) => L.error e f ∧ like s t
  | _, _ => False

/-- The two worlds have alike states and the same calls in flight, which agree from here on. -/
structure InStep (w : World σ Call Res E α) (v : World τ Call Res E α) : Prop where
  state : like w.state v.state
  threads : List.Forall₂
    (fun t u => t.call = u.call ∧ Program.Agrees L value t.program u.program) w.threads v.threads

theorem InStep.initial {s : σ} {t : τ} (h : like s t) :
    InStep L value like (World.initial s : World σ Call Res E α) (World.initial t) :=
  ⟨h, .nil⟩

variable {L value like} {code : Call → Program Res E α}
  {handle : (r : Req) → σ → Except E (Res r) × σ} {handle' : (r : Req) → τ → Except E (Res r) × τ}
  {w w' : World σ Call Res E α} {v : World τ Call Res E α}

theorem forall₂_set {γ δ : Type} {R : γ → δ → Prop} {l : List γ} {l' : List δ} {a : γ} {b : δ}
    (h : List.Forall₂ R l l') (hab : R a b) (i : Nat) : List.Forall₂ R (l.set i a) (l'.set i b) := by
  induction h generalizing i with
  | nil => exact .nil
  | cons hcd htail ih =>
    cases i with
    | zero => exact .cons hab htail
    | succ i => exact .cons hcd (ih i)

theorem forall₂_getElem? {γ δ : Type} {R : γ → δ → Prop} {l : List γ} {l' : List δ} {a : γ}
    (h : List.Forall₂ R l l') {i : Nat} (ha : l[i]? = some a) : ∃ b, l'[i]? = some b ∧ R a b := by
  induction h generalizing i with
  | nil => cases ha
  | cons hcd htail ih =>
    cases i with
    | zero =>
      obtain rfl := Option.some_injective _ ha
      exact ⟨_, rfl, hcd⟩
    | succ i => exact ih ha

theorem World.move_inStep (hcode : ∀ c, Program.Agrees L value (code c) (code c))
    (h : InStep L value like w v) {m : Move Call}
    (hhandle : ∀ i r r', w.event m = some (.requests i r) → L.request r r' →
      AnswersAlike L like r r' (handle r w.state) (handle' r' v.state))
    (hmove : w.move code handle m = some w') :
    ∃ v', v.move code handle' m = some v' ∧ InStep L value like w' v' := by
  cases m with
  | begin c =>
    cases hmove
    exact ⟨_, rfl, h.state, List.rel_append h.threads (.cons ⟨rfl, hcode c⟩ .nil)⟩
  | next i =>
    rw [World.move] at hmove
    split at hmove
    · rename_i c past r g k hi
      obtain ⟨⟨c', past', p⟩, hi', hcall, hagree⟩ := forall₂_getElem? h.threads hi
      cases p with
      | ret b => exact hagree.elim
      | raise e => exact hagree.elim
      | call r' g' k' =>
        obtain ⟨hreq, herr, hnext⟩ := hagree
        have hanswer := hhandle i r r' (by rw [World.event, hi]) hreq
        rw [World.move, hi']
        dsimp only
        rcases hr : handle r w.state with ⟨x, s⟩
        rcases hr' : handle' r' v.state with ⟨x', t⟩
        rw [hr, hr'] at hanswer
        rw [hr] at hmove
        cases x with
        | ok a =>
          cases x' with
          | error e => exact hanswer.elim
          | ok b =>
            cases hmove
            refine ⟨_, rfl, hanswer.2, forall₂_set h.threads ?_ i⟩
            exact ⟨hcall, hnext a b hanswer.1⟩
        | error e =>
          cases x' with
          | ok b => exact hanswer.elim
          | error f =>
            cases hmove
            refine ⟨_, rfl, hanswer.2, forall₂_set h.threads ?_ i⟩
            exact ⟨hcall, herr e f hanswer.1⟩
    · cases hmove

/-- **A schedule keeps two worlds in step**, as long as each of its requests is answered alike. -/
theorem World.moves_inStep {check : World σ Call Res E α → Event Req → Bool}
    (hcode : ∀ c, Program.Agrees L value (code c) (code c))
    (hhandle : ∀ (w : World σ Call Res E α) t i r r', like w.state t →
      check w (.requests i r) = true → L.request r r' →
      AnswersAlike L like r r' (handle r w.state) (handle' r' t))
    (h : InStep L value like w v) {ms : List (Move Call)}
    (hmoves : w.movesIf code handle check ms = some w') :
    ∃ v', v.moves code handle' ms = some v' ∧ InStep L value like w' v' := by
  induction ms generalizing w v with
  | nil =>
    cases hmoves
    exact ⟨v, rfl, h⟩
  | cons m ms ih =>
    rw [World.movesIf] at hmoves
    split_ifs at hmoves with hcheck
    obtain ⟨u, hu, hrest⟩ := Option.bind_eq_some_iff.mp hmoves
    have halike : ∀ i r r', w.event m = some (.requests i r) → L.request r r' →
        AnswersAlike L like r r' (handle r w.state) (handle' r' v.state) := by
      intro i r r' hevent hreq
      rw [hevent] at hcheck
      exact hhandle w v.state i r r' h.state hcheck hreq
    obtain ⟨u', hu', hstep⟩ := World.move_inStep hcode h halike hu
    obtain ⟨v', hv', hlast⟩ := ih hstep hrest
    exact ⟨v', Option.bind_eq_some_iff.mpr ⟨u', hu', hv'⟩, hlast⟩

end

end Ai00
