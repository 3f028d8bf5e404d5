import Ai00.Basic.Program

/-! # Calls in flight over one state

A `World` is a shared state with the calls in flight over it. A step begins a call, answers
the next request of one call, or is an outside change of the state. `trace` records all
exchanges in the order they took place and `history` those of one call; both are ghosts that
no step reads.

Invariants come in three forms, each with its own induction: of the world along a run, of the
state alone under every request (`Run.state`), and of a call against its own history
(`Run.meets`, `Run.history`).
-/

namespace Ai00

variable {Req : Type} {Res : Req → Type} {E α Call σ : Type}

structure Thread (Call : Type) (Res : Req → Type) (E α : Type) where
  call : Call
  history : List (Exchange Res)
  program : Program Res E α

structure World (σ Call : Type) (Res : Req → Type) (E α : Type) where
  state : σ
  trace : List (Exchange Res)
  threads : List (Thread Call Res E α)

/-- What a step of the world does. -/
inductive Event (Req : Type) where
  | begins
  | outside
  | requests (thread : Nat) (request : Req)

/-- No call is in flight yet. -/
def World.initial (s : σ) : World σ Call Res E α := ⟨s, [], []⟩

section

variable (code : Call → Program Res E α) (handle : (r : Req) → σ → Except E (Res r) × σ)
  (outside : σ → σ → Prop)

inductive Step : World σ Call Res E α → Event Req → World σ Call Res E α → Prop
  | begin (w : World σ Call Res E α) (c : Call) :
      Step w .begins { w with threads := w.threads ++ [⟨c, [], code c⟩] }
  | outside (w : World σ Call Res E α) (s : σ) (h : outside w.state s) :
      Step w .outside { w with state := s }
  | answer (w : World σ Call Res E α) (i : Nat) (c : Call) (past : List (Exchange Res)) (r : Req)
      (g : E → E) (k : Res r → Program Res E α) (a : Res r) (s : σ)
      (hi : w.threads[i]? = some ⟨c, past, .call r g k⟩) (hr : handle r w.state = (.ok a, s)) :
      Step w (.requests i r) ⟨s, w.trace ++ [⟨r, a⟩],
        w.threads.set i ⟨c, past ++ [⟨r, a⟩], k a⟩⟩
  | refuse (w : World σ Call Res E α) (i : Nat) (c : Call) (past : List (Exchange Res)) (r : Req)
      (g : E → E) (k : Res r → Program Res E α) (e : E) (s : σ)
      (hi : w.threads[i]? = some ⟨c, past, .call r g k⟩) (hr : handle r w.state = (.error e, s)) :
      Step w (.requests i r) ⟨s, w.trace, w.threads.set i ⟨c, past, .raise (g e)⟩⟩

/-- Runs all of whose steps are allowed in the world they start from. -/
inductive Run (allowed : World σ Call Res E α → Event Req → Prop) :
    World σ Call Res E α → World σ Call Res E α → Prop
  | refl (w : World σ Call Res E α) : Run allowed w w
  | step {w w' w'' : World σ Call Res E α} {e : Event Req} (h : Run allowed w w')
      (ha : allowed w' e) (hs : Step code handle outside w' e w'') : Run allowed w w''

abbrev FreeRun := Run code handle outside (fun _ _ => True)

variable {code handle outside} {allowed allowed' : World σ Call Res E α → Event Req → Prop}

variable {I : World σ Call Res E α → Prop}

/-- **Induction over a run.** A step may use the run that leads to it. -/
theorem Run.invariant {w₀ w : World σ Call Res E α}
    (h : Run code handle outside allowed w₀ w) (hw : I w₀)
    (hstep : ∀ w e w', Run code handle outside allowed w₀ w → I w → allowed w e →
      Step code handle outside w e w' → I w') : I w := by
  induction h with
  | refl => exact hw
  | step hrun ha hs ih => exact hstep _ _ _ hrun ih ha hs

/-! ## The state alone -/

/-! ## Each call by itself -/

theorem mem_set_cases {β : Type} {l : List β} {i : Nat} {a b : β} (h : b ∈ l.set i a) :
    b = a ∨ b ∈ l := (List.mem_or_eq_of_mem_set h).symm

variable {P : Call → List (Exchange Res) → Req → Prop}

theorem Run.meets (hcode : ∀ c, (code c).Meets (P c) (fun _ _ => True) []) {w w' : World σ Call Res E α}
    (h : Run code handle outside allowed w w')
    (hw : ∀ t ∈ w.threads, t.program.Meets (P t.call) (fun _ _ => True) t.history) :
    ∀ t ∈ w'.threads, t.program.Meets (P t.call) (fun _ _ => True) t.history := by
  refine h.invariant (I := fun w => ∀ t ∈ w.threads, t.program.Meets (P t.call) (fun _ _ => True) t.history) hw ?_
  intro w e w' _ hI _ hs
  cases hs with
  | begin c =>
    intro t ht
    rcases List.mem_append.mp ht with ht | ht
    · exact hI t ht
    · rw [List.mem_singleton.mp ht]
      exact hcode c
  | outside s h => exact hI
  | answer i c past r g k a s hi hr =>
    intro t ht
    rcases mem_set_cases ht with rfl | ht
    · have hbefore := hI _ (List.mem_of_getElem? hi)
      exact hbefore.2 a
    · exact hI t ht
  | refuse i c past r g k e s hi hr =>
    intro t ht
    rcases mem_set_cases ht with rfl | ht
    · trivial
    · exact hI t ht

/-- The request a call is about to send satisfies what its code promises. -/
theorem Run.request
    (hcode : ∀ c, (code c).Meets (P c) (fun _ _ => True) []) {s : σ} {w : World σ Call Res E α}
    (h : Run code handle outside allowed (World.initial s) w) {i : Nat} {c : Call}
    {past : List (Exchange Res)} {r : Req} {g : E → E} {k : Res r → Program Res E α}
    (hi : w.threads[i]? = some ⟨c, past, .call r g k⟩) : P c past r := by
  have hall := h.meets hcode (fun t ht => by cases ht)
  exact (hall _ (List.mem_of_getElem? hi)).1

/-- What an answer shows of the world stays true of later worlds: it holds of every exchange
in the history of every call. The step that keeps `I` may use what the histories show. -/
theorem Run.history {Shows : Exchange Res → World σ Call Res E α → Prop}
    {w₀ w : World σ Call Res E α} (h : Run code handle outside allowed w₀ w)
    (hw : I w₀) (hw' : ∀ t ∈ w₀.threads, ∀ x ∈ t.history, Shows x w₀)
    (hI : ∀ {w e w'}, Run code handle outside allowed w₀ w → I w →
      (∀ t ∈ w.threads, ∀ x ∈ t.history, Shows x w) → allowed w e →
      Step code handle outside w e w' → I w')
    (hnew : ∀ {w e w' x}, I w → allowed w e → Step code handle outside w e w' → I w' →
      w'.trace = w.trace ++ [x] → Shows x w')
    (hkeep : ∀ {w e w' x}, I w → Shows x w → Step code handle outside w e w' → I w' → Shows x w') :
    I w ∧ ∀ t ∈ w.threads, ∀ x ∈ t.history, Shows x w := by
  refine h.invariant (I := fun w => I w ∧ ∀ t ∈ w.threads, ∀ x ∈ t.history, Shows x w) ⟨hw, hw'⟩ ?_
  intro w e w' hrun ⟨hs, hall⟩ ha hstep
  have hs' := hI hrun hs hall ha hstep
  have hold : ∀ t ∈ w.threads, ∀ x ∈ t.history, Shows x w' :=
    fun t ht x hx => hkeep hs (hall t ht x hx) hstep hs'
  refine ⟨hs', ?_⟩
  cases hstep with
  | begin c =>
    intro t ht x hx
    rcases List.mem_append.mp ht with ht | ht
    · exact hold t ht x hx
    · rw [List.mem_singleton.mp ht] at hx
      cases hx
  | outside s h => exact hold
  | answer i c past r g k a s hi hr =>
    intro t ht x hx
    rcases mem_set_cases ht with rfl | ht
    · rcases List.mem_append.mp hx with hx | hx
      · exact hold _ (List.mem_of_getElem? hi) x hx
      · rw [List.mem_singleton.mp hx]
        exact hnew hs ha (.answer w i c past r g k a s hi hr) hs' rfl
    · exact hold t ht x hx
  | refuse i c past r g k e s hi hr =>
    intro t ht x hx
    rcases mem_set_cases ht with rfl | ht
    · exact hold _ (List.mem_of_getElem? hi) x hx
    · exact hold t ht x hx

end

/-! ## Schedules

A schedule runs a world step by step: begin a call, or answer the next request of a call. -/

inductive Move (Call : Type) where
  | begin (c : Call)
  | next (thread : Nat)

section

variable (code : Call → Program Res E α) (handle : (r : Req) → σ → Except E (Res r) × σ)

def World.move (w : World σ Call Res E α) : Move Call → Option (World σ Call Res E α)
  | .begin c => some { w with threads := w.threads ++ [⟨c, [], code c⟩] }
  | .next i =>
    match w.threads[i]? with
    | some ⟨c, past, .call r g k⟩ =>
      match handle r w.state with
      | (.ok a, s) => some ⟨s, w.trace ++ [⟨r, a⟩], w.threads.set i ⟨c, past ++ [⟨r, a⟩], k a⟩⟩
      | (.error e, s) => some ⟨s, w.trace, w.threads.set i ⟨c, past, .raise (g e)⟩⟩
    | _ => none

def World.moves (w : World σ Call Res E α) : List (Move Call) → Option (World σ Call Res E α)
  | [] => some w
  | m :: ms => (w.move code handle m).bind (fun w' => w'.moves ms)

def World.event (w : World σ Call Res E α) : Move Call → Option (Event Req)
  | .begin _ => some .begins
  | .next i =>
    match w.threads[i]? with
    | some ⟨_, _, .call r _ _⟩ => some (.requests i r)
    | _ => none

/-- A schedule that stops at an event the check refuses. -/
def World.movesIf (check : World σ Call Res E α → Event Req → Bool) (w : World σ Call Res E α) :
    List (Move Call) → Option (World σ Call Res E α)
  | [] => some w
  | m :: ms =>
    if (w.event m).all (check w) then
      (w.move code handle m).bind (fun w' => w'.movesIf check ms)
    else none

variable {code handle} {outside : σ → σ → Prop}

variable {w w' : World σ Call Res E α}

theorem World.step_of_move {m : Move Call}
    (h : w.move code handle m = some w') :
    ∃ e, w.event m = some e ∧ Step code handle outside w e w' := by
  cases m with
  | begin c =>
    cases h
    exact ⟨_, rfl, .begin w c⟩
  | next i =>
    rw [World.move] at h
    split at h
    · rename_i c past r g k hi
      have hevent : w.event (.next i) = some (.requests i r) := by rw [World.event, hi]
      split at h
      · rename_i a s hr
        cases h
        exact ⟨_, hevent, .answer w i c past r g k a s hi hr⟩
      · rename_i e s hr
        cases h
        exact ⟨_, hevent, .refuse w i c past r g k e s hi hr⟩
    · cases h

theorem World.run_of_moves {ms : List (Move Call)}
    (h : w.moves code handle ms = some w') : FreeRun code handle outside w w' := by
  suffices hgen : ∀ v : World σ Call Res E α, FreeRun code handle outside v w →
      FreeRun code handle outside v w' from hgen w (.refl w)
  induction ms generalizing w with
  | nil =>
    cases h
    exact fun v hv => hv
  | cons m ms ih =>
    obtain ⟨u, hu, hrest⟩ := Option.bind_eq_some_iff.mp h
    have hstep : ∃ e, w.event m = some e ∧ Step code handle outside w e u :=
      World.step_of_move hu
    obtain ⟨e, -, he⟩ := hstep
    exact fun v hv => ih hrest v (.step hv trivial he)

/-- What a checked schedule reaches is reached by a run whose steps pass the check. -/
theorem World.run_of_movesIf {check : World σ Call Res E α → Event Req → Bool} {ms : List (Move Call)}
    (h : w.movesIf code handle check ms = some w') :
    Run code handle outside (fun w e => check w e = true) w w' := by
  suffices hgen : ∀ v : World σ Call Res E α, Run code handle outside (fun w e => check w e = true) v w →
      Run code handle outside (fun w e => check w e = true) v w' from hgen w (.refl w)
  induction ms generalizing w with
  | nil =>
    cases h
    exact fun v hv => hv
  | cons m ms ih =>
    rw [World.movesIf] at h
    split_ifs at h with hcheck
    obtain ⟨u, hu, hrest⟩ := Option.bind_eq_some_iff.mp h
    have hstep : ∃ e, w.event m = some e ∧ Step code handle outside w e u :=
      World.step_of_move hu
    obtain ⟨e, hevent, he⟩ := hstep
    rw [hevent] at hcheck
    exact fun v hv => ih hrest v (.step hv hcheck he)

end

end Ai00
