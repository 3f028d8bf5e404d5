import Ai00.Basic.Dict
import Ai00.Basic.Python

/-! # JSON values and Python equality

The values `json.loads` returns: `None`, booleans, unbounded integers, binary64 numbers,
strings, lists and dictionaries. A string is the list of its code points; a dictionary is the
list of its items. `other` is any Python object that is none of these, known by its type's name.

`Json.pyEq` is Python's `==` on these values. It is coarser than identity of values: `True`,
`1` and `1.0` are equal, and so are `0.0` and `-0.0`, because numbers are compared by value
(`Json.numeric`). Dictionaries are compared by key, whatever the order of their items.
-/

namespace Ai00

/-- A Python `float`. -/
inductive PyFloat where
  | finite (x : Binary64)
  | inf (neg : Bool)
  | nan
  deriving DecidableEq

inductive Json where
  | null
  | bool (b : Bool)
  | int (n : Int)
  | float (x : PyFloat)
  | str (s : Str)
  | arr (items : List Json)
  | obj (fields : List (Str × Json))
  | other (typeName : String)

namespace Json

/-- Induction over a value, with the hypothesis for every item and every field value. -/
theorem ind {P : Json → Prop} (null : P .null) (bool : ∀ b, P (.bool b))
    (int : ∀ n, P (.int n)) (float : ∀ x, P (.float x)) (str : ∀ s, P (.str s))
    (arr : ∀ xs : List Json, (∀ x ∈ xs, P x) → P (.arr xs))
    (obj : ∀ fs : List (Str × Json), (∀ e ∈ fs, P e.2) → P (.obj fs))
    (other : ∀ t, P (.other t)) (j : Json) : P j := by
  refine @Json.rec P (fun xs => ∀ x ∈ xs, P x) (fun fs => ∀ e ∈ fs, P e.2) (fun e => P e.2)
    null bool int float str arr obj other ?_ ?_ ?_ ?_ ?_ j
  · intro x hx
    cases hx
  · intro x xs hx hxs y hy
    rcases List.mem_cons.mp hy with rfl | hy
    · exact hx
    · exact hxs y hy
  · intro e he
    cases he
  · intro e fs he hfs y hy
    rcases List.mem_cons.mp hy with rfl | hy
    · exact he
    · exact hfs y hy
  · intro _ v hv
    exact hv

/-! ## Depth -/

mutual

/-- Nesting depth; the bound on the recursions that descend two values at once. -/
def depth : Json → Nat
  | .arr xs => depthItems xs + 1
  | .obj fs => depthFields fs + 1
  | _ => 0

def depthItems : List Json → Nat
  | [] => 0
  | x :: xs => max (depth x) (depthItems xs)

def depthFields : List (Str × Json) → Nat
  | [] => 0
  | (_, v) :: fs => max (depth v) (depthFields fs)

end

theorem depth_lt_of_mem_arr {x : Json} {xs : List Json} (h : x ∈ xs) : x.depth < (Json.arr xs).depth := by
  have key : ∀ ys : List Json, x ∈ ys → x.depth ≤ depthItems ys := by
    intro ys
    induction ys with
    | nil => intro hy; cases hy
    | cons y ys ih =>
      intro hy
      rw [depthItems]
      rcases List.mem_cons.mp hy with rfl | hy
      · exact le_max_left _ _
      · exact le_trans (ih hy) (le_max_right _ _)
  have := key xs h
  rw [depth]
  omega

theorem depth_lt_of_mem_obj {k : Str} {v : Json} {fs : List (Str × Json)} (h : (k, v) ∈ fs) :
    v.depth < (Json.obj fs).depth := by
  have key : ∀ gs : List (Str × Json), (k, v) ∈ gs → v.depth ≤ depthFields gs := by
    intro gs
    induction gs with
    | nil => intro hg; cases hg
    | cons g gs ih =>
      obtain ⟨q, w⟩ := g
      intro hg
      rw [depthFields]
      rcases List.mem_cons.mp hg with heq | hg
      · cases heq
        exact le_max_left _ _
      · exact le_trans (ih hg) (le_max_right _ _)
  have := key fs h
  rw [depth]
  omega

/-! ## Identity of values is decidable -/

mutual

def beq : Json → Json → Bool
  | .null, .null => true
  | .bool a, .bool b => a == b
  | .int m, .int n => m == n
  | .float x, .float y => decide (x = y)
  | .str s, .str t => decide (s = t)
  | .arr xs, .arr ys => beqItems xs ys
  | .obj fs, .obj gs => beqFields fs gs
  | .other t, .other u => t == u
  | _, _ => false

def beqItems : List Json → List Json → Bool
  | [], [] => true
  | x :: xs, y :: ys => beq x y && beqItems xs ys
  | _, _ => false

def beqFields : List (Str × Json) → List (Str × Json) → Bool
  | [], [] => true
  | (k, v) :: fs, (q, w) :: gs => decide (k = q) && beq v w && beqFields fs gs
  | _, _ => false

end

theorem beq_iff (a : Json) : ∀ b, beq a b = true ↔ a = b := by
  induction a using Json.ind with
  | null => intro b; cases b <;> simp [beq]
  | bool x => intro b; cases b <;> simp [beq]
  | int n => intro b; cases b <;> simp [beq]
  | float x => intro b; cases b <;> simp [beq]
  | str s => intro b; cases b <;> simp [beq]
  | other t => intro b; cases b <;> simp [beq]
  | arr xs ih =>
    have key : ∀ ys, beqItems xs ys = true ↔ xs = ys := by
      induction xs with
      | nil => intro ys; cases ys <;> simp [beqItems]
      | cons x xs ihx =>
        intro ys
        cases ys with
        | nil => simp [beqItems]
        | cons y ys =>
          rw [beqItems, Bool.and_eq_true, ih x (by simp), ihx (fun z hz => ih z (by simp [hz])), List.cons.injEq]
    intro b
    cases b <;> simp [beq, key]
  | obj fs ih =>
    have key : ∀ gs, beqFields fs gs = true ↔ fs = gs := by
      induction fs with
      | nil => intro gs; cases gs <;> simp [beqFields]
      | cons e fs ihf =>
        obtain ⟨k, v⟩ := e
        intro gs
        cases gs with
        | nil => simp [beqFields]
        | cons g gs =>
          obtain ⟨q, w⟩ := g
          rw [beqFields, Bool.and_eq_true, Bool.and_eq_true, decide_eq_true_iff,
            ih (k, v) (by simp), ihf (fun z hz => ih z (by simp [hz])), List.cons.injEq,
            Prod.mk.injEq]
    intro b
    cases b <;> simp [beq, key]

instance : DecidableEq Json := fun a b => decidable_of_iff _ (beq_iff a b)

/-! ## Python equality -/

/-- The number a value is compared as. `bool` is a subclass of `int`. -/
def numeric : Json → Option ℚ
  | .bool b => some (if b then 1 else 0)
  | .int n => some n
  | .float (.finite x) => some x.toRat
  | _ => none

def numericEq (a b : Json) : Bool :=
  match numeric a, numeric b with
  | some p, some q => decide (p = q)
  | _, _ => false

/-- `==` where at least one side is not a container. -/
def scalarEq : Json → Json → Bool
  | .null, .null => true
  | .str s, .str t => decide (s = t)
  | .float (.inf a), .float (.inf b) => a == b
  | a, b => numericEq a b

mutual

/-- Python's `a == b`. -/
def pyEq : Json → Json → Bool
  | .arr xs, .arr ys => pyEqItems xs ys
  | .obj fs, .obj gs => decide (fs.length = gs.length) && pyEqFields fs gs
  | a, b => scalarEq a b

def pyEqItems : List Json → List Json → Bool
  | [], [] => true
  | x :: xs, y :: ys => pyEq x y && pyEqItems xs ys
  | _, _ => false

/-- Every item of the first dictionary has an equal counterpart in the second. -/
def pyEqFields : List (Str × Json) → List (Str × Json) → Bool
  | [], _ => true
  | (k, v) :: fs, gs =>
    (match Dict.get? gs k with
      | some w => pyEq v w
      | none => false) && pyEqFields fs gs

end

example : pyEq (.obj [("b".toList, .bool true), ("a".toList, .null)])
    (.obj [("a".toList, .null), ("b".toList, .int 1)]) = true := by decide

end Json

end Ai00
