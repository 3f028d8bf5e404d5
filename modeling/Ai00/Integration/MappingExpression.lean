import Ai00.Basic.Checks
import Ai00.Json.Value

/-! # Mapping expressions

`RestrictedExpression` of `application/transform.py`: a mapping expression is parsed as a Python expression,
checked when it is built (`validate`), and evaluated on each source row of an import (`evaluate`). The parser
is a parameter; `Ast` has the nodes that the two methods tell apart.

The check lets through what the evaluation cannot handle: a bare name, a call with no or several arguments,
and a constant that is no JSON scalar. `complete_iff` says that these are all.
-/

namespace Ai00.Integration

/-- Python expressions. A constant that is no JSON value is `Json.other`. -/
inductive Ast where
  | constant (value : Json)
  | name (id : Str)
  | attribute (value : Ast) (attr : Str)
  | call (func : Ast) (args : List Ast) (keywords : List Str)
  | other

/-- The names of `_FUNCTIONS`. -/
def functionNames : List Str := ["lower", "upper", "strip", "string"].map String.toList

def Ast.id? : Ast → Option Str
  | .name id => some id
  | _ => none

/-! ## The check -/

mutual

def validate : Ast → Except String Unit
  | .constant _ => .ok ()
  | .name id => require (id ∈ "source".toList :: functionNames) "mapping expression contains an unknown name"
  | .attribute value attr => do
    require (value.id? = some "source".toList ∧ attr.head? ≠ some '_')
      "mapping expression contains forbidden field access"
    validate value
  | .call func args keywords => do
    require (func.id?.any (· ∈ functionNames) ∧ keywords = []) "mapping expression contains a forbidden call"
    validate func
    validateAll args
  | .other => .error "mapping expression contains a forbidden operation"

def validateAll : List Ast → Except String Unit
  | [] => .ok ()
  | arg :: args => do
    validate arg
    validateAll args

end

/-- The constructor: the tree of an expression that was accepted. -/
def restrictedExpression (parse : Str → Option Ast) (expression : Str) : Except String Ast := do
  let tree ← found (parse (strip expression)) "invalid mapping expression"
  validate tree
  return tree

/-! ## The evaluation -/

inductive EvaluationError where
  | sourceFieldMissing (attr : Str)
  | cannotBeEvaluated
  | keyError
  | typeError

section

variable (str : Json → Str) (lower upper : Str → Str)

/-- A function of `_FUNCTIONS`, which takes one argument. -/
def callFunction (id : Str) : List Json → Except EvaluationError Json
  | [value] =>
    if id = "lower".toList then .ok (.str (lower (str value)))
    else if id = "upper".toList then .ok (.str (upper (str value)))
    else if id = "strip".toList then .ok (.str (strip (str value)))
    else if id = "string".toList then .ok (.str (str value))
    else .error .keyError
  | _ => .error .typeError

mutual

/-- `evaluate`, on the fields of a source row. -/
def evaluate (source : List (Str × Json)) : Ast → Except EvaluationError Json
  | .constant value => .ok value
  | .attribute _ attr => found (Dict.get? source attr) (.sourceFieldMissing attr)
  | .call func args _ => do
    let values ← evaluateAll source args
    callFunction str lower upper (func.id?.getD []) values
  | .name _ => .error .cannotBeEvaluated
  | .other => .error .cannotBeEvaluated

def evaluateAll (source : List (Str × Json)) : List Ast → Except EvaluationError (List Json)
  | [] => .ok []
  | arg :: args => do
    let value ← evaluate source arg
    let values ← evaluateAll source args
    return value :: values

end

end

/-! ## What is promised -/

def IsScalar : Json → Prop
  | .null | .bool _ | .int _ | .str _ => True
  | .float x => ∃ y, x = .finite y
  | _ => False

mutual

/-- The fields that an expression names. -/
def fields : Ast → List Str
  | .attribute _ attr => [attr]
  | .call _ args _ => fieldsOfAll args
  | _ => []

def fieldsOfAll : List Ast → List Str
  | [] => []
  | arg :: args => fields arg ++ fieldsOfAll args

end

/-- **What saving an expression promises**: on every row that has its fields with scalar values it comes to a
scalar, and rows that agree on these fields come to the same. -/
def Complete (str : Json → Str) (lower upper : Str → Str) (tree : Ast) : Prop :=
  ∀ source, (∀ f ∈ fields tree, ∃ value, Dict.get? source f = some value ∧ IsScalar value) →
    ∃ value, evaluate str lower upper source tree = .ok value ∧ IsScalar value
      ∧ ∀ other, (∀ f ∈ fields tree, Dict.get? other f = Dict.get? source f) →
        evaluate str lower upper other tree = .ok value

/-- A field or a constant under calls with one argument each. -/
def Unary : Ast → Prop
  | .constant _ | .attribute _ _ => True
  | .call _ [arg] _ => Unary arg
  | _ => False

/-- The condition: no bare name and no call without its one argument, and a constant that is all of the
expression is a scalar. -/
def Evaluable (tree : Ast) : Prop := Unary tree ∧ ∀ value, tree = .constant value → IsScalar value

/-! ## The two methods agree -/

section

variable {str : Json → Str} {lower upper : Str → Str} {source other : List (Str × Json)}

mutual

theorem evaluate_congr (tree : Ast) (h : ∀ f ∈ fields tree, Dict.get? other f = Dict.get? source f) :
    evaluate str lower upper other tree = evaluate str lower upper source tree := by
  match tree with
  | .constant _ | .name _ | .other => rfl
  | .attribute _ attr => rw [evaluate, evaluate, h attr List.mem_cons_self]
  | .call _ args _ => rw [evaluate, evaluate, evaluateAll_congr args h]

theorem evaluateAll_congr (args : List Ast)
    (h : ∀ f ∈ fieldsOfAll args, Dict.get? other f = Dict.get? source f) :
    evaluateAll str lower upper other args = evaluateAll str lower upper source args := by
  match args with
  | [] => rfl
  | arg :: args =>
    rw [evaluateAll, evaluateAll, evaluate_congr arg fun f hf => h f (List.mem_append_left _ hf),
      evaluateAll_congr args fun f hf => h f (List.mem_append_right _ hf)]

end

theorem callFunction_ok {id : Str} (hid : id ∈ functionNames) (value : Json) :
    ∃ s, callFunction str lower upper id [value] = .ok (.str s) := by
  unfold callFunction
  simp only [functionNames, List.map_cons, List.map_nil, List.mem_cons, List.not_mem_nil, or_false] at hid
  split_ifs with hlower hupper hstrip hstring
  · exact ⟨_, rfl⟩
  · exact ⟨_, rfl⟩
  · exact ⟨_, rfl⟩
  · exact ⟨_, rfl⟩
  · tauto

theorem call_accepted {func : Ast} {args : List Ast} {keywords : List Str}
    (h : validate (.call func args keywords) = .ok ()) :
    (∃ id ∈ functionNames, func.id? = some id) ∧ validateAll args = .ok () := by
  simp only [validate, andThen_eq_ok, require_eq_ok] at h
  obtain ⟨⟨hid, -⟩, -, hargs⟩ := h
  cases hfunc : func.id? with
  | none => simp [hfunc] at hid
  | some id => exact ⟨⟨id, by simpa [hfunc] using hid, rfl⟩, hargs⟩

theorem evaluate_unary (tree : Ast) (hvalid : validate tree = .ok ()) (hunary : Unary tree)
    (hfields : ∀ f ∈ fields tree, ∃ value, Dict.get? source f = some value ∧ IsScalar value) :
    ∃ value, evaluate str lower upper source tree = .ok value ∧ (IsScalar value ∨ tree = .constant value) := by
  match tree with
  | .constant value => exact ⟨value, rfl, .inr rfl⟩
  | .attribute _ attr =>
    obtain ⟨value, hget, hscalar⟩ := hfields attr List.mem_cons_self
    exact ⟨value, by rw [evaluate, hget]; rfl, .inl hscalar⟩
  | .call func [arg] keywords =>
    obtain ⟨⟨id, hid, hfunc⟩, hargs⟩ := call_accepted hvalid
    obtain ⟨harg, -⟩ := andThen_eq_ok.mp hargs
    obtain ⟨value, hvalue, -⟩ := evaluate_unary arg harg hunary fun f hf => hfields f (List.mem_append_left _ hf)
    obtain ⟨s, hcall⟩ := callFunction_ok hid value
    refine ⟨.str s, ?_, .inl trivial⟩
    simp only [evaluate, evaluateAll, hvalue, ok_bind, hfunc, Option.getD_some]
    exact hcall

theorem unary_of_evaluate (tree : Ast) {value : Json} (h : evaluate str lower upper source tree = .ok value) :
    Unary tree := by
  match tree with
  | .constant _ | .attribute _ _ => trivial
  | .name _ | .other => cases h
  | .call _ [] _ => cases h
  | .call func [arg] _ =>
    simp only [evaluate, evaluateAll, bind_eq_ok] at h
    obtain ⟨-, ⟨inner, hinner, -⟩, -⟩ := h
    exact unary_of_evaluate arg hinner
  | .call _ (_ :: _ :: _) _ =>
    obtain ⟨values, hvalues, hcall⟩ := bind_eq_ok.mp h
    obtain ⟨_, _, hvalues⟩ := bind_eq_ok.mp hvalues
    obtain ⟨_, hrest, hvalues⟩ := bind_eq_ok.mp hvalues
    obtain ⟨_, _, hrest⟩ := bind_eq_ok.mp hrest
    obtain ⟨_, _, hrest⟩ := bind_eq_ok.mp hrest
    cases hrest
    cases hvalues
    cases hcall

end

theorem get?_nulls {names : List Str} {f : Str} (h : f ∈ names) :
    Dict.get? (names.map fun name => (name, Json.null)) f = some .null := by
  induction names with
  | nil => cases h
  | cons name names ih =>
    rw [List.map_cons, Dict.get?]
    split_ifs with heq
    · rfl
    · exact ih (List.mem_of_ne_of_mem (Ne.symm heq) h)

/-- **The check is complete** exactly for the expressions that can be evaluated. -/
theorem complete_iff {str : Json → Str} {lower upper : Str → Str} {parse : Str → Option Ast} {expression : Str}
    {tree : Ast} (h : restrictedExpression parse expression = .ok tree) :
    Complete str lower upper tree ↔ Evaluable tree := by
  have hvalid : validate tree = .ok () := by
    obtain ⟨_, -, h⟩ := bind_eq_ok.mp h
    obtain ⟨hvalid, h⟩ := andThen_eq_ok.mp h
    cases h
    exact hvalid
  constructor
  · intro hcomplete
    obtain ⟨value, hvalue, hscalar, -⟩ := hcomplete ((fields tree).map fun f => (f, .null))
      fun f hf => ⟨.null, get?_nulls hf, trivial⟩
    refine ⟨unary_of_evaluate tree hvalue, ?_⟩
    rintro constant rfl
    cases hvalue
    exact hscalar
  · rintro ⟨hunary, hconstant⟩ source hfields
    obtain ⟨value, hvalue, hscalar⟩ := evaluate_unary tree hvalid hunary hfields
    refine ⟨value, hvalue, ?_, fun other hsame => (evaluate_congr tree hsame).trans hvalue⟩
    rcases hscalar with hscalar | hconst
    · exact hscalar
    · exact hconstant value hconst

/-- `lower(source.name)`. -/
def lowerName : Ast :=
  .call (.name "lower".toList) [.attribute (.name "source".toList) "name".toList] []

theorem complete_lowerName : Complete (fun _ => []) id id lowerName := by
  have h : restrictedExpression (fun _ => some lowerName) "lower(source.name)".toList = .ok lowerName := rfl
  exact (complete_iff h).mpr ⟨trivial, nofun⟩

/-- The expression `source` is accepted, and cannot be evaluated on any row. -/
theorem source_incomplete : restrictedExpression (fun _ => some (.name "source".toList)) "source".toList
      = .ok (.name "source".toList) ∧ ¬ Complete (fun _ => []) id id (.name "source".toList) := by
  refine ⟨rfl, fun h => ?_⟩
  obtain ⟨value, hvalue, -⟩ := h [] fun f hf => nomatch hf
  cases hvalue

end Ai00.Integration
