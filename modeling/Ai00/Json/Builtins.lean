import Ai00.Json.Equality

/-! # Built-in functions on JSON values

Truth values, `str`, `dict`, the order comparisons and `set` of Python, on the values
`json.loads` returns. `str` of a string is the string; of any other value its text stays
abstract (`PythonText`), with what the code relies on: the text is not empty, and it stays
in normal form.

`PySame` is `==` as containers apply it to their items: an object is equal to itself, also
one that is not equal to itself by value, such as NaN.
-/

namespace Ai00

/-! ## Truth and text -/

namespace Json

/-- `bool(value)`. -/
def truthy : Json → Bool
  | .null => false
  | .bool b => b
  | .int n => n ≠ 0
  | .float (.finite x) => x.mant ≠ 0
  | .float _ => true
  | .str s => s ≠ []
  | .arr items => !items.isEmpty
  | .obj fields => !fields.isEmpty
  | .other _ => true

/-- `mapping.get(key)`. -/
def getD (fields : List (Str × Json)) (key : String) : Json :=
  (Dict.get? fields key.toList).getD .null

/-- `value or default`. -/
def orElse (value default : Json) : Json := if value.truthy then value else default

end Json

/-- `str(value)` of values that are no strings, over the normal form `nfc`. -/
structure PythonText (nfc : Str → Str) where
  text : Json → Str
  text_ne_nil : ∀ v, text v ≠ []
  /-- Printing a value whose strings are in normal form gives a text in normal form. -/
  text_nfc : ∀ v, Json.Normal (fun s => nfc s = s) v → nfc (text v) = text v
  /-- Normal forms are closed under substrings. -/
  nfc_substring : ∀ s t : Str, t <:+: s → nfc s = s → nfc t = t

section

variable {nfc : Str → Str} (py : PythonText nfc)

/-- `str(value)`. -/
def PythonText.str : Json → Str
  | .str s => s
  | v => py.text v

/-- `str(value or default)`, for a string as default. -/
def PythonText.strOr (value : Json) (default : Str) : Str :=
  if value.truthy then py.str value else default

theorem PythonText.str_ne_nil {v : Json} (h : v.truthy = true) : py.str v ≠ [] := by
  cases v with
  | str s =>
    show s ≠ []
    simpa [Json.truthy] using h
  | _ => exact py.text_ne_nil _

theorem PythonText.strOr_ne_nil {v : Json} {default : Str} (h : default ≠ []) :
    py.strOr v default ≠ [] := by
  rw [strOr]
  split_ifs with hv
  · exact py.str_ne_nil hv
  · exact h

end

/-- One text for everything but strings; every string is in normal form. -/
def plainText : PythonText (fun s => s) where
  text _ := "value".toList
  text_ne_nil _ := by decide
  text_nfc _ _ := rfl
  nfc_substring _ _ _ _ := rfl

namespace Json

/-! ## Order and sets -/

mutual

/-- `a > b`. -/
def pyGt : Json → Json → Except PyError Bool
  | .str s, .str t => .ok (decide (t < s))
  | .arr xs, .arr ys => pyGtItems xs ys
  | .float .nan, b => if isNumber b then .ok false else .error (.typeError "not supported")
  | a, .float .nan => if isNumber a then .ok false else .error (.typeError "not supported")
  | .float (.inf true), b => if isNumber b then .ok false else .error (.typeError "not supported")
  | .float (.inf false), b =>
    if isNumber b then .ok (b ≠ .float (.inf false)) else .error (.typeError "not supported")
  | a, .float (.inf neg) => if isNumber a then .ok neg else .error (.typeError "not supported")
  | a, b =>
    match numeric a, numeric b with
    | some p, some q => .ok (decide (q < p))
    | _, _ => .error (.typeError "not supported")

/-- Lists: the first items that differ decide, else the length. -/
def pyGtItems : List Json → List Json → Except PyError Bool
  | [], _ => .ok false
  | _ :: _, [] => .ok true
  | x :: xs, y :: ys => if pyEq x y then pyGtItems xs ys else pyGt x y

/-- A value that compares as a number. -/
def isNumber : Json → Bool
  | .bool _ => true
  | .int _ => true
  | .float _ => true
  | _ => false

end

/-- `set(xs) <= set(ys)`; lists and dictionaries have no hash. -/
def pySubset (xs ys : List Json) : Except PyError Bool :=
  let unhashable : Json → Bool := fun v =>
    match v with
    | .arr _ => true
    | .obj _ => true
    | _ => false
  if (xs ++ ys).any unhashable then .error (.typeError "unhashable type")
  else .ok (xs.all (fun x => ys.any (fun y => pyEq x y)))

/-! ## `dict` -/

/-- One element of the argument of `dict`: a key and a value. The keys of a document are
strings. -/
def dictItem : Json → Except PyError (Str × Json)
  | .arr [.str key, value] => .ok (key, value)
  | .str [a, b] => .ok ([a], .str [b])
  | .obj [(key, _), (value, _)] => .ok (key, .str value)
  | _ => .error (.typeError "cannot convert dictionary update sequence element")

/-- `dict(value)`: a copy of a dictionary, or one built from pairs. -/
def dictOf : Json → Except PyError (List (Str × Json))
  | .obj fields => .ok fields
  | .arr items => do
    let pairs ← items.mapM dictItem
    return pairs.foldl (fun d e => Dict.insert e.1 e.2 d) []
  | .str [] => .ok []
  | _ => .error (.typeError "object is not iterable")

/-! ## Equality of items -/

inductive PySame : Json → Json → Prop where
  | same (a : Json) : PySame a a
  | eq {a b : Json} (equal : pyEq a b = true) : PySame a b
  | arr {xs ys : List Json} (length : xs.length = ys.length)
      (items : ∀ (i : Nat) (x y : Json), xs[i]? = some x → ys[i]? = some y → PySame x y) :
      PySame (.arr xs) (.arr ys)
  | obj {fs gs : List (Str × Json)} (keys : Dict.keys fs = Dict.keys gs)
      (items : ∀ k v w, Dict.get? fs k = some v → Dict.get? gs k = some w → PySame v w) :
      PySame (.obj fs) (.obj gs)

theorem PySame.items {xs ys : List Json} (h : PySame (.arr xs) (.arr ys)) :
    List.Forall₂ PySame xs ys := by
  cases h with
  | same => exact List.forall₂_same.mpr fun x _ => .same x
  | eq h => exact ((pyEq_arr xs ys).mp h).imp fun x y hxy => .eq hxy
  | arr hlen hitems =>
    rw [List.forall₂_iff_get]
    exact ⟨hlen, fun i hx hy => hitems i _ _ (List.getElem?_eq_getElem hx)
      (List.getElem?_eq_getElem hy)⟩

theorem PySame.field {fs gs : List (Str × Json)} (hf : Dict.Sorted fs) (hg : Dict.Sorted gs)
    (h : PySame (.obj fs) (.obj gs)) {k : Str} {v w : Json} (hv : Dict.get? fs k = some v)
    (hw : Dict.get? gs k = some w) : PySame v w := by
  cases h with
  | same =>
    rw [hv] at hw
    exact Option.some.inj hw ▸ .same v
  | eq h =>
    have := (pyEq_obj hf hg).mp h k
    rw [hv, hw] at this
    exact .eq this
  | obj _ hitems => exact hitems k v w hv hw

end Json

end Ai00
