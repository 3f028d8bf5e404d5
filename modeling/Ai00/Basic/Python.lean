import Mathlib

/-! # The Python runtime the model refers to

Strings, built-in exceptions and the parts of the standard library whose behaviour the
repository depends on but whose code is not in it. Python strings are lists of code points;
`str.replace`, `str.split` and `str.strip` are given as functions on them.

`Platform` collects the library functions that stay abstract: Unicode NFC, the shortest
decimal text of a binary64 number, and the SHA-256 hex digest. Their fields state the
documented behaviour the repository relies on. A digest is idealised as collision free, in
full and truncated form alike.
-/

namespace Ai00

/-- A Python `str`, as its code points. -/
abbrev Str := List Char

-- by name, so that definitions that compare or sort strings share them
instance lawfulStr : LawfulBEq Str := inferInstance

instance transStr : IsTrans Str (· ≤ ·) := inferInstance

instance antisymmStr : Std.Antisymm (α := Str) (· ≤ ·) := inferInstance

instance totalStr : Std.Total (α := Str) (· ≤ ·) := inferInstance

/-- Built-in exceptions, with their message. -/
inductive PyError where
  | typeError (message : String)
  | valueError (message : String)
  | keyError (key : Str)
  | runtimeError (message : String)
  | attributeError (message : String)
  | assertionError
  | validationError (message : String)
  | dataError (message : String)
  deriving DecidableEq

theorem bind_eq_ok {ε α β : Type} {x : Except ε α} {f : α → Except ε β} {r : β} :
    (x >>= f) = .ok r ↔ ∃ a, x = .ok a ∧ f a = .ok r := by
  cases x with
  | error e => simp [Bind.bind, Except.bind]
  | ok a => simp [Bind.bind, Except.bind]

/-! ## String operations -/

/-- `s.replace(c, r)` for a one-character pattern. -/
def replaceChar (c : Char) (r : Str) (s : Str) : Str :=
  s.flatMap (fun x => if x = c then r else [x])

/-- `s.replace(ab, r)` for a two-character pattern: leftmost matches first. -/
def replacePair (a b : Char) (r : Str) : Str → Str
  | x :: y :: s =>
    if x = a ∧ y = b then r ++ replacePair a b r s else x :: replacePair a b r (y :: s)
  | s => s

/-- `s.split(sep)`. -/
def splitOn (sep : Char) : Str → List Str
  | [] => [[]]
  | c :: s =>
    if c = sep then [] :: splitOn sep s
    else
      match splitOn sep s with
      | [] => [[c]]
      | w :: ws => (c :: w) :: ws

/-- `str.isspace` on one code point. -/
def isSpace (c : Char) : Bool :=
  let n := c.toNat
  (9 ≤ n && n ≤ 13) || (28 ≤ n && n ≤ 32) || n == 0x85 || n == 0xA0 || n == 0x1680
    || (0x2000 ≤ n && n ≤ 0x200A) || n == 0x2028 || n == 0x2029 || n == 0x202F
    || n == 0x205F || n == 0x3000

/-- `s.strip()`. -/
def strip (s : Str) : Str := ((s.dropWhile isSpace).reverse.dropWhile isSpace).reverse

/-- A pattern `^[first][rest]{lo,hi}$`. -/
def matchesName (first rest : Char → Bool) (lo hi : Nat) : Str → Bool
  | [] => false
  | c :: s => first c && s.all rest && decide (lo ≤ s.length) && decide (s.length ≤ hi)

theorem splitOn_ne_nil (sep : Char) (s : Str) : splitOn sep s ≠ [] := by
  cases s with
  | nil => simp [splitOn]
  | cons c s =>
    rw [splitOn]
    split_ifs
    · simp
    · cases splitOn sep s <;> simp

theorem splitOn_of_not_mem {sep : Char} {s : Str} (h : sep ∉ s) : splitOn sep s = [s] := by
  induction s with
  | nil => rfl
  | cons c s ih =>
    rw [List.mem_cons, not_or] at h
    rw [splitOn, if_neg (Ne.symm h.1), ih h.2]

theorem splitOn_append {sep : Char} {s : Str} (h : sep ∉ s) (t : Str) :
    splitOn sep (s ++ sep :: t) = s :: splitOn sep t := by
  induction s with
  | nil => rw [List.nil_append, splitOn, if_pos rfl]
  | cons c s ih =>
    rw [List.mem_cons, not_or] at h
    rw [List.cons_append, splitOn, if_neg (Ne.symm h.1), ih h.2]

/-! ## Stripping -/

theorem strip_isInfix (s : Str) : strip s <:+: s := by
  have hright : (strip s).reverse <:+ (s.dropWhile isSpace).reverse := by
    rw [strip, List.reverse_reverse]
    exact List.dropWhile_suffix _
  have hprefixed : strip s <+: s.dropWhile isSpace := by
    simpa using List.reverse_suffix.mp hright
  exact hprefixed.isInfix.trans (List.dropWhile_suffix _).isInfix

theorem dropWhile_eq_self_of_head {α : Type} {p : α → Bool} {l : List α}
    (h : ∀ x ∈ l.head?, p x = false) : l.dropWhile p = l := by
  cases l with
  | nil => rfl
  | cons x l => exact List.dropWhile_cons_of_neg (by simp [h x rfl])

theorem head?_dropWhile {α : Type} {p : α → Bool} (l : List α) : ∀ x ∈ (l.dropWhile p).head?, p x = false := by
  induction l with
  | nil => intro x hx; cases hx
  | cons y l ih =>
    by_cases hy : p y = true
    · rw [List.dropWhile_cons_of_pos hy]
      exact ih
    · rw [List.dropWhile_cons_of_neg hy]
      intro x hx
      cases hx
      simpa using hy

@[simp] theorem strip_strip (s : Str) : strip (strip s) = strip s := by
  have hback : ∀ x ∈ (strip s).reverse.head?, isSpace x = false := by
    rw [strip, List.reverse_reverse]
    exact head?_dropWhile _
  have hfront : ∀ x ∈ (strip s).head?, isSpace x = false := by
    intro x hx
    obtain ⟨t, ht⟩ : strip s <+: s.dropWhile isSpace := by
      have hright : (strip s).reverse <:+ (s.dropWhile isSpace).reverse := by
        rw [strip, List.reverse_reverse]
        exact List.dropWhile_suffix _
      simpa using List.reverse_suffix.mp hright
    refine head?_dropWhile s x ?_
    rw [← ht]
    cases hs : strip s with
    | nil =>
      rw [hs] at hx
      cases hx
    | cons c r =>
      rw [hs] at hx
      exact hx
  rw [strip, dropWhile_eq_self_of_head hfront, dropWhile_eq_self_of_head hback, List.reverse_reverse]

theorem strip_append_left {w : Str} (h : ∀ c ∈ w, isSpace c = true) (s : Str) : strip (w ++ s) = strip s := by
  rw [strip, List.dropWhile_append_of_pos h, ← strip]

theorem strip_append_right {w : Str} (h : ∀ c ∈ w, isSpace c = true) (s : Str) : strip (s ++ w) = strip s := by
  by_cases hblank : ∀ c ∈ s, isSpace c = true
  · have hall : ∀ c ∈ s ++ w, isSpace c = true := fun c hc => (List.mem_append.mp hc).elim (hblank c) (h c)
    rw [strip, strip, List.dropWhile_eq_nil_iff.mpr hall, List.dropWhile_eq_nil_iff.mpr hblank]
  · have hne : (s.dropWhile isSpace).isEmpty = false := by
      rw [List.isEmpty_eq_false_iff]
      exact fun hnil => hblank (List.dropWhile_eq_nil_iff.mp hnil)
    have hreverse : ∀ c ∈ w.reverse, isSpace c = true := fun c hc => h c (List.mem_reverse.mp hc)
    rw [strip, List.dropWhile_append, hne, if_neg Bool.false_ne_true, List.reverse_append,
      List.dropWhile_append_of_pos hreverse, ← strip]

/-- What `strip` takes away is space on both sides. -/
theorem exists_strip (s : Str) : ∃ w₁ w₂, (∀ c ∈ w₁, isSpace c = true)
    ∧ (∀ c ∈ w₂, isSpace c = true) ∧ s = w₁ ++ strip s ++ w₂ := by
  let s' := s.dropWhile isSpace
  refine ⟨s.takeWhile isSpace, (s'.reverse.takeWhile isSpace).reverse, ?_, ?_, ?_⟩
  · exact fun c hc => List.mem_takeWhile_imp hc
  · exact fun c hc => List.mem_takeWhile_imp (List.mem_reverse.mp hc)
  · have hback : strip s ++ (s'.reverse.takeWhile isSpace).reverse = s' := by
      rw [strip, ← List.reverse_append, List.takeWhile_append_dropWhile, List.reverse_reverse]
    rw [List.append_assoc, hback, List.takeWhile_append_dropWhile]

theorem not_isSpace_of_strip {s rest : Str} {c : Char} (h : strip s = c :: rest) :
    isSpace c = false := by
  have hself := strip_strip s
  rw [h] at hself
  by_contra hc
  have hshort : (strip (c :: rest)).length ≤ rest.length := by
    rw [show c :: rest = [c] ++ rest from rfl,
      strip_append_left (fun d hd => by rw [List.mem_singleton.mp hd]; simpa using hc)]
    exact (strip_isInfix rest).length_le
  rw [hself, List.length_cons] at hshort
  omega

theorem strip_ne_nil {s : Str} (h : ∃ c ∈ s, isSpace c = false) : strip s ≠ [] := by
  intro hnil
  obtain ⟨w₁, w₂, hw₁, hw₂, hs⟩ := exists_strip s
  obtain ⟨c, hc, hspace⟩ := h
  rw [hnil, List.append_nil] at hs
  rw [hs, List.mem_append] at hc
  rcases hc with hc | hc
  · rw [hw₁ c hc] at hspace
    cases hspace
  · rw [hw₂ c hc] at hspace
    cases hspace

/-- A text survives up to its last character that is not a space. -/
theorem strip_append_cons {a x : Char} (ha : isSpace a = false) (hx : isSpace x = false)
    (s z : Str) : ∃ z', strip (a :: s ++ x :: z) = a :: s ++ x :: z' := by
  have hfront : (a :: s ++ x :: z).dropWhile isSpace = a :: s ++ x :: z := by
    rw [List.cons_append, List.dropWhile_cons_of_neg (by simp [ha])]
  refine ⟨(z.reverse.dropWhile isSpace).reverse, ?_⟩
  rw [strip, hfront]
  have hreverse : (a :: s ++ x :: z).reverse = z.reverse ++ (x :: (a :: s).reverse) := by simp
  rw [hreverse, List.dropWhile_append]
  by_cases hz : (z.reverse.dropWhile isSpace).isEmpty
  · rw [if_pos hz, List.dropWhile_cons_of_neg (by simp [hx])]
    rw [List.isEmpty_iff.mp hz]
    simp
  · rw [if_neg hz]
    simp

/-! ## UTF-8 -/

/-- `s.encode("utf-8")`. -/
def utf8 (s : Str) : List UInt8 := s.flatMap String.utf8EncodeChar

theorem utf8_injective : Function.Injective utf8 := by
  intro s t h
  have henc : s.utf8Encode = t.utf8Encode := congrArg List.toByteArray h
  have hdec := congrArg ByteArray.utf8Decode? henc
  rw [List.utf8Decode?_utf8Encode, List.utf8Decode?_utf8Encode] at hdec
  simpa using hdec

/-! ## The library functions kept abstract -/

/-- A finite binary64 number: sign, integer significand and binary exponent, in the one form
IEEE 754 gives it. -/
structure Binary64 where
  neg : Bool
  mant : Nat
  exp : Int
  canonical : mant < 2 ^ 53 ∧ -1074 ≤ exp ∧ exp ≤ 971 ∧ (2 ^ 52 ≤ mant ∨ exp = -1074)
  deriving DecidableEq

def Binary64.zero : Binary64 := ⟨false, 0, -1074, by decide⟩

def Binary64.one : Binary64 := ⟨false, 2 ^ 52, -52, by decide⟩

/-- The number a finite binary64 denotes. -/
def Binary64.toRat (x : Binary64) : ℚ :=
  (if x.neg then -1 else 1) * x.mant * (2 : ℚ) ^ x.exp

/-- The characters of a number literal. -/
def isNumChar (c : Char) : Bool := c.isDigit || c == '-' || c == '+' || c == '.' || c == 'e'

structure Platform where
  /-- `unicodedata.normalize("NFC", s)`. -/
  nfc : Str → Str
  nfc_nfc : ∀ s, nfc (nfc s) = nfc s
  nfc_ascii : ∀ s : Str, (∀ c ∈ s, c.toNat < 128) → nfc s = s
  /-- `float.__repr__` on a finite number. -/
  floatRepr : Binary64 → Str
  floatRepr_injective : Function.Injective floatRepr
  floatRepr_chars : ∀ x, ∀ c ∈ floatRepr x, isNumChar c = true
  floatRepr_head : ∀ x, ∃ c s, floatRepr x = c :: s ∧ (c.isDigit = true ∨ c = '-')
  /-- A float is never printed like an integer. -/
  floatRepr_mark : ∀ x, '.' ∈ floatRepr x ∨ 'e' ∈ floatRepr x
  /-- The first `n` characters of `hashlib.sha256(data).hexdigest()`. -/
  digest : Nat → List UInt8 → Str
  digest_injective : ∀ n, Function.Injective (digest n)
  digest_ascii : ∀ n data, ∀ c ∈ digest n data, c.toNat < 128

end Ai00
