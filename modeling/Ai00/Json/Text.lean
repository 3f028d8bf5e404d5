import Ai00.Json.Equality

/-! # The text of a JSON value

`Json.dumps` is `json.dumps(value, ensure_ascii=False, separators=(",", ":"))`. On normal
documents the text determines the value (`dumps_injective`): the first character of a text
tells the kind of value, a number ends where the number characters end, a string where its
closing quote is, and an array or object where its bracket is.
-/

namespace Ai00.Json

/-! ## Printing -/

def hexDigit (n : Nat) : Char := (Nat.digitChar n)

/-- One character of a JSON string literal. -/
def escapeChar (c : Char) : Str :=
  if c = '"' then ['\\', '"']
  else if c = '\\' then ['\\', '\\']
  else if c = '\n' then ['\\', 'n']
  else if c = '\r' then ['\\', 'r']
  else if c = '\t' then ['\\', 't']
  else if c = '\x08' then ['\\', 'b']
  else if c = '\x0c' then ['\\', 'f']
  else if c.toNat < 32 then
    ['\\', 'u', '0', '0', hexDigit (c.toNat / 16), hexDigit (c.toNat % 16)]
  else [c]

def quote (s : Str) : Str := '"' :: (s.flatMap escapeChar ++ ['"'])

def intText : Int → Str
  | .ofNat n => Nat.toDigits 10 n
  | .negSucc n => '-' :: Nat.toDigits 10 (n + 1)

def floatText (repr : Binary64 → Str) : PyFloat → Str
  | .finite x => repr x
  | .inf false => "Infinity".toList
  | .inf true => "-Infinity".toList
  | .nan => "NaN".toList

section

variable (repr : Binary64 → Str)

mutual

def dumps : Json → Str
  | .null => "null".toList
  | .bool true => "true".toList
  | .bool false => "false".toList
  | .int n => intText n
  | .float x => floatText repr x
  | .str s => quote s
  | .arr xs => '[' :: dumpsItems xs
  | .obj fs => '{' :: dumpsFields fs
  | .other _ => []

/-- The items of an array and its closing bracket. -/
def dumpsItems : List Json → Str
  | [] => [']']
  | x :: xs => dumps x ++ dumpsMoreItems xs

def dumpsMoreItems : List Json → Str
  | [] => [']']
  | x :: xs => ',' :: (dumps x ++ dumpsMoreItems xs)

/-- The fields of an object and its closing brace. -/
def dumpsFields : List (Str × Json) → Str
  | [] => ['}']
  | (k, v) :: fs => quote k ++ ':' :: (dumps v ++ dumpsMoreFields fs)

def dumpsMoreFields : List (Str × Json) → Str
  | [] => ['}']
  | (k, v) :: fs => ',' :: (quote k ++ ':' :: (dumps v ++ dumpsMoreFields fs))

end

end

example : dumps (fun _ => []) (.obj [("a".toList, .arr [.int (-3), .bool true]),
    ("b".toList, .str "x\"\n".toList)]) = "\x7b\"a\":[-3,true],\"b\":\"x\\\"\\n\"\x7d".toList := by
  decide

/-! ## String literals -/

def hexValue (c : Char) : Nat := if c.isDigit then c.toNat - 48 else c.toNat - 87

/-- Reads back one character of a string literal. -/
def readChar : Str → Option (Char × Str)
  | '\\' :: 'u' :: _ :: _ :: h :: l :: s => some (Char.ofNat (16 * hexValue h + hexValue l), s)
  | '\\' :: 'n' :: s => some ('\n', s)
  | '\\' :: 'r' :: s => some ('\r', s)
  | '\\' :: 't' :: s => some ('\t', s)
  | '\\' :: 'b' :: s => some ('\x08', s)
  | '\\' :: 'f' :: s => some ('\x0c', s)
  | '\\' :: c :: s => some (c, s)
  | c :: s => some (c, s)
  | [] => none

theorem hexValue_hexDigit : ∀ n, n < 16 → hexValue (hexDigit n) = n := by decide

theorem readChar_escapeChar (c : Char) (s : Str) : readChar (escapeChar c ++ s) = some (c, s) := by
  unfold escapeChar
  split_ifs with h1 h2 h3 h4 h5 h6 h7 h8
  · subst h1; rfl
  · subst h2; rfl
  · subst h3; rfl
  · subst h4; rfl
  · subst h5; rfl
  · subst h6; rfl
  · subst h7; rfl
  · have hval : 16 * (c.toNat / 16) + c.toNat % 16 = c.toNat := by omega
    show some (Char.ofNat (16 * hexValue (hexDigit (c.toNat / 16))
      + hexValue (hexDigit (c.toNat % 16))), s) = some (c, s)
    rw [hexValue_hexDigit _ (by omega), hexValue_hexDigit _ (by omega), hval, Char.ofNat_toNat]
  · show readChar (c :: s) = some (c, s)
    unfold readChar
    split <;> simp_all

theorem escapeChar_head_ne_quote (c : Char) (s r : Str) : escapeChar c ++ s ≠ '"' :: r := by
  unfold escapeChar
  split_ifs <;> simp_all

theorem quote_append_inj {s t r r' : Str} (h : quote s ++ r = quote t ++ r') :
    s = t ∧ r = r' := by
  have key : ∀ s t : Str, s.flatMap escapeChar ++ '"' :: r = t.flatMap escapeChar ++ '"' :: r' →
      s = t ∧ r = r' := by
    intro s
    induction s with
    | nil =>
      intro t ht
      cases t with
      | nil => exact ⟨rfl, by simpa using ht⟩
      | cons d t =>
        rw [List.flatMap_nil, List.nil_append, List.flatMap_cons, List.append_assoc] at ht
        exact absurd ht.symm (escapeChar_head_ne_quote d _ _)
    | cons c s ih =>
      intro t ht
      rw [List.flatMap_cons, List.append_assoc] at ht
      cases t with
      | nil => exact absurd ht (escapeChar_head_ne_quote c _ _)
      | cons d t =>
        rw [List.flatMap_cons, List.append_assoc] at ht
        have hread := congrArg readChar ht
        rw [readChar_escapeChar, readChar_escapeChar, Option.some.injEq, Prod.mk.injEq] at hread
        obtain ⟨rfl, hrest⟩ := hread
        obtain ⟨rfl, hr⟩ := ih t hrest
        exact ⟨rfl, hr⟩
  refine key s t ?_
  simpa [quote] using h

/-! ## Number literals -/

theorem isNumChar_of_isDigit {c : Char} (h : c.isDigit = true) : isNumChar c = true := by
  simp [isNumChar, h]

theorem intText_chars (n : Int) : ∀ c ∈ intText n, c.isDigit = true ∨ c = '-' := by
  intro c hc
  cases n with
  | ofNat n => exact Or.inl (Nat.isDigit_of_mem_toDigits (by omega) (by omega) hc)
  | negSucc n =>
    rcases List.mem_cons.mp hc with rfl | hc
    · exact Or.inr rfl
    · exact Or.inl (Nat.isDigit_of_mem_toDigits (by omega) (by omega) hc)

theorem intText_ne_nil (n : Int) : intText n ≠ [] := by
  cases n with
  | ofNat n => exact Nat.toDigits_ne_nil
  | negSucc n => exact List.cons_ne_nil _ _

theorem toDigits_injective {m n : Nat} (h : Nat.toDigits 10 m = Nat.toDigits 10 n) : m = n := by
  have h' := congrArg (fun ds => Nat.ofDigitChars 10 ds 0) h
  simpa [Nat.ofDigitChars_ten_toDigits] using h'

theorem intText_injective : Function.Injective intText := by
  intro m n h
  have hminus : ∀ k l : Nat, Nat.toDigits 10 k ≠ '-' :: Nat.toDigits 10 l := by
    intro k l hkl
    have hmem : '-' ∈ Nat.toDigits 10 k := hkl ▸ List.mem_cons_self
    have := Nat.isDigit_of_mem_toDigits (by omega) (by omega) hmem
    simp [Char.isDigit] at this
  cases m with
  | ofNat m =>
    cases n with
    | ofNat n => rw [toDigits_injective h]
    | negSucc n => exact absurd h (hminus m (n + 1))
  | negSucc m =>
    cases n with
    | ofNat n => exact absurd h.symm (hminus n (m + 1))
    | negSucc n =>
      have := toDigits_injective (List.cons.inj h).2
      rw [Nat.succ.inj this]

/-- The text goes on with something that is not part of a number. -/
def Stops (r : Str) : Prop := ∀ c s, r = c :: s → isNumChar c = false

theorem stops_nil : Stops [] := by
  intro c s h
  cases h

theorem stops_cons {c : Char} (h : isNumChar c = false) (s : Str) : Stops (c :: s) := by
  intro c' s' heq
  cases heq
  exact h

/-- A number literal ends where the number characters end. -/
theorem numText_append_inj {u v r r' : Str} (hu : ∀ c ∈ u, isNumChar c = true)
    (hv : ∀ c ∈ v, isNumChar c = true) (hr : Stops r) (hr' : Stops r')
    (h : u ++ r = v ++ r') : u = v ∧ r = r' := by
  induction u generalizing v with
  | nil =>
    cases v with
    | nil => exact ⟨rfl, h⟩
    | cons d v =>
      have hd := hr d (v ++ r') h
      rw [hv d List.mem_cons_self] at hd
      cases hd
  | cons c u ih =>
    cases v with
    | nil =>
      have hc := hr' c (u ++ r) h.symm
      rw [hu c List.mem_cons_self] at hc
      cases hc
    | cons d v =>
      rw [List.cons_append, List.cons_append, List.cons.injEq] at h
      obtain ⟨rfl, hrest⟩ := h
      obtain ⟨rfl, hr⟩ := ih (fun c hc => hu c (List.mem_cons_of_mem _ hc))
        (fun c hc => hv c (List.mem_cons_of_mem _ hc)) hrest
      exact ⟨rfl, hr⟩

/-! ## The first character tells the kind of value -/

def kind : Json → Nat
  | .null => 0
  | .bool _ => 1
  | .int _ => 2
  | .float _ => 2
  | .str _ => 3
  | .arr _ => 4
  | .obj _ => 5
  | .other _ => 7

def kindOfChar (c : Char) : Nat :=
  if c = 'n' then 0
  else if c = 't' ∨ c = 'f' then 1
  else if c.isDigit ∨ c = '-' then 2
  else if c = '"' then 3
  else if c = '[' then 4
  else if c = '{' then 5
  else 6

theorem kindOfChar_number {c : Char} (h : c.isDigit = true ∨ c = '-') : kindOfChar c = 2 := by
  have hn : c ≠ 'n' := by rintro rfl; simp [Char.isDigit] at h
  have ht : ¬(c = 't' ∨ c = 'f') := by
    rintro (rfl | rfl) <;> simp [Char.isDigit] at h
  rw [kindOfChar, if_neg hn, if_neg ht, if_pos h]

section

variable (pf : Platform) {text : Str → Prop}

theorem dumps_head {a : Json} (ha : Normal text a) :
    ∃ c s, dumps pf.floatRepr a = c :: s ∧ kindOfChar c = kind a := by
  cases a with
  | null => exact ⟨_, _, rfl, rfl⟩
  | bool b => cases b <;> exact ⟨_, _, rfl, rfl⟩
  | int n =>
    obtain ⟨c, s, hcs⟩ := List.exists_cons_of_ne_nil (intText_ne_nil n)
    refine ⟨c, s, hcs, kindOfChar_number (intText_chars n c ?_)⟩
    rw [hcs]
    exact List.mem_cons_self
  | float x =>
    obtain ⟨y, rfl⟩ := ha
    obtain ⟨c, s, hcs, hc⟩ := pf.floatRepr_head y
    exact ⟨c, s, hcs, kindOfChar_number hc⟩
  | str s => exact ⟨_, _, rfl, rfl⟩
  | arr xs => exact ⟨_, _, rfl, rfl⟩
  | obj fs => exact ⟨_, _, rfl, rfl⟩
  | other t => exact ha.elim

theorem dumps_append_ne_cons {a : Json} (ha : Normal text a) {c : Char}
    (hc : kindOfChar c = 6) (r s : Str) : dumps pf.floatRepr a ++ r ≠ c :: s := by
  intro h
  obtain ⟨d, t, hd, hk⟩ := dumps_head pf ha
  rw [hd, List.cons_append, List.cons.injEq] at h
  rw [h.1, hc] at hk
  cases a <;> cases hk

theorem stops_dumpsMoreItems (xs : List Json) (r : Str) : Stops (dumpsMoreItems pf.floatRepr xs ++ r) := by
  cases xs with
  | nil => exact stops_cons rfl _
  | cons x xs => exact stops_cons rfl _

theorem stops_dumpsMoreFields (fs : List (Str × Json)) (r : Str) :
    Stops (dumpsMoreFields pf.floatRepr fs ++ r) := by
  cases fs with
  | nil => exact stops_cons rfl _
  | cons e fs => exact stops_cons rfl _

/-! ## The text determines the value -/

/-- `a` is read off any text that starts with it. -/
def Readable (text : Str → Prop) (a : Json) : Prop :=
  ∀ b, Normal text b → ∀ r r', Stops r → Stops r' →
    dumps pf.floatRepr a ++ r = dumps pf.floatRepr b ++ r' → a = b ∧ r = r'

variable {r r' : Str}

theorem dumpsMoreItems_inj {xs : List Json} (ih : ∀ x ∈ xs, Readable pf text x)
    {ys : List Json} (hy : ∀ y ∈ ys, Normal text y)
    (h : dumpsMoreItems pf.floatRepr xs ++ r = dumpsMoreItems pf.floatRepr ys ++ r') :
    xs = ys ∧ r = r' := by
  induction xs generalizing ys with
  | nil =>
    cases ys with
    | nil => exact ⟨rfl, by simpa [dumpsMoreItems] using h⟩
    | cons y ys => simp [dumpsMoreItems] at h
  | cons x xs ihx =>
    cases ys with
    | nil => simp [dumpsMoreItems] at h
    | cons y ys =>
      rw [dumpsMoreItems, dumpsMoreItems, List.cons_append, List.cons_append,
        List.append_assoc, List.append_assoc, List.cons.injEq] at h
      obtain ⟨rfl, hrest⟩ := ih x (by simp) y (hy y (by simp)) _ _
        (stops_dumpsMoreItems pf xs r) (stops_dumpsMoreItems pf ys r') h.2
      obtain ⟨rfl, hr⟩ := ihx (fun z hz => ih z (by simp [hz]))
        (fun z hz => hy z (by simp [hz])) hrest
      exact ⟨rfl, hr⟩

theorem dumpsMoreFields_inj {fs : List (Str × Json)} (ih : ∀ e ∈ fs, Readable pf text e.2)
    {gs : List (Str × Json)} (hg : ∀ e ∈ gs, Normal text e.2)
    (h : dumpsMoreFields pf.floatRepr fs ++ r = dumpsMoreFields pf.floatRepr gs ++ r') :
    fs = gs ∧ r = r' := by
  induction fs generalizing gs with
  | nil =>
    cases gs with
    | nil => exact ⟨rfl, by simpa [dumpsMoreFields] using h⟩
    | cons g gs => simp [dumpsMoreFields] at h
  | cons e fs ihf =>
    obtain ⟨k, v⟩ := e
    cases gs with
    | nil => simp [dumpsMoreFields] at h
    | cons g gs =>
      obtain ⟨q, w⟩ := g
      simp only [dumpsMoreFields, List.cons_append, List.append_assoc, List.cons.injEq, true_and] at h
      obtain ⟨rfl, hval⟩ := quote_append_inj h
      obtain ⟨rfl, hrest⟩ := ih (k, v) (by simp) w (hg (k, w) (by simp)) _ _
        (stops_dumpsMoreFields pf fs r) (stops_dumpsMoreFields pf gs r')
        (List.cons.inj hval).2
      obtain ⟨rfl, hr⟩ := ihf (fun z hz => ih z (by simp [hz]))
        (fun z hz => hg z (by simp [hz])) hrest
      exact ⟨rfl, hr⟩

/-- The characters of a number value, and the value they stand for. -/
theorem dumps_number_inj {a b : Json} (ha : Normal text a) (hb : Normal text b)
    (hka : kind a = 2) (hkb : kind b = 2) (hr : Stops r) (hr' : Stops r')
    (h : dumps pf.floatRepr a ++ r = dumps pf.floatRepr b ++ r') : a = b ∧ r = r' := by
  have chars : ∀ x : Json, Normal text x → kind x = 2 →
      ∀ c ∈ dumps pf.floatRepr x, isNumChar c = true := by
    intro x hx hk c hc
    cases x with
    | int n =>
      rcases intText_chars n c hc with hd | rfl
      · exact isNumChar_of_isDigit hd
      · rfl
    | float x =>
      obtain ⟨y, rfl⟩ := hx
      exact pf.floatRepr_chars y c hc
    | _ => cases hk
  -- an integer literal has neither a point nor an exponent
  have apart : ∀ (n : Int) (y : Binary64), intText n ≠ pf.floatRepr y := by
    intro n y hny
    rcases pf.floatRepr_mark y with hm | hm
    · rcases intText_chars n '.' (hny ▸ hm) with hd | hd
      · simp [Char.isDigit] at hd
      · cases hd
    · rcases intText_chars n 'e' (hny ▸ hm) with hd | hd
      · simp [Char.isDigit] at hd
      · cases hd
  obtain ⟨heq, hrest⟩ := numText_append_inj (chars a ha hka) (chars b hb hkb) hr hr' h
  refine ⟨?_, hrest⟩
  cases a with
  | int m =>
    cases b with
    | int n => rw [intText_injective heq]
    | float y =>
      obtain ⟨y, rfl⟩ := hb
      exact absurd heq (apart m y)
    | _ => cases hkb
  | float x =>
    obtain ⟨x, rfl⟩ := ha
    cases b with
    | int n => exact absurd heq.symm (apart n x)
    | float y =>
      obtain ⟨y, rfl⟩ := hb
      rw [pf.floatRepr_injective heq]
    | _ => cases hkb
  | _ => cases hka

theorem kind_eq_of_dumps {a b : Json} (ha : Normal text a) (hb : Normal text b)
    (h : dumps pf.floatRepr a ++ r = dumps pf.floatRepr b ++ r') : kind a = kind b := by
  obtain ⟨c, s, hc, hka⟩ := dumps_head pf ha
  obtain ⟨d, t, hd, hkb⟩ := dumps_head pf hb
  rw [hc, hd, List.cons_append, List.cons_append, List.cons.injEq] at h
  rw [← hka, ← hkb, h.1]

/-- Induction on the value; the first character fixes its kind, so only two values of one
kind have to be compared. -/
theorem readable {a : Json} (ha : Normal text a) : Readable pf text a := by
  induction a using Json.ind with
  | null =>
    intro b hb r r' _ _ h
    have hk := kind_eq_of_dumps pf ha hb h
    cases b <;> try cases hk
    exact ⟨rfl, List.append_cancel_left h⟩
  | bool x =>
    intro b hb r r' _ _ h
    have hk := kind_eq_of_dumps pf ha hb h
    cases b <;> try cases hk
    rename_i y
    cases x <;> cases y <;> simp_all [dumps]
  | int n =>
    intro b hb r r' hr hr' h
    exact dumps_number_inj pf ha hb rfl (kind_eq_of_dumps pf ha hb h).symm hr hr' h
  | float x =>
    intro b hb r r' hr hr' h
    exact dumps_number_inj pf ha hb rfl (kind_eq_of_dumps pf ha hb h).symm hr hr' h
  | other t => exact ha.elim
  | str s =>
    intro b hb r r' _ _ h
    have hk := kind_eq_of_dumps pf ha hb h
    cases b <;> try cases hk
    obtain ⟨rfl, hrest⟩ := quote_append_inj h
    exact ⟨rfl, hrest⟩
  | arr xs ih =>
    intro b hb r r' _ _ h
    have hk := kind_eq_of_dumps pf ha hb h
    cases b <;> try cases hk
    rename_i ys
    have hys := normal_arr.mp hb
    have hxs : ∀ x ∈ xs, Readable pf text x := fun x hx => ih x hx (normal_arr.mp ha x hx)
    simp only [dumps, List.cons_append, List.cons.injEq, true_and] at h
    cases xs with
    | nil =>
      cases ys with
      | nil => exact ⟨rfl, by simpa [dumpsItems] using h⟩
      | cons y ys =>
        rw [dumpsItems, dumpsItems, List.append_assoc] at h
        exact absurd h.symm (dumps_append_ne_cons pf (hys y (by simp)) rfl _ _)
    | cons x xs =>
      cases ys with
      | nil =>
        rw [dumpsItems, dumpsItems, List.append_assoc] at h
        exact absurd h
          (dumps_append_ne_cons pf (normal_arr.mp ha x (by simp)) rfl _ _)
      | cons y ys =>
        rw [dumpsItems, dumpsItems, List.append_assoc, List.append_assoc] at h
        obtain ⟨rfl, hrest⟩ := hxs x (by simp) y (hys y (by simp)) _ _
          (stops_dumpsMoreItems pf xs r) (stops_dumpsMoreItems pf ys r') h
        obtain ⟨rfl, hr⟩ := dumpsMoreItems_inj pf (fun z hz => hxs z (by simp [hz]))
          (fun z hz => hys z (by simp [hz])) hrest
        exact ⟨rfl, hr⟩
  | obj fs ih =>
    intro b hb r r' _ _ h
    have hk := kind_eq_of_dumps pf ha hb h
    cases b <;> try cases hk
    rename_i gs
    have hgs : ∀ e ∈ gs, Normal text e.2 := fun e he => ((normal_obj.mp hb).2 e he).2
    have hfs : ∀ e ∈ fs, Readable pf text e.2 :=
      fun e he => ih e he ((normal_obj.mp ha).2 e he).2
    simp only [dumps, List.cons_append, List.cons.injEq, true_and] at h
    cases fs with
    | nil =>
      cases gs with
      | nil => exact ⟨rfl, by simpa [dumpsFields] using h⟩
      | cons g gs => simp [dumpsFields, quote] at h
    | cons e fs =>
      obtain ⟨k, v⟩ := e
      cases gs with
      | nil => simp [dumpsFields, quote] at h
      | cons g gs =>
        obtain ⟨q, w⟩ := g
        simp only [dumpsFields, List.append_assoc, List.cons_append] at h
        obtain ⟨rfl, hval⟩ := quote_append_inj h
        obtain ⟨rfl, hrest⟩ := hfs (k, v) (by simp) w (hgs (k, w) (by simp)) _ _
          (stops_dumpsMoreFields pf fs r) (stops_dumpsMoreFields pf gs r')
          (List.cons.inj hval).2
        obtain ⟨rfl, hr⟩ := dumpsMoreFields_inj pf (fun z hz => hfs z (by simp [hz]))
          (fun z hz => hgs z (by simp [hz])) hrest
        exact ⟨rfl, hr⟩

/-- **Two normal documents with one text are one document.** -/
theorem dumps_injective {a b : Json} (ha : Normal text a) (hb : Normal text b)
    (h : dumps pf.floatRepr a = dumps pf.floatRepr b) : a = b :=
  (readable pf ha b hb [] [] stops_nil stops_nil (by rw [h])).1

end

end Ai00.Json
