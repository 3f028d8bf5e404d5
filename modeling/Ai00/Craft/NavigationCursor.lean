import Ai00.Basic.Base64
import Ai00.Basic.Checks
import Ai00.Connector.CanonicalReading

/-! # Cursors of the BOP navigation

`encode_cursor` and `decode_cursor` of `bop_navigation.py`. A cursor is a JSON document with the place
of a row in the order of a page, in base64. What is encoded is decoded as the same place
(`decodeCursor_encodeCursor`); a row without a sort order cannot be encoded.
-/

namespace Ai00.Craft

open Connector

/-! ## Floats -/

/-- How Python prints floats, and which float a text stands for. -/
structure PythonFloats extends DecimalFormat where
  /-- The float of a decimal: the nearest one, or an infinite one. -/
  nearest : ℚ → PyFloat
  nearest_reads : ∀ {d : ℚ} {x : Binary64}, Reads d x → ∃ y, nearest d = .finite y ∧ y.toRat = x.toRat
  /-- `float(s)` of a string. -/
  ofText : Points → Option PyFloat

/-- `float.__repr__` of a finite float. -/
def floatRepr (format : DecimalFormat) (x : Binary64) : Str :=
  (if x.neg then ['-'] else []) ++
    if x.mant = 0 then ['0', '.', '0'] else pyRepr (format.digits x.abs) (format.position x.abs)

section

variable {digits : Str} {position : ℤ}

theorem exponentText_reads (n : ℤ) : JsonText.ExponentText (101 :: points (exponentText n)) (some n) := by
  refine .present fun rest hrest => ?_
  have hzero : ∀ c ∈ ((if n.natAbs < 10 then ['0'] else []) ++ Nat.toDigits 10 n.natAbs : Str),
      c.isDigit = true := by
    intro c hc
    rcases List.mem_append.mp hc with hc | hc
    · split_ifs at hc
      · rw [List.mem_singleton.mp hc]
        rfl
      · exact absurd hc List.not_mem_nil
    · exact digits_toDigits _ c hc
  have hne : ((if n.natAbs < 10 then ['0'] else []) ++ Nat.toDigits 10 n.natAbs : Str) ≠ [] :=
    List.append_ne_nil_of_right_ne_nil _ Nat.toDigits_ne_nil
  have hvalue : JsonText.digitsValue (points ((if n.natAbs < 10 then ['0'] else []) ++ Nat.toDigits 10 n.natAbs))
      = n.natAbs := by
    rw [digitsValue_points, Nat.ofDigitChars_append]
    split_ifs <;> exact Nat.ofDigitChars_ten_toDigits
  have hread := JsonText.readSigned_digits (points_ne_nil hne) (isDigit_points hzero) hrest
  rw [hvalue] at hread
  rw [exponentText]
  by_cases hn : 0 ≤ n
  · rw [if_pos hn]
    have hplus := hread.2.1
    rw [Int.natAbs_of_nonneg hn] at hplus
    exact hplus
  · rw [if_neg hn]
    have hminus := hread.2.2
    rw [show (-(n.natAbs : ℤ)) = n by omega] at hminus
    exact hminus

/-- The parts of a float's text spell its decimal, with a point or an exponent. -/
theorem pyRepr_parts (hdigits : ∀ c ∈ digits, c.isDigit = true) (hne : digits ≠ [])
    (hhead : digits.head? ≠ some '0') :
    ∃ whole fraction text exponent, Spells digits position (pyRepr digits position) whole fraction text exponent
      ∧ ¬ (fraction = [] ∧ exponent = none) := by
  rw [pyRepr]
  by_cases hfixed : -4 < position ∧ position ≤ 16
  · rw [if_pos hfixed, fixedText]
    by_cases hsmall : position ≤ 0
    · rw [if_pos hsmall]
      exact ⟨_, _, _, _, spells_small hdigits hne hsmall rfl, by simp [hne]⟩
    · rw [if_neg hsmall]
      by_cases hwhole : (digits.length : ℤ) ≤ position
      · rw [if_pos hwhole]
        exact ⟨_, _, _, _, spells_whole hdigits hne hhead hwhole 1 (by simp [JsonText.fractionText, points]), by simp⟩
      · rw [if_neg hwhole]
        have hrest : digits.drop position.toNat ≠ [] := by
          rw [ne_eq, List.drop_eq_nil_iff]
          omega
        exact ⟨_, _, _, _, spells_point hdigits hne hhead (not_le.mp hsmall) hrest, by simp [hrest]⟩
  · rw [if_neg hfixed, scientificText]
    exact ⟨_, _, _, _, spells_exponent hdigits hne hhead (exponentText_reads (position - 1))
      (by simp [mantissaText, points]), by simp⟩

variable (format : DecimalFormat)

theorem ascii_pyRepr (hdigits : ∀ c ∈ digits, c.isDigit = true) : ∀ c ∈ pyRepr digits position, c.toNat < 128 := by
  have hplain : ∀ {c : Char}, IsPlain c → c.toNat < 128 := by
    rintro c (hdigit | rfl | rfl | rfl)
    · exact ascii_of_isDigit hdigit
    · decide
    · decide
    · decide
  intro c hc
  rw [pyRepr] at hc
  split_ifs at hc
  · exact hplain (isPlain_fixedText hdigits (by simp [IsPlain]) c hc)
  · rcases List.mem_append.mp hc with hc | hc
    · exact hplain (isPlain_mantissaText hdigits c hc)
    · rcases List.mem_cons.mp hc with rfl | hc
      · decide
      · exact hplain (isPlain_exponentText _ c hc)

theorem reads_real {number whole fraction : Str} {text : Points} {exponent : Option ℤ}
    (h : Spells digits position number whole fraction text exponent) (hreal : ¬ (fraction = [] ∧ exponent = none)) :
    JsonText.Reads (points number) (.real (decimalValue digits position))
      ∧ JsonText.Reads (45 :: points number) (.real (-decimalValue digits position)) := by
  obtain ⟨hplain, hminus, -⟩ := reads_of_parts h.reading h.isWhole h.isDigit h.exponentText
  have hpoints : ¬ (points fraction = [] ∧ exponent = none) := by
    rintro ⟨hnil, hnone⟩
    exact hreal ⟨List.map_eq_nil_iff.mp hnil, hnone⟩
  have hdigits : points whole ++ points fraction = points (whole ++ fraction) := (List.map_append ..).symm
  have hlength : (points fraction).length = fraction.length := List.length_map ..
  have hsign : ∀ negative, (⟨points whole, points fraction, exponent⟩ : JsonText.Decimal).value negative
      = .real ((if negative then -1 else 1) * decimalValue digits position) := by
    intro negative
    rw [JsonText.Decimal.value, if_neg hpoints, hdigits, digitsValue_points, hlength, h.value]
    cases negative <;> simp
  rw [hsign false] at hplain
  rw [hsign true] at hminus
  exact ⟨by simpa using hplain, by simpa using hminus⟩

/-- **A float's text is read as a decimal that stands for the float.** -/
theorem floatRepr_reads (x : Binary64) :
    ∃ d : ℚ, JsonText.Reads (points (floatRepr format x)) (.real d) ∧ Reads d x := by
  have hsigned : ∀ {number : Str} {d : ℚ}, JsonText.Reads (points number) (.real d) →
      JsonText.Reads (45 :: points number) (.real (-d)) → Reads d x.abs →
        ∃ d : ℚ, JsonText.Reads (points ((if x.neg then ['-'] else []) ++ number)) (.real d) ∧ Reads d x := by
    intro number d hplain hminus hreads
    cases hneg : x.neg with
    | false =>
      rw [Binary64.abs_of_not_neg hneg] at hreads
      exact ⟨d, hplain, hreads⟩
    | true =>
      have hflip := reads_negate hreads
      rw [Binary64.abs_of_neg hneg] at hflip
      exact ⟨-d, hminus, hflip⟩
  rw [floatRepr]
  by_cases hx : x.mant = 0
  · rw [if_pos hx]
    have hspells : Spells ['0'] 0 ['0', '.', '0'] ['0'] ['0'] [] none :=
      ⟨rfl, Or.inl rfl, by simp, .absent, by simp [Nat.ofDigitChars, decimalValue]⟩
    obtain ⟨hplain, hminus⟩ := reads_real hspells (by simp)
    exact hsigned hplain hminus (reads_of_eq (by simp [Binary64.toRat, Binary64.abs, hx, decimalValue, Nat.ofDigitChars]))
  · rw [if_neg hx]
    have h := format.shortest x.abs rfl hx
    obtain ⟨whole, fraction, text, exponent, hspells, hreal⟩ :=
      @pyRepr_parts _ (format.position x.abs) h.isDigit h.ne_nil h.head
    obtain ⟨hplain, hminus⟩ := reads_real hspells hreal
    exact hsigned hplain hminus h.reads

theorem ascii_floatRepr (x : Binary64) : ∀ c ∈ floatRepr format x, c.toNat < 128 := by
  refine ascii_append ?_ ?_
  · split_ifs <;> simp
  · split_ifs with hx
    · simp
    · exact ascii_pyRepr (format.shortest x.abs rfl hx).isDigit

end

/-! ## Strings -/

/-- Four hexadecimal digits. -/
def hex4 (n : ℕ) : Points :=
  [n / 4096 % 16, n / 256 % 16, n / 16 % 16, n % 16].map fun d => (Nat.digitChar d).toNat

/-- `py_encode_basestring_ascii` of one code point. -/
def escapeAscii (c : ℕ) : Points :=
  if c = 34 then [92, 34] else if c = 92 then [92, 92] else if c = 10 then [92, 110]
  else if c = 13 then [92, 114] else if c = 9 then [92, 116] else if c = 12 then [92, 102]
  else if c = 8 then [92, 98]
  else if 32 ≤ c ∧ c < 127 then [c]
  else if c < 0x10000 then 92 :: 117 :: hex4 c
  else 92 :: 117 :: hex4 (0xD800 + (c - 0x10000) / 0x400)
    ++ 92 :: 117 :: hex4 (0xDC00 + (c - 0x10000) % 0x400)

theorem hexValue_digitChar : ∀ d < 16, JsonText.hexValue (Nat.digitChar d).toNat = some d := by decide

theorem readHex_hex4 {n : ℕ} (h : n < 0x10000) (rest : Points) : JsonText.readHex (hex4 n ++ rest) = some (n, rest) := by
  have hvalue : (((n / 4096 % 16) * 16 + n / 256 % 16) * 16 + n / 16 % 16) * 16 + n % 16 = n := by omega
  simp only [hex4, List.map_cons, List.map_nil, List.cons_append, List.nil_append, JsonText.readHex,
    hexValue_digitChar _ (Nat.mod_lt _ (by decide : 0 < 16)), Option.bind_eq_bind, Option.bind_some, Option.pure_def,
    hvalue]

/-- A unit that is no half of a pair is read whatever follows it. -/
theorem readUnit_hex4 {n : ℕ} (h : n < 0x10000) (hhalf : ¬ IsSurrogate n) (rest : Points) :
    JsonText.readUnit (hex4 n ++ rest) = some (n, rest) := by
  have hpair : ¬ (0xD800 ≤ n ∧ n ≤ 0xDBFF ∧ rest.take 2 = [92, 117]) := by
    rintro ⟨hlow, hhigh, -⟩
    exact hhalf ⟨hlow, by omega⟩
  simp only [JsonText.readUnit, readHex_hex4 h, Option.bind_eq_bind, Option.bind_some, if_neg hpair,
    Option.pure_def]

theorem readUnit_pair {high low : ℕ} (hhigh : high < 0x400) (hlow : low < 0x400) (rest : Points) :
    JsonText.readUnit (hex4 (0xD800 + high) ++ 92 :: 117 :: (hex4 (0xDC00 + low) ++ rest))
      = some (0x10000 + high * 0x400 + low, rest) := by
  have hfirst := readHex_hex4 (n := 0xD800 + high) (by omega) (92 :: 117 :: (hex4 (0xDC00 + low) ++ rest))
  have hsecond := readHex_hex4 (n := 0xDC00 + low) (by omega) rest
  have hpair : 0xD800 ≤ 0xD800 + high ∧ 0xD800 + high ≤ 0xDBFF
      ∧ (92 :: 117 :: (hex4 (0xDC00 + low) ++ rest)).take 2 = [92, 117] := ⟨by omega, by omega, rfl⟩
  have hhalf : 0xDC00 ≤ 0xDC00 + low ∧ 0xDC00 + low ≤ 0xDFFF := ⟨by omega, by omega⟩
  simp only [JsonText.readUnit, hfirst, Option.bind_eq_bind, Option.bind_some, if_pos hpair,
    List.drop_succ_cons, List.drop_zero, hsecond, if_pos hhalf, Option.pure_def, Nat.add_sub_cancel_left]

theorem readCharacter_escapeAscii {c : ℕ} (h : IsScalar c) (rest : Points) :
    JsonText.readCharacter (escapeAscii c ++ rest) = some (c, rest) := by
  obtain ⟨hlt, hhalf⟩ := h
  unfold escapeAscii
  split_ifs with h34 h92 h10 h13 h9 h12 h8 hplain hshort
  · subst h34; rfl
  · subst h92; rfl
  · subst h10; rfl
  · subst h13; rfl
  · subst h9; rfl
  · subst h12; rfl
  · subst h8; rfl
  · have hsmall : ¬ c < 32 := by omega
    simp [JsonText.readCharacter, h92, hsmall]
  · exact readUnit_hex4 hshort hhalf rest
  · have hread := @readUnit_pair ((c - 0x10000) / 0x400) ((c - 0x10000) % 0x400) (by omega) (by omega) rest
    have hvalue : 0x10000 + (c - 0x10000) / 0x400 * 0x400 + (c - 0x10000) % 0x400 = c := by omega
    rw [hvalue] at hread
    rw [List.append_assoc]
    exact hread

theorem escapeAscii_head (c : ℕ) : ∃ d more, escapeAscii c = d :: more ∧ d ≠ 34 := by
  unfold escapeAscii
  split_ifs with h34 h92 h10 h13 h9 h12 h8 hplain hshort
  on_goal 8 => exact ⟨c, [], rfl, h34⟩
  all_goals exact ⟨92, _, rfl, by decide⟩

/-- A string as `json.dumps` writes it. -/
def quoteAscii (s : Points) : Points := 34 :: (s.flatMap escapeAscii ++ [34])

theorem ascii_hex4 (n : ℕ) : ∀ c ∈ hex4 n, c < 128 := by
  have hdigit : ∀ d < 16, (Nat.digitChar d).toNat < 128 := by decide
  intro c hc
  obtain ⟨d, hd, rfl⟩ := List.mem_map.mp hc
  refine hdigit d ?_
  simp only [List.mem_cons, List.not_mem_nil, or_false] at hd
  omega

theorem ascii_escapeAscii (c : ℕ) : ∀ d ∈ escapeAscii c, d < 128 := by
  have hfirst := ascii_hex4 c
  have hhigh := ascii_hex4 (0xD800 + (c - 0x10000) / 0x400)
  have hlow := ascii_hex4 (0xDC00 + (c - 0x10000) % 0x400)
  intro d hd
  unfold escapeAscii at hd
  split_ifs at hd <;> simp only [List.cons_append, List.mem_cons, List.mem_append, List.not_mem_nil, or_false] at hd
  all_goals grind

/-! ## Errors -/

/-- What a request for a page fails with: an error of the capability, or an error of Python. -/
inductive NavigationError where
  | invalidCursor | invalidScopeKind | invalidPageSize | versionNotFound | revisionConflict | scopeNotFound
  | typeError | overflowError | keyError
deriving DecidableEq

/-! ## Cursors -/

/-- `json.dumps(document, sort_keys=True, separators=(",", ":"))` of `encode_cursor`. -/
def cursorText (format : DecimalFormat) (sortOrder : Binary64) (gid : Str) : Points :=
  123 :: ([44].intercalate
    [quoteAscii (points ['g', 'i', 'd']) ++ 58 :: quoteAscii (points gid),
      quoteAscii (points ['s', 'o', 'r', 't', '_', 'o', 'r', 'd', 'e', 'r']) ++ 58 :: points (floatRepr format sortOrder),
      quoteAscii (points ['v']) ++ [58, 49]] ++ [125])

/-- `encode_cursor`; `float(None)` is a `TypeError`. -/
def encodeCursor (format : DecimalFormat) (sortOrder : Option Binary64) (gid : Str) : Except NavigationError Str :=
  match sortOrder with
  | none => .error .typeError
  | some x => .ok (Base64.encode (encodeUtf8 (cursorText format x gid)))

/-- What a `dict` has under a key: of several members with one name the last. -/
def memberOf (members : List (Points × JsonText)) (name : Str) : Option JsonText :=
  (members.reverse.find? fun member => member.1 = points name).map Prod.snd

/-- Whether a value of a document equals `1`. -/
def equalsOne : JsonText → Bool
  | .integer n => n = 1
  | .real d => d = 1
  | .bool b => b
  | _ => false

/-- `float(value)`; a `bool` is refused before. -/
def floatOf (floats : PythonFloats) : JsonText → Except NavigationError PyFloat
  | .integer n => (floats.ofInt n).elim (.error .overflowError) fun x => .ok (.finite x)
  | .real d => .ok (floats.nearest d)
  | .str s => found (floats.ofText s) .invalidCursor
  | _ => .error .invalidCursor

def objectOf : JsonText → Option (List (Points × JsonText))
  | .obj members => some members
  | _ => none

def stringOf : JsonText → Option Points
  | .str s => some s
  | _ => none

def cursorKeys : List Points :=
  [points ['g', 'i', 'd'], points ['s', 'o', 'r', 't', '_', 'o', 'r', 'd', 'e', 'r'], points ['v']]

/-- What `decode_cursor` takes from a document. -/
def readCursor (floats : PythonFloats) (document : JsonText) : Except NavigationError (PyFloat × Points) := do
  let members ← found (objectOf document) .invalidCursor
  require ((∀ member ∈ members, member.1 ∈ cursorKeys) ∧ ∀ key ∈ cursorKeys, key ∈ members.map Prod.fst)
    .invalidCursor
  let version ← found (memberOf members ['v']) .keyError
  require (equalsOne version = true) .invalidCursor
  let gid ← found ((memberOf members ['g', 'i', 'd']).bind stringOf) .invalidCursor
  require (gid ≠ []) .invalidCursor
  let sortOrder ← found (memberOf members ['s', 'o', 'r', 't', '_', 'o', 'r', 'd', 'e', 'r']) .keyError
  let place ← floatOf floats sortOrder
  return (place, gid)

/-- `decode_cursor` of a text that is not empty. -/
def decodeCursor (floats : PythonFloats) (value : Str) : Except NavigationError (PyFloat × Points) := do
  require (value ≠ []) .invalidCursor
  let raw ← found (Base64.decode value) .invalidCursor
  let document ← found (JsonText.loads raw) .invalidCursor
  -- a text that is not the one `encode_cursor` writes
  require (Base64.encode raw = value) .invalidCursor
  readCursor floats document

/-! ## What is encoded is decoded -/

section

variable {floats : PythonFloats}

theorem scalar_points (s : Str) : ∀ c ∈ points s, IsScalar c := by
  intro c hc
  obtain ⟨d, -, rfl⟩ := List.mem_map.mp hc
  have hvalid := d.valid
  constructor
  · rcases hvalid with h | h
    · exact h.trans (by decide)
    · exact h.2
  · rintro ⟨hlow, hhigh⟩
    rcases hvalid with h | h
    · exact absurd h (by show ¬ d.toNat < 0xD800; omega)
    · exact absurd h.1 (by show ¬ 0xDFFF < d.toNat; omega)

theorem spells_quoteAscii (s : Str) : JsonText.Spells ((points s).flatMap escapeAscii) (points s) :=
  JsonText.spells_of_characters (fun c hc => readCharacter_escapeAscii (scalar_points s c hc)) escapeAscii_head

theorem readsMember_quoteAscii (name : Str) {value : Points} {v : JsonText} (h : JsonText.Reads value v) :
    JsonText.ReadsMember (quoteAscii (points name) ++ 58 :: value) (points name, v) :=
  ⟨_, value, by simp [quoteAscii], spells_quoteAscii name, h⟩

theorem reads_one : JsonText.Reads [49] (.integer 1) := by
  have hread := (@reads_of_parts ['1'] ['1'] [] [] none rfl (.inr ⟨by decide, by decide, by decide⟩) (by simp) .absent).1
  exact hread

theorem loads_cursorText (x : Binary64) (gid : Str) : ∃ d : ℚ, Reads d x
    ∧ JsonText.loads (encodeUtf8 (cursorText floats.toDecimalFormat x gid))
      = some (.obj [(points ['g', 'i', 'd'], .str (points gid)),
          (points ['s', 'o', 'r', 't', '_', 'o', 'r', 'd', 'e', 'r'], .real d), (points ['v'], .integer 1)]) := by
  obtain ⟨d, hreads, hd⟩ := floatRepr_reads floats.toDecimalFormat x
  refine ⟨d, hd, ?_⟩
  have hobj := JsonText.reads_obj (.cons (readsMember_quoteAscii ['g', 'i', 'd'] (JsonText.reads_str (spells_quoteAscii gid)))
    (.cons (readsMember_quoteAscii ['s', 'o', 'r', 't', '_', 'o', 'r', 'd', 'e', 'r'] hreads)
      (.cons (readsMember_quoteAscii ['v'] reads_one) .nil)))
  have hascii : ∀ c ∈ cursorText floats.toDecimalFormat x gid, c < 128 := by
    have hquote : ∀ s, ∀ c ∈ quoteAscii s, c < 128 := by
      intro s c hc
      rcases List.mem_cons.mp hc with rfl | hc
      · decide
      · rcases List.mem_append.mp hc with hc | hc
        · obtain ⟨d, -, hd⟩ := List.mem_flatMap.mp hc
          exact ascii_escapeAscii d c hd
        · rw [List.mem_singleton.mp hc]
          decide
    have hfloat : ∀ c ∈ points (floatRepr floats.toDecimalFormat x), c < 128 := by
      intro c hc
      obtain ⟨d, hd, rfl⟩ := List.mem_map.mp hc
      exact ascii_floatRepr _ x d hd
    intro c hc
    simp only [cursorText, List.intercalate_cons_cons, List.intercalate_singleton, List.mem_cons, List.mem_append,
      List.not_mem_nil, or_false] at hc
    grind
  have hscalar : ∀ c ∈ cursorText floats.toDecimalFormat x gid, IsScalar c := by
    intro c hc
    have hsmall := hascii c hc
    exact ⟨by omega, fun hs => absurd hs.1 (by omega)⟩
  rw [JsonText.loads, decodeUtf8_encodeUtf8 hscalar]
  exact JsonText.readText_of_reads hobj

/-- **A cursor is decoded as the place it was made from.** -/
theorem decodeCursor_encodeCursor {x : Binary64} {gid cursor : Str} (hgid : gid ≠ [])
    (h : encodeCursor floats.toDecimalFormat (some x) gid = .ok cursor) :
    ∃ y : Binary64, decodeCursor floats cursor = .ok (.finite y, points gid) ∧ y.toRat = x.toRat := by
  cases h
  obtain ⟨d, hd, hloads⟩ := @loads_cursorText floats x gid
  obtain ⟨y, hnearest, hy⟩ := floats.nearest_reads hd
  refine ⟨y, ?_, hy⟩
  have hpoints : points gid ≠ [] := points_ne_nil hgid
  have hne : Base64.encode (encodeUtf8 (cursorText floats.toDecimalFormat x gid)) ≠ [] := by
    intro hnil
    have hdecode := Base64.decode_encode (encodeUtf8 (cursorText floats.toDecimalFormat x gid))
    rw [hnil] at hdecode
    have hempty : encodeUtf8 (cursorText floats.toDecimalFormat x gid) = [] := (Option.some.inj hdecode).symm
    rw [hempty] at hloads
    exact nomatch hloads
  have hread : ∀ members, memberOf members ['v'] = some (.integer 1) →
      (memberOf members ['g', 'i', 'd']).bind stringOf = some (points gid) →
        memberOf members ['s', 'o', 'r', 't', '_', 'o', 'r', 'd', 'e', 'r'] = some (.real d) →
          members.map Prod.fst = cursorKeys → readCursor floats (.obj members) = .ok (.finite y, points gid) := by
    intro members hversion hname hplace hkeys
    have hall : (∀ member ∈ members, member.1 ∈ cursorKeys) ∧ ∀ key ∈ cursorKeys, key ∈ members.map Prod.fst := by
      rw [hkeys]
      exact ⟨fun member hin => hkeys ▸ List.mem_map_of_mem hin, fun key hkey => hkey⟩
    have hobject : objectOf (.obj members) = some members := rfl
    have hone : equalsOne (.integer 1) = true := rfl
    rw [readCursor, found_bind hobject, require_bind hall, found_bind hversion, require_bind hone, found_bind hname,
      require_bind hpoints, found_bind hplace, floatOf, hnearest]
    rfl
  rw [decodeCursor, require_bind hne, found_bind (Base64.decode_encode _), found_bind hloads, require_bind rfl]
  exact hread _ rfl rfl rfl rfl

end

end Ai00.Craft
