import Ai00.Basic.Utf8

/-! # Reading JSON

A reader of JSON texts given as code points. A number comes back as the decimal it spells; which
number of a platform that decimal stands for is left to the user. The lemmas say of each kind of
text that it is read back, whatever follows it.
-/

namespace Ai00

/-- What a JSON text spells. A number has a fraction or an exponent, or it is whole. -/
inductive JsonText where
  | null
  | bool (b : Bool)
  | integer (n : Int)
  | real (d : ℚ)
  | str (s : Points)
  | arr (items : List JsonText)
  | obj (members : List (Points × JsonText))

namespace JsonText

def isSpace (c : Nat) : Bool := c = 32 || c = 9 || c = 10 || c = 13

def skipSpace (s : Points) : Points := s.dropWhile isSpace

def isDigit (c : Nat) : Bool := 48 ≤ c && c ≤ 57

/-! ## Numbers -/

def digitsValue (s : Points) : Nat := s.foldl (fun n c => 10 * n + (c - 48)) 0

/-- A number without its sign. -/
structure Decimal where
  whole : Points
  fraction : Points
  exponent : Option Int

def Decimal.value (d : Decimal) (negative : Bool) : JsonText :=
  let sign : Int := if negative then -1 else 1
  if d.fraction = [] ∧ d.exponent = none then .integer (sign * digitsValue d.whole)
  else .real (sign * (digitsValue (d.whole ++ d.fraction)
    * (10 : ℚ) ^ (d.exponent.getD 0 - d.fraction.length)))

/-- `(\.\d+)?` -/
def readFraction : Points → Points × Points
  | [] => ([], [])
  | c :: rest =>
    if c = 46 ∧ rest.takeWhile isDigit ≠ [] then (rest.takeWhile isDigit, rest.dropWhile isDigit)
    else ([], c :: rest)

/-- `[-+]?\d+` -/
def readSigned : Points → Option (Int × Points)
  | [] => none
  | c :: rest =>
    let digits := if c = 43 ∨ c = 45 then rest else c :: rest
    let value : Int := digitsValue (digits.takeWhile isDigit)
    if digits.takeWhile isDigit = [] then none
    else some (if c = 45 then -value else value, digits.dropWhile isDigit)

/-- `([eE][-+]?\d+)?` -/
def readExponent : Points → Option Int × Points
  | [] => (none, [])
  | c :: rest =>
    if c = 101 ∨ c = 69 then
      match readSigned rest with
      | some (value, rest) => (some value, rest)
      | none => (none, c :: rest)
    else (none, c :: rest)

/-- `0|[1-9]\d*` -/
def readWhole : Points → Option (Points × Points)
  | [] => none
  | c :: rest =>
    if c = 48 then some ([48], rest)
    else if isDigit c then some ((c :: rest).takeWhile isDigit, (c :: rest).dropWhile isDigit)
    else none

def readDecimal (s : Points) : Option (Decimal × Points) := do
  let (whole, rest) ← readWhole s
  let (fraction, rest) := readFraction rest
  let (exponent, rest) := readExponent rest
  return (⟨whole, fraction, exponent⟩, rest)

def readNumber : Points → Option (JsonText × Points)
  | [] => none
  | c :: rest => do
    let (decimal, rest) ← readDecimal (if c = 45 then rest else c :: rest)
    return (decimal.value (c = 45), rest)

/-! ## Strings -/

def hexValue (c : Nat) : Option Nat :=
  if isDigit c then some (c - 48)
  else if 97 ≤ c ∧ c ≤ 102 then some (c - 87)
  else if 65 ≤ c ∧ c ≤ 70 then some (c - 55)
  else none

def readHex : Points → Option (Nat × Points)
  | a :: b :: c :: d :: rest => do
    return ((((← hexValue a) * 16 + (← hexValue b)) * 16 + (← hexValue c)) * 16
      + (← hexValue d), rest)
  | _ => none

/-- After `\u`; two halves of a pair are one character. -/
def readUnit (s : Points) : Option (Nat × Points) := do
  let (high, rest) ← readHex s
  if 0xD800 ≤ high ∧ high ≤ 0xDBFF ∧ rest.take 2 = [92, 117] then
    match readHex (rest.drop 2) with
    | some (low, more) =>
      if 0xDC00 ≤ low ∧ low ≤ 0xDFFF then
        return (0x10000 + (high - 0xD800) * 0x400 + (low - 0xDC00), more)
      else return (high, rest)
    | none => return (high, rest)
  else return (high, rest)

/-- What a character after a backslash stands for. -/
def escapes : List (Nat × Nat) :=
  [(34, 34), (92, 92), (47, 47), (98, 8), (102, 12), (110, 10), (114, 13), (116, 9)]

def readCharacter : Points → Option (Nat × Points)
  | [] => none
  | c :: rest =>
    if c = 92 then
      match rest with
      | [] => none
      | e :: rest => if e = 117 then readUnit rest else (escapes.lookup e).map (·, rest)
    else if c < 32 then none
    else some (c, rest)

/-- After the opening quote. -/
def readString : Nat → Points → Option (Points × Points)
  | 0, _ => none
  | _ + 1, [] => none
  | fuel + 1, c :: rest =>
    if c = 34 then some ([], rest)
    else do
      let (point, rest) ← readCharacter (c :: rest)
      let (text, rest) ← readString fuel rest
      return (point :: text, rest)

/-! ## Values -/

/-- The text itself, and what follows it. -/
def readWord (word : Points) (value : JsonText) (s : Points) : Option (JsonText × Points) :=
  if s.take word.length = word then some (value, s.drop word.length) else none

def readMark (mark : Nat) (s : Points) : Option Points :=
  match skipSpace s with
  | [] => none
  | c :: rest => if c = mark then some rest else none

mutual

def readValue : Nat → Points → Option (JsonText × Points)
  | 0, _ => none
  | fuel + 1, s =>
    match skipSpace s with
    | [] => none
    | c :: rest =>
      if c = 34 then (readString fuel rest).map (fun (text, rest) => (.str text, rest))
      else if c = 91 then
        match readMark 93 rest with
        | some rest => some (.arr [], rest)
        | none => (readItems fuel rest).map (fun (items, rest) => (.arr items, rest))
      else if c = 123 then
        match readMark 125 rest with
        | some rest => some (.obj [], rest)
        | none => (readMembers fuel rest).map (fun (members, rest) => (.obj members, rest))
      else if c = 110 then readWord [110, 117, 108, 108] .null (c :: rest)
      else if c = 116 then readWord [116, 114, 117, 101] (.bool true) (c :: rest)
      else if c = 102 then readWord [102, 97, 108, 115, 101] (.bool false) (c :: rest)
      else readNumber (c :: rest)

def readItems : Nat → Points → Option (List JsonText × Points)
  | 0, _ => none
  | fuel + 1, s => do
    let (item, rest) ← readValue fuel s
    match readMark 44 rest with
    | some rest => do
      let (items, rest) ← readItems fuel rest
      return (item :: items, rest)
    | none => return ([item], ← readMark 93 rest)

def readMembers : Nat → Points → Option (List (Points × JsonText) × Points)
  | 0, _ => none
  | fuel + 1, s => do
    let rest ← readMark 34 s
    let (name, rest) ← readString fuel rest
    let rest ← readMark 58 rest
    let (value, rest) ← readValue fuel rest
    match readMark 44 rest with
    | some rest => do
      let (members, rest) ← readMembers fuel rest
      return ((name, value) :: members, rest)
    | none => return ([(name, value)], ← readMark 125 rest)

end

def readText (s : Points) : Option JsonText := do
  let (value, rest) ← readValue (s.length + 1) s
  if skipSpace rest = [] then some value else none

/-- `json.loads`, numbers apart. -/
def loads (bytes : List UInt8) : Option JsonText := do readText (← decodeUtf8 bytes)

/-! ## Numbers are read back -/

/-- Nothing that could go on with a number. -/
def Stops (rest : Points) : Prop :=
  ∀ c ∈ rest.head?, isDigit c = false ∧ c ≠ 46 ∧ c ≠ 101 ∧ c ≠ 69

theorem stops_nil : Stops [] := nofun

theorem stops_cons {c : Nat} (h : isDigit c = false ∧ c ≠ 46 ∧ c ≠ 101 ∧ c ≠ 69) (rest : Points) :
    Stops (c :: rest) := by
  intro d hd
  cases hd
  exact h

variable {ds rest : Points}

theorem span_digits (hds : ∀ c ∈ ds, isDigit c = true)
    (hrest : ∀ c ∈ rest.head?, isDigit c = false) :
    (ds ++ rest).takeWhile isDigit = ds ∧ (ds ++ rest).dropWhile isDigit = rest := by
  have hempty : rest.takeWhile isDigit = [] ∧ rest.dropWhile isDigit = rest := by
    cases rest with
    | nil => exact ⟨rfl, rfl⟩
    | cons c rest =>
      have hc := hrest c rfl
      simp [hc]
  rw [List.takeWhile_append_of_pos hds, List.dropWhile_append_of_pos hds, hempty.1, hempty.2, List.append_nil]
  exact ⟨rfl, rfl⟩

theorem Stops.noDigit {rest : Points} (h : Stops rest) : ∀ c ∈ rest.head?, isDigit c = false :=
  fun c hc => (h c hc).1

/-- A zero, or digits that do not begin with one. -/
def IsWhole (ds : Points) : Prop :=
  ds = [48] ∨ ds ≠ [] ∧ ds.head? ≠ some 48 ∧ ∀ c ∈ ds, isDigit c = true

theorem IsWhole.ne_nil {ds : Points} (h : IsWhole ds) : ds ≠ [] := by
  rcases h with rfl | ⟨hne, -⟩
  · exact List.cons_ne_nil _ _
  · exact hne

theorem IsWhole.head {ds : Points} (h : IsWhole ds) : ∀ c ∈ ds.head?, isDigit c = true := by
  rcases h with rfl | ⟨-, -, hdigits⟩
  · rintro c ⟨⟩
    rfl
  · exact fun c hc => hdigits c (List.mem_of_head? hc)

theorem readWhole_append (hds : IsWhole ds)
    (hrest : ∀ c ∈ rest.head?, isDigit c = false) : readWhole (ds ++ rest) = some (ds, rest) := by
  rcases hds with rfl | ⟨hne, hhead, hdigits⟩
  · rfl
  obtain ⟨c, ds, rfl⟩ := List.exists_cons_of_ne_nil hne
  have hzero : c ≠ 48 := fun h => hhead (congrArg some h)
  have hspan := span_digits hdigits hrest
  rw [List.cons_append] at hspan ⊢
  rw [readWhole, if_neg hzero, if_pos (hdigits c List.mem_cons_self), hspan.1, hspan.2]

def fractionText (ds : Points) : Points := if ds = [] then [] else 46 :: ds

theorem readFraction_append (hds : ∀ c ∈ ds, isDigit c = true)
    (hrest : ∀ c ∈ rest.head?, isDigit c = false ∧ c ≠ 46) :
    readFraction (fractionText ds ++ rest) = (ds, rest) := by
  by_cases hne : ds = []
  · rw [fractionText, if_pos hne, hne, List.nil_append]
    cases rest with
    | nil => rfl
    | cons c rest => exact if_neg fun h => (hrest c rfl).2 h.1
  · have hspan := span_digits hds fun c hc => (hrest c hc).1
    rw [fractionText, if_neg hne, List.cons_append, readFraction, hspan.1, hspan.2]
    exact if_pos ⟨rfl, hne⟩

theorem readSigned_digits (hne : ds ≠ []) (hds : ∀ c ∈ ds, isDigit c = true)
    (hrest : Stops rest) : readSigned (ds ++ rest) = some ((digitsValue ds : Int), rest)
      ∧ readSigned (43 :: ds ++ rest) = some ((digitsValue ds : Int), rest)
      ∧ readSigned (45 :: ds ++ rest) = some (-(digitsValue ds : Int), rest) := by
  have hspan := span_digits hds hrest.noDigit
  refine ⟨?_, ?_, ?_⟩
  · obtain ⟨c, ds, rfl⟩ := List.exists_cons_of_ne_nil hne
    have hc : isDigit c = true := hds c List.mem_cons_self
    have hsign : c ≠ 43 ∧ c ≠ 45 := by
      constructor <;> rintro rfl <;> exact absurd hc (by decide)
    rw [List.cons_append] at hspan ⊢
    simp only [readSigned, if_neg (not_or.mpr hsign), hspan.1, hspan.2, if_neg hne, if_neg hsign.2]
  · simp [readSigned, hspan.1, hspan.2, hne]
  · simp [readSigned, hspan.1, hspan.2, hne]

/-- How an exponent is spelled, or that there is none. -/
inductive ExponentText : Points → Option Int → Prop where
  | absent : ExponentText [] none
  | present {text : Points} {n : Int}
      (reads : ∀ rest, Stops rest → readSigned (text ++ rest) = some (n, rest)) :
      ExponentText (101 :: text) (some n)

variable {exponent : Option Int}

theorem readExponent_append {text rest : Points}
    (h : ExponentText text exponent) (hrest : Stops rest) :
    readExponent (text ++ rest) = (exponent, rest) := by
  cases h with
  | absent =>
    cases rest with
    | nil => rfl
    | cons c rest =>
      have hc := hrest c rfl
      exact if_neg (not_or.mpr hc.2.2)
  | present reads =>
    rw [List.cons_append, readExponent, if_pos (Or.inl rfl), reads rest hrest]

theorem ExponentText.head {text rest : Points}
    (h : ExponentText text exponent) (hrest : Stops rest) :
    ∀ c ∈ (text ++ rest).head?, isDigit c = false ∧ c ≠ 46 := by
  cases h with
  | absent => exact fun c hc => ⟨(hrest c hc).1, (hrest c hc).2.1⟩
  | present reads =>
    intro c hc
    cases hc
    decide

/-- **A number is read part by part.** -/
theorem readDecimal_append {whole fraction text rest : Points}
    (hwhole : IsWhole whole) (hfraction : ∀ c ∈ fraction, isDigit c = true)
    (htext : ExponentText text exponent) (hrest : Stops rest) :
    readDecimal (whole ++ (fractionText fraction ++ (text ++ rest)))
      = some (⟨whole, fraction, exponent⟩, rest) := by
  have hhead := htext.head hrest
  have hafter : ∀ c ∈ (fractionText fraction ++ (text ++ rest)).head?, isDigit c = false := by
    intro c hc
    by_cases hne : fraction = []
    · rw [fractionText, if_pos hne] at hc
      exact (hhead c hc).1
    · rw [fractionText, if_neg hne] at hc
      cases hc
      decide
  simp only [readDecimal, readWhole_append hwhole hafter, readFraction_append hfraction hhead,
    readExponent_append htext hrest, Option.bind_eq_bind, Option.bind_some]
  rfl

/-! ## Strings are read back -/

/-- After an opening quote, the text and a closing quote read as `s`. -/
def Spells (text s : Points) : Prop :=
  ∀ fuel rest, text.length < fuel → readString fuel (text ++ 34 :: rest) = some (s, rest)

theorem spells_of_characters {escape : Nat → Points} {s : Points}
    (hread : ∀ c ∈ s, ∀ rest, readCharacter (escape c ++ rest) = some (c, rest))
    (hquote : ∀ c, ∃ d more, escape c = d :: more ∧ d ≠ 34) : Spells (s.flatMap escape) s := by
  induction s with
  | nil =>
    intro fuel rest hfuel
    obtain ⟨fuel, rfl⟩ : ∃ k, fuel = k + 1 := ⟨fuel - 1, by omega⟩
    rfl
  | cons c s ih =>
    intro fuel rest hfuel
    obtain ⟨d, more, hescape, hd⟩ := hquote c
    rw [List.flatMap_cons, hescape, List.length_append, List.length_cons] at hfuel
    obtain ⟨fuel, rfl⟩ : ∃ k, fuel = k + 1 := ⟨fuel - 1, by omega⟩
    have hc := hread c List.mem_cons_self (s.flatMap escape ++ 34 :: rest)
    have hs := ih (fun c hin => hread c (.tail _ hin)) fuel rest (by omega)
    rw [List.flatMap_cons, List.append_assoc]
    rw [hescape, List.cons_append] at hc ⊢
    rw [readString, if_neg hd, hc]
    show (readString fuel _).bind _ = _
    rw [hs]
    rfl

theorem spells_flatMap {escape : Nat → Points}
    (hread : ∀ c rest, readCharacter (escape c ++ rest) = some (c, rest))
    (hquote : ∀ c, ∃ d more, escape c = d :: more ∧ d ≠ 34) (s : Points) :
    Spells (s.flatMap escape) s :=
  spells_of_characters (fun c _ => hread c) hquote

/-! ## Values are read back -/

/-- The text reads as the value, whatever follows it. -/
def Reads (text : Points) (v : JsonText) : Prop :=
  ∀ fuel rest, text.length < fuel → Stops rest → readValue fuel (text ++ rest) = some (v, rest)

/-- A value begins here: no blank and no bracket that closes. -/
def Opens (text : Points) : Prop :=
  ∃ c more, text = c :: more ∧ isSpace c = false ∧ c ≠ 93 ∧ c ≠ 125

theorem skipSpace_cons {c : Nat} (h : isSpace c = false) (rest : Points) : skipSpace (c :: rest) = c :: rest := by
  rw [skipSpace, List.dropWhile_cons, if_neg (by rw [h]; exact Bool.false_ne_true)]

theorem readMark_self {mark : Nat} (h : isSpace mark = false) (rest : Points) :
    readMark mark (mark :: rest) = some rest := by
  rw [readMark, skipSpace_cons h]
  exact if_pos rfl

theorem readMark_other {mark c : Nat} (h : isSpace c = false) (hne : c ≠ mark) (rest : Points) :
    readMark mark (c :: rest) = none := by
  rw [readMark, skipSpace_cons h]
  exact if_neg hne

theorem Opens.readMark {text : Points} (h : Opens text) {mark : Nat} (hmark : mark = 93 ∨ mark = 125)
    (rest : Points) : readMark mark (text ++ rest) = none := by
  obtain ⟨c, more, rfl, hspace, hbracket, hbrace⟩ := h
  refine readMark_other hspace ?_ _
  rcases hmark with rfl | rfl
  · exact hbracket
  · exact hbrace

/-- **A number is read, with or without a sign**, when its digits are. -/
theorem reads_number {text : Points} {d : Decimal} (hhead : ∀ c ∈ text.head?, isDigit c = true)
    (hne : text ≠ []) (h : ∀ rest, Stops rest → readDecimal (text ++ rest) = some (d, rest)) :
    Reads text (d.value false) ∧ Reads (45 :: text) (d.value true) := by
  obtain ⟨c, more, rfl⟩ := List.exists_cons_of_ne_nil hne
  have hc : 48 ≤ c ∧ c ≤ 57 := by simpa [isDigit] using hhead c rfl
  constructor
  · intro fuel rest hfuel hrest
    obtain ⟨fuel, rfl⟩ : ∃ k, fuel = k + 1 := ⟨fuel - 1, by omega⟩
    have hspace : isSpace c = false := by
      simp [isSpace]
      omega
    have hread := h rest hrest
    rw [List.cons_append] at hread ⊢
    simp only [readValue, skipSpace_cons hspace]
    rw [if_neg (by omega), if_neg (by omega), if_neg (by omega), if_neg (by omega),
      if_neg (by omega), if_neg (by omega), readNumber, if_neg (by omega), hread]
    have hsign : decide (c = 45) = false := decide_eq_false (by omega)
    rw [hsign]
    rfl
  · intro fuel rest hfuel hrest
    obtain ⟨fuel, rfl⟩ : ∃ k, fuel = k + 1 := ⟨fuel - 1, by omega⟩
    rw [List.cons_append, readValue, skipSpace_cons (by decide)]
    show (readDecimal (c :: more ++ rest)).bind _ = _
    rw [h rest hrest]
    rfl

theorem reads_word : Reads [110, 117, 108, 108] .null ∧ Reads [116, 114, 117, 101] (.bool true)
      ∧ Reads [102, 97, 108, 115, 101] (.bool false) := by
  refine ⟨?_, ?_, ?_⟩ <;> intro fuel rest hfuel _
  all_goals
    obtain ⟨fuel, rfl⟩ : ∃ k, fuel = k + 1 := ⟨fuel - 1, by omega⟩
    rfl

theorem reads_str {text s : Points} (h : Spells text s) : Reads (34 :: (text ++ [34])) (.str s) := by
  intro fuel rest hfuel _
  obtain ⟨fuel, rfl⟩ : ∃ k, fuel = k + 1 := ⟨fuel - 1, by omega⟩
  rw [List.length_cons, List.length_append] at hfuel
  have hread := h fuel rest (by omega)
  rw [List.cons_append, List.append_assoc, readValue, skipSpace_cons (by decide)]
  show (readString fuel (text ++ 34 :: rest)).map _ = _
  rw [hread]
  rfl

section

variable {texts : List Points}

theorem readItems_intercalate {items : List JsonText} (h : List.Forall₂ Reads texts items)
    (hne : texts ≠ []) : ∀ fuel rest, ([44].intercalate texts).length + 1 < fuel →
      readItems fuel ([44].intercalate texts ++ 93 :: rest) = some (items, rest) := by
  induction h with
  | nil => exact absurd rfl hne
  | @cons text item texts items htext htexts ih =>
    intro fuel rest hfuel
    obtain ⟨fuel, rfl⟩ : ∃ k, fuel = k + 1 := ⟨fuel - 1, by omega⟩
    cases htexts with
    | nil =>
      rw [List.intercalate_singleton] at hfuel ⊢
      have hitem := htext fuel (93 :: rest) (by omega) (stops_cons (by decide) rest)
      have hcomma : readMark 44 (93 :: rest) = none := readMark_other (by decide) (by decide) rest
      have hclose : readMark 93 (93 :: rest) = some rest := readMark_self (by decide) rest
      simp only [readItems, hitem, hcomma, hclose, Option.bind_eq_bind, Option.bind_some]
      rfl
    | cons _ _ =>
      rw [List.intercalate_cons_cons] at hfuel ⊢
      simp only [List.length_append, List.length_singleton] at hfuel
      have hitem := fun after => htext fuel (44 :: after) (by omega) (stops_cons (by decide) after)
      have hcomma := @readMark_self 44 (by decide)
      have hitems := ih (List.cons_ne_nil _ _) fuel rest (by omega)
      rw [List.append_assoc, List.append_assoc, List.singleton_append]
      simp only [readItems, hitem, hcomma, hitems, Option.bind_eq_bind, Option.bind_some]
      rfl

/-- **An array is read item by item.** -/
theorem reads_arr {items : List JsonText} (h : List.Forall₂ Reads texts items)
    (hopens : ∀ text ∈ texts, Opens text) :
    Reads (91 :: ([44].intercalate texts ++ [93])) (.arr items) := by
  intro fuel rest hfuel _
  obtain ⟨fuel, rfl⟩ : ∃ k, fuel = k + 1 := ⟨fuel - 1, by omega⟩
  simp only [List.length_cons, List.length_append, List.length_nil] at hfuel
  rw [List.cons_append, List.append_assoc, List.singleton_append, readValue, skipSpace_cons (by decide)]
  cases h with
  | nil => rfl
  | @cons text item texts items htext htexts =>
    have hitems := readItems_intercalate (.cons htext htexts) (List.cons_ne_nil _ _) fuel rest
      (by omega)
    have hmark : readMark 93 ([44].intercalate (text :: texts) ++ 93 :: rest) = none := by
      have hopen := hopens text List.mem_cons_self
      cases texts with
      | nil =>
        rw [List.intercalate_singleton]
        exact hopen.readMark (Or.inl rfl) _
      | cons next texts =>
        rw [List.intercalate_cons_cons, List.append_assoc, List.append_assoc]
        exact hopen.readMark (Or.inl rfl) _
    simp only [hmark, hitems]
    rfl

/-- A name, a colon and a value. -/
def ReadsMember (text : Points) (member : Points × JsonText) : Prop :=
  ∃ name value, text = 34 :: (name ++ 34 :: 58 :: value) ∧ Spells name member.1
    ∧ Reads value member.2

variable {members : List (Points × JsonText)}

theorem readMembers_intercalate (h : List.Forall₂ ReadsMember texts members) (hne : texts ≠ []) :
    ∀ fuel rest, ([44].intercalate texts).length + 1 < fuel →
      readMembers fuel ([44].intercalate texts ++ 125 :: rest) = some (members, rest) := by
  induction h with
  | nil => exact absurd rfl hne
  | @cons text member texts members htext htexts ih =>
    intro fuel rest hfuel
    obtain ⟨fuel, rfl⟩ : ∃ k, fuel = k + 1 := ⟨fuel - 1, by omega⟩
    obtain ⟨name, value, rfl, hname, hvalue⟩ := htext
    -- the name and the value are read, and what follows the value is left
    have hmember : ∀ after, name.length + value.length + 2 < fuel → Stops after →
        readMembers (fuel + 1) (34 :: (name ++ 34 :: 58 :: value) ++ after) = (match readMark 44 after with
            | some rest => (readMembers fuel rest).bind fun (more, rest) =>
              some (member :: more, rest)
            | none => (readMark 125 after).bind fun rest => some ([member], rest)) := by
      intro after hlong hafter
      have hspell : name ++ 34 :: 58 :: value ++ after = name ++ 34 :: (58 :: (value ++ after)) := by
        simp
      have hquote := @readMark_self 34 (by decide)
      have hcolon := @readMark_self 58 (by decide)
      have hread := hname fuel (58 :: (value ++ after)) (by omega)
      have hvalue := hvalue fuel after (by omega) hafter
      rw [List.cons_append, hspell]
      simp only [readMembers, hquote, hread, hcolon, hvalue, Option.bind_eq_bind, Option.bind_some]
      rfl
    cases htexts with
    | nil =>
      rw [List.intercalate_singleton] at hfuel ⊢
      simp only [List.length_cons, List.length_append] at hfuel
      rw [hmember _ (by omega) (stops_cons (by decide) rest), readMark_other (by decide) (by decide),
        readMark_self (by decide)]
      rfl
    | cons _ _ =>
      rw [List.intercalate_cons_cons] at hfuel ⊢
      simp only [List.length_cons, List.length_append, List.length_nil] at hfuel
      rw [List.append_assoc, List.append_assoc, List.singleton_append,
        hmember _ (by omega) (stops_cons (by decide) _), readMark_self (by decide)]
      simp only [ih (List.cons_ne_nil _ _) fuel rest (by omega)]
      rfl

/-- **An object is read member by member.** -/
theorem reads_obj (h : List.Forall₂ ReadsMember texts members) :
    Reads (123 :: ([44].intercalate texts ++ [125])) (.obj members) := by
  intro fuel rest hfuel _
  obtain ⟨fuel, rfl⟩ : ∃ k, fuel = k + 1 := ⟨fuel - 1, by omega⟩
  simp only [List.length_cons, List.length_append, List.length_nil] at hfuel
  rw [List.cons_append, List.append_assoc, List.singleton_append, readValue, skipSpace_cons (by decide)]
  cases h with
  | nil => rfl
  | @cons text member texts members htext htexts =>
    have hmembers := readMembers_intercalate (.cons htext htexts) (List.cons_ne_nil _ _) fuel rest
      (by omega)
    have hmark : readMark 125 ([44].intercalate (text :: texts) ++ 125 :: rest) = none := by
      obtain ⟨name, value, rfl, -⟩ := htext
      cases texts with
      | nil =>
        rw [List.intercalate_singleton]
        exact readMark_other (by decide) (by decide) _
      | cons next texts =>
        rw [List.intercalate_cons_cons]
        exact readMark_other (by decide) (by decide) _
    simp only [hmark, hmembers]
    rfl

end

/-- **A text that reads as a value is that value.** -/
theorem readText_of_reads {text : Points} {v : JsonText} (h : Reads text v) :
    readText text = some v := by
  have hread := h (text.length + 1) [] (Nat.lt_succ_self _) stops_nil
  rw [List.append_nil] at hread
  rw [readText, hread]
  rfl

end JsonText

end Ai00
