import Ai00.Basic.Decimal
import Ai00.Json.Text

/-! # Canonical texts of numbers in two languages

`_canonical_float` of `contracts/connector_execution_plan_v2.py` and `Number` of
`CanonicalJsonV2.cs`. Both take the platform's text of a binary64 number apart and write it anew,
the one from `repr`, the other from `ToString("R")`. What the platforms have in common is a
parameter, the shortest digits and their position; both texts are then `numberText` of these.
-/

namespace Ai00.Connector

/-! ## Texts of numbers -/

/-- Digits around a point; `whole` follows a number without a fraction. -/
def fixedText (digits : Str) (position : Int) (whole : Str) : Str :=
  if position ≤ 0 then "0.".toList ++ List.replicate (-position).toNat '0' ++ digits
  else if digits.length ≤ position then
    digits ++ List.replicate (position - digits.length).toNat '0' ++ whole
  else digits.take position.toNat ++ '.' :: digits.drop position.toNat

/-- `d` or `d.ddd`. -/
def mantissaText (digits : Str) : Str :=
  digits.take 1 ++ if 1 < digits.length then '.' :: digits.drop 1 else []

/-- A sign and at least two digits. -/
def exponentText (exponent : Int) : Str :=
  (if 0 ≤ exponent then '+' else '-') ::
    (if exponent.natAbs < 10 then ['0'] else []) ++ Nat.toDigits 10 exponent.natAbs

def scientificText (mark : Char) (digits : Str) (position : Int) : Str :=
  mantissaText digits ++ mark :: exponentText (position - 1)

/-- `repr` of a positive float. -/
def pyRepr (digits : Str) (position : Int) : Str :=
  if -4 < position ∧ position ≤ 16 then fixedText digits position ".0".toList
  else scientificText 'e' digits position

/-- `ToString("R")` of a positive double; where it changes to an exponent is left open. -/
def netRoundTrip (exponential : Str → Int → Bool) (digits : Str) (position : Int) : Str :=
  if exponential digits position then scientificText 'E' digits position
  else fixedText digits position []

/-- `int(text)` and `int.Parse(text)`. -/
def parseInt : Str → Int
  | '-' :: digits => -(Nat.ofDigitChars 10 digits 0 : Int)
  | '+' :: digits => Nat.ofDigitChars 10 digits 0
  | digits => Nat.ofDigitChars 10 digits 0

/-- `s.rstrip("0")`. -/
def trimZeros (s : Str) : Str := (s.reverse.dropWhile (· = '0')).reverse

variable (format : DecimalFormat)

def canonicalFloat (x : Binary64) : Except PyError Str :=
  if x.mant = 0 then .ok ['0']
  else
    let sign : Str := if x.neg then ['-'] else []
    let raw := (pyRepr (format.digits x.abs) (format.position x.abs)).map Char.toLower
    if 'e' ∉ raw then
      .ok (sign ++ if ".0".toList <:+ raw then raw.take (raw.length - 2) else raw)
    else
      match splitOn 'e' raw with
      | [mantissa, exponentPart] =>
        let exponent := parseInt exponentPart
        let digits := trimZeros (mantissa.filter (· ≠ '.'))
        let decimalPosition := exponent + 1
        let text :=
          if decimalPosition ≤ -6 then
            digits.take 1 ++ (if 1 < digits.length then '.' :: digits.drop 1 else [])
              ++ 'e' :: (if 0 ≤ exponent then ['+'] else []) ++ Json.intText exponent
          else if decimalPosition ≤ 0 then
            "0.".toList ++ List.replicate (-decimalPosition).toNat '0' ++ digits
          else if decimalPosition ≤ 21 then
            if digits.length ≤ decimalPosition then
              digits ++ List.replicate (decimalPosition - digits.length).toNat '0'
            else
              digits.take decimalPosition.toNat ++ '.' :: digits.drop decimalPosition.toNat
          else
            digits.take 1 ++ (if 1 < digits.length then '.' :: digits.drop 1 else [])
              ++ "e+".toList ++ Json.intText (decimalPosition - 1)
        .ok (sign ++ text)
      | _ => .error (.valueError "not enough values to unpack")

/-- The part of `Number` after its checks. -/
def writeDouble (exponential : Str → Int → Bool) (x : Binary64) : Str :=
  if x.mant = 0 then ['0']
  else
    let shortest := (netRoundTrip exponential (format.digits x.abs) (format.position x.abs)).map
      Char.toLower
    let parts := splitOn 'e' shortest
    let mantissa := parts.head?.getD []
    let point := (mantissa.findIdx? (· = '.')).getD mantissa.length
    let exponent := match parts with
      | [_, exponentPart] => parseInt exponentPart
      | _ => 0
    let allDigits := mantissa.filter (· ≠ '.')
    let leading := allDigits.length - (allDigits.dropWhile (· = '0')).length
    let digits := trimZeros (allDigits.dropWhile (· = '0'))
    let position : Int := point + exponent - leading
    let result :=
      if 0 < position ∧ position ≤ 21 then
        if digits.length ≤ position then
          digits ++ List.replicate (position - digits.length).toNat '0'
        else digits.take position.toNat ++ '.' :: digits.drop position.toNat
      else if -6 < position ∧ position ≤ 0 then
        "0.".toList ++ List.replicate (-position).toNat '0' ++ digits
      else
        let exponent := position - 1
        digits.take 1 ++ (if 1 < digits.length then '.' :: digits.drop 1 else [])
          ++ 'e' :: (if 0 ≤ exponent then ['+'] else []) ++ Json.intText exponent
    if x.neg then '-' :: result else result

/-! ## The characters of a platform's text -/

/-- The characters beside the mark of an exponent. -/
def IsPlain (c : Char) : Prop := c.isDigit = true ∨ c = '.' ∨ c = '+' ∨ c = '-'

theorem toLower_of_isPlain {c : Char} (h : IsPlain c) : c.toLower = c := by
  rcases h with h | rfl | rfl | rfl
  · have hrange : 48 ≤ c.toNat ∧ c.toNat ≤ 57 := by
      simpa [Char.isDigit, UInt32.le_iff_toNat_le] using h
    have hupper : ¬ (c.val ≥ 'A'.val ∧ c.val ≤ 'Z'.val) := by
      rintro ⟨hge, -⟩
      have : 65 ≤ c.toNat := by simpa [UInt32.le_iff_toNat_le] using hge
      omega
    rw [Char.toLower, dif_neg hupper]
  all_goals rfl

theorem ne_e_of_isPlain {c : Char} (h : IsPlain c) : c ≠ 'e' := by
  rintro rfl
  rcases h with h | h | h | h <;> exact absurd h (by decide)

variable {s : Str}

theorem map_toLower (h : ∀ c ∈ s, IsPlain c) : s.map Char.toLower = s :=
  (List.map_congr_left fun c hc => toLower_of_isPlain (h c hc)).trans (List.map_id s)

theorem not_mem_e (h : ∀ c ∈ s, IsPlain c) : 'e' ∉ s :=
  fun hmem => ne_e_of_isPlain (h 'e' hmem) rfl

section

variable {digits : Str} {position : Int}

theorem isPlain_zeros {n : Nat} {c : Char} (h : c ∈ List.replicate n '0') : IsPlain c :=
  Or.inl (List.eq_of_mem_replicate h ▸ rfl)

theorem isPlain_fixedText (hdigits : ∀ c ∈ digits, c.isDigit = true) {whole : Str}
    (hwhole : ∀ c ∈ whole, IsPlain c) : ∀ c ∈ fixedText digits position whole, IsPlain c := by
  have hplain : ∀ c ∈ digits, IsPlain c := fun c hc => Or.inl (hdigits c hc)
  have hpoint : ∀ c ∈ "0.".toList, IsPlain c := by simp [IsPlain]
  intro c hc
  unfold fixedText at hc
  split_ifs at hc
  · rcases List.mem_append.mp hc with hc | hc
    · rcases List.mem_append.mp hc with hc | hc
      · exact hpoint c hc
      · exact isPlain_zeros hc
    · exact hplain c hc
  · rcases List.mem_append.mp hc with hc | hc
    · rcases List.mem_append.mp hc with hc | hc
      · exact hplain c hc
      · exact isPlain_zeros hc
    · exact hwhole c hc
  · rcases List.mem_append.mp hc with hc | hc
    · exact hplain c (List.mem_of_mem_take hc)
    · rcases List.mem_cons.mp hc with rfl | hc
      · exact Or.inr (Or.inl rfl)
      · exact hplain c (List.mem_of_mem_drop hc)

theorem isPlain_mantissaText (hdigits : ∀ c ∈ digits, c.isDigit = true) :
    ∀ c ∈ mantissaText digits, IsPlain c := by
  intro c hc
  rcases List.mem_append.mp hc with hc | hc
  · exact Or.inl (hdigits c (List.mem_of_mem_take hc))
  · split_ifs at hc
    · rcases List.mem_cons.mp hc with rfl | hc
      · exact Or.inr (Or.inl rfl)
      · exact Or.inl (hdigits c (List.mem_of_mem_drop hc))
    · cases hc

theorem isPlain_exponentText (exponent : Int) : ∀ c ∈ exponentText exponent, IsPlain c := by
  intro c hc
  rcases List.mem_cons.mp hc with rfl | hc
  · split_ifs
    · exact Or.inr (Or.inr (Or.inl rfl))
    · exact Or.inr (Or.inr (Or.inr rfl))
  · rcases List.mem_append.mp hc with hc | hc
    · split_ifs at hc
      · exact Or.inl (List.mem_singleton.mp hc ▸ rfl)
      · cases hc
    · exact Or.inl (Nat.isDigit_of_mem_toDigits (by decide) (by decide) hc)

theorem map_toLower_scientificText (hdigits : ∀ c ∈ digits, c.isDigit = true) {mark : Char}
    (hmark : mark.toLower = 'e') :
    (scientificText mark digits position).map Char.toLower
      = mantissaText digits ++ 'e' :: exponentText (position - 1) := by
  rw [scientificText, List.map_append, List.map_cons, hmark,
    map_toLower (isPlain_mantissaText hdigits), map_toLower (isPlain_exponentText _)]

theorem splitOn_scientificText (hdigits : ∀ c ∈ digits, c.isDigit = true) :
    splitOn 'e' (mantissaText digits ++ 'e' :: exponentText (position - 1))
      = [mantissaText digits, exponentText (position - 1)] := by
  rw [splitOn_append (not_mem_e (isPlain_mantissaText hdigits)),
    splitOn_of_not_mem (not_mem_e (isPlain_exponentText _))]

/-- Reading an exponent back, with its sign and its leading zero. -/
theorem parseInt_exponentText (exponent : Int) : parseInt (exponentText exponent) = exponent := by
  have hvalue : (Nat.ofDigitChars 10 ((if exponent.natAbs < 10 then ['0'] else [])
      ++ Nat.toDigits 10 exponent.natAbs) 0 : Int) = exponent.natAbs := by
    rw [Nat.ofDigitChars_append]
    split_ifs <;> simp [Nat.ofDigitChars_cons]
  unfold exponentText
  by_cases hsign : 0 ≤ exponent
  · rw [if_pos hsign]
    exact hvalue.trans (by omega)
  · rw [if_neg hsign]
    exact (congrArg Neg.neg hvalue).trans (by omega)

/-! ## Digits without zeros around them -/

theorem ne_point_of_isDigit {c : Char} (h : c.isDigit = true) : c ≠ '.' := by
  rintro rfl
  exact absurd h (by decide)

theorem filter_point_eq_self (h : ∀ c ∈ s, c.isDigit = true) : s.filter (· ≠ '.') = s :=
  List.filter_eq_self.mpr fun c hc => by simpa using ne_point_of_isDigit (h c hc)

theorem filter_mantissaText (hdigits : ∀ c ∈ digits, c.isDigit = true) :
    (mantissaText digits).filter (· ≠ '.') = digits := by
  have htake := filter_point_eq_self fun c hc => hdigits c (List.mem_of_mem_take hc (i := 1))
  have hdrop := filter_point_eq_self fun c hc => hdigits c (List.mem_of_mem_drop hc (i := 1))
  rw [mantissaText, List.filter_append, htake]
  by_cases hlong : 1 < digits.length
  · rw [if_pos hlong, List.filter_cons_of_neg (by simp), hdrop, List.take_append_drop]
  · rw [if_neg hlong, List.filter_nil, List.append_nil, List.take_of_length_le (not_lt.mp hlong)]

theorem dropWhile_zeros (hhead : s.head? ≠ some '0') (n : Nat) :
    (List.replicate n '0' ++ s).dropWhile (· = '0') = s := by
  induction n with
  | zero =>
    cases s with
    | nil => rfl
    | cons c s =>
      have hc : c ≠ '0' := fun h => hhead (by rw [h]; rfl)
      exact List.dropWhile_cons_of_neg (by simpa using hc)
  | succ n ih => exact ih

theorem trimZeros_append (hlast : s.getLast? ≠ some '0') (n : Nat) :
    trimZeros (s ++ List.replicate n '0') = s := by
  rw [trimZeros, List.reverse_append, List.reverse_replicate, dropWhile_zeros, List.reverse_reverse]
  rwa [List.head?_reverse]

theorem trimZeros_eq_self (hlast : s.getLast? ≠ some '0') : trimZeros s = s := by
  have h := trimZeros_append hlast 0
  rwa [List.replicate_zero, List.append_nil] at h

theorem findIdx?_point_append (h : ∀ c ∈ s, c.isDigit = true) (rest : Str) :
    (s ++ '.' :: rest).findIdx? (· = '.') = some s.length := by
  induction s with
  | nil => rfl
  | cons c s ih =>
    have hc := ne_point_of_isDigit (h c List.mem_cons_self)
    rw [List.cons_append, List.findIdx?_cons, if_neg (by simpa using hc),
      ih fun d hd => h d (List.mem_cons_of_mem _ hd)]
    rfl

theorem findIdx?_point_of_digits (h : ∀ c ∈ s, c.isDigit = true) : s.findIdx? (· = '.') = none := by
  rw [List.findIdx?_eq_none_iff]
  exact fun c hc => by simpa using ne_point_of_isDigit (h c hc)

end

/-! ## Both texts -/

def numberText (digits : Str) (position : Int) : Str :=
  if 0 < position ∧ position ≤ 21 then
    if digits.length ≤ position then
      digits ++ List.replicate (position - digits.length).toNat '0'
    else digits.take position.toNat ++ '.' :: digits.drop position.toNat
  else if -6 < position ∧ position ≤ 0 then
    "0.".toList ++ List.replicate (-position).toNat '0' ++ digits
  else
    digits.take 1 ++ (if 1 < digits.length then '.' :: digits.drop 1 else [])
      ++ 'e' :: (if 0 ≤ position - 1 then ['+'] else []) ++ Json.intText (position - 1)

/-- The canonical text of a number other than zero. -/
def signedText (x : Binary64) : Str :=
  (if x.neg then ['-'] else []) ++ numberText (format.digits x.abs) (format.position x.abs)

theorem not_suffix_point_zero (hlast : s.getLast? ≠ some '0') :
    ¬ ".0".toList <:+ s := by
  rintro ⟨front, rfl⟩
  exact hlast (by simp)

section

variable {x : Binary64} {digits : Str} {position : Int}

/-- A text without an exponent is canonical but for the `.0` of a whole number. -/
theorem fixedText_canonical (h : IsShortest x digits position) (hlow : -4 < position)
    (hhigh : position ≤ 16) :
    (if ".0".toList <:+ fixedText digits position ".0".toList then
      (fixedText digits position ".0".toList).take
        ((fixedText digits position ".0".toList).length - 2)
      else fixedText digits position ".0".toList) = numberText digits position := by
  by_cases hposition : position ≤ 0
  · have htext : fixedText digits position ".0".toList
        = "0.".toList ++ List.replicate (-position).toNat '0' ++ digits := if_pos hposition
    have hlast : (fixedText digits position ".0".toList).getLast? ≠ some '0' := by
      rw [htext, List.getLast?_append_of_ne_nil _ h.ne_nil]
      exact h.last
    rw [if_neg (not_suffix_point_zero hlast), htext, numberText, if_neg (by omega), if_pos ⟨by omega, hposition⟩]
  · by_cases hwhole : (digits.length : Int) ≤ position
    · have htext : fixedText digits position ".0".toList
          = digits ++ List.replicate (position - digits.length).toNat '0' ++ ".0".toList := by
        rw [fixedText, if_neg hposition, if_pos hwhole]
      rw [htext, if_pos (List.suffix_append _ _), numberText, if_pos ⟨by omega, by omega⟩,
        if_pos hwhole, List.length_append]
      exact List.take_left' (by simp)
    · have htext : fixedText digits position ".0".toList
          = digits.take position.toNat ++ '.' :: digits.drop position.toNat := by
        rw [fixedText, if_neg hposition, if_neg hwhole]
      have hdrop : digits.drop position.toNat ≠ [] := by
        rw [ne_eq, List.drop_eq_nil_iff]
        omega
      have hlast : (fixedText digits position ".0".toList).getLast? ≠ some '0' := by
        rw [htext, List.getLast?_append_of_ne_nil _ (List.cons_ne_nil _ _),
          List.getLast?_cons_of_ne_nil hdrop, List.getLast?_drop]
        split_ifs
        · exact nofun
        · exact h.last
      rw [if_neg (not_suffix_point_zero hlast), htext, numberText, if_pos ⟨by omega, by omega⟩, if_neg hwhole]

end

/-- **`_canonical_float` prints the canonical text.** -/
theorem canonicalFloat_eq {x : Binary64} (hx : x.mant ≠ 0) :
    canonicalFloat format x = .ok (signedText format x) := by
  have h := format.shortest x.abs rfl hx
  generalize hdigits : format.digits x.abs = digits at h
  generalize hposition : format.position x.abs = position at h
  rw [canonicalFloat, if_neg hx, signedText, hdigits, hposition, pyRepr]
  by_cases hfixed : -4 < position ∧ position ≤ 16
  · have hplain := @isPlain_fixedText digits position h.isDigit ".0".toList (by simp [IsPlain])
    simp only [if_pos hfixed, map_toLower hplain, if_pos (not_mem_e hplain),
      fixedText_canonical h hfixed.1 hfixed.2]
  · have hmem : ¬ 'e' ∉ mantissaText digits ++ 'e' :: exponentText (position - 1) :=
      not_not.mpr (by simp)
    simp only [if_neg hfixed, map_toLower_scientificText h.isDigit (show 'e'.toLower = 'e' from rfl),
      if_neg hmem, splitOn_scientificText h.isDigit, parseInt_exponentText,
      filter_mantissaText h.isDigit, trimZeros_eq_self h.last, sub_add_cancel]
    congr 2
    unfold numberText
    split_ifs <;> first | rfl | omega

/-- What `Number` reads off a platform's text: the digits with zeros around them, and where the
point stands. -/
theorem writeDouble_of_parts {exponential : Str → Int → Bool} {x : Binary64} (hx : x.mant ≠ 0)
    {mantissa : Str} {exponent : Int} {zeros trailing : Nat}
    (hparts : splitOn 'e' ((netRoundTrip exponential (format.digits x.abs)
        (format.position x.abs)).map Char.toLower) = [mantissa] ∧ exponent = 0
      ∨ ∃ exponentPart, splitOn 'e' ((netRoundTrip exponential (format.digits x.abs)
        (format.position x.abs)).map Char.toLower) = [mantissa, exponentPart] ∧ parseInt exponentPart = exponent)
    (hdigits : mantissa.filter (· ≠ '.')
      = List.replicate zeros '0' ++ (format.digits x.abs ++ List.replicate trailing '0'))
    (hpoint : ((mantissa.findIdx? (· = '.')).getD mantissa.length : Int) + exponent - zeros
      = format.position x.abs) :
    writeDouble format exponential x = signedText format x := by
  have h := format.shortest x.abs rfl hx
  have hhead : (format.digits x.abs ++ List.replicate trailing '0').head? ≠ some '0' := by
    rw [List.head?_append_of_ne_nil _ h.ne_nil]
    exact h.head
  have hleading : (List.replicate zeros '0' ++ (format.digits x.abs ++ List.replicate trailing '0')).length
      - (format.digits x.abs ++ List.replicate trailing '0').length = zeros := by
    rw [List.length_append, List.length_replicate, Nat.add_sub_cancel]
  have hsign : ∀ t : Str, (if x.neg then '-' :: t else t) = (if x.neg then ['-'] else []) ++ t := by
    intro t
    split_ifs <;> rfl
  rw [writeDouble, if_neg hx, signedText, numberText]
  rcases hparts with ⟨hparts, rfl⟩ | ⟨exponentPart, hparts, hexponent⟩
  · simp only [hparts, List.head?_cons, Option.getD_some, hdigits, dropWhile_zeros hhead,
      hleading, trimZeros_append h.last, hpoint]
    exact hsign _
  · simp only [hparts, List.head?_cons, Option.getD_some, hdigits, dropWhile_zeros hhead,
      hleading, trimZeros_append h.last, hexponent, hpoint]
    exact hsign _

theorem fixedText_parts {x : Binary64} {digits : Str} {position : Int}
    (h : IsShortest x digits position) :
    ∃ zeros trailing, (fixedText digits position []).filter (· ≠ '.')
        = List.replicate zeros '0' ++ (digits ++ List.replicate trailing '0')
      ∧ (((fixedText digits position []).findIdx? (· = '.')).getD
          (fixedText digits position []).length : Int) - zeros = position := by
  have hzeros : ∀ n, ∀ c ∈ List.replicate n '0', c.isDigit = true :=
    fun n c hc => List.eq_of_mem_replicate hc ▸ rfl
  by_cases hposition : position ≤ 0
  · have htext : fixedText digits position []
        = ['0'] ++ '.' :: (List.replicate (-position).toNat '0' ++ digits) := if_pos hposition
    refine ⟨(-position).toNat + 1, 0, ?_, ?_⟩
    · have htail : (List.replicate (-position).toNat '0' ++ digits).filter (· ≠ '.')
          = List.replicate (-position).toNat '0' ++ digits :=
        filter_point_eq_self fun c hc =>
          (List.mem_append.mp hc).elim (hzeros _ c) (h.isDigit c)
      rw [htext, List.replicate_succ, List.replicate_zero, List.append_nil]
      show '0' :: (List.replicate (-position).toNat '0' ++ digits).filter (· ≠ '.') = _
      rw [htail]
      rfl
    · rw [htext, findIdx?_point_append (by simp)]
      simp only [List.length_singleton, Option.getD_some]
      omega
  · by_cases hwhole : (digits.length : Int) ≤ position
    · have htext : fixedText digits position []
          = digits ++ List.replicate (position - digits.length).toNat '0' := by
        rw [fixedText, if_neg hposition, if_pos hwhole, List.append_nil]
      have hall : ∀ c ∈ digits ++ List.replicate (position - digits.length).toNat '0',
          c.isDigit = true := fun c hc =>
        (List.mem_append.mp hc).elim (h.isDigit c) (hzeros _ c)
      refine ⟨0, (position - digits.length).toNat, ?_, ?_⟩
      · rw [htext, filter_point_eq_self hall]
        rfl
      · rw [htext, findIdx?_point_of_digits hall, Option.getD_none, List.length_append, List.length_replicate]
        omega
    · have htext : fixedText digits position []
          = digits.take position.toNat ++ '.' :: digits.drop position.toNat := by
        rw [fixedText, if_neg hposition, if_neg hwhole]
      have htake : ∀ c ∈ digits.take position.toNat, c.isDigit = true :=
        fun c hc => h.isDigit c (List.mem_of_mem_take hc)
      have hdrop : ∀ c ∈ digits.drop position.toNat, c.isDigit = true :=
        fun c hc => h.isDigit c (List.mem_of_mem_drop hc)
      refine ⟨0, 0, ?_, ?_⟩
      · rw [htext, List.filter_append, List.filter_cons_of_neg (by simp),
          filter_point_eq_self htake, filter_point_eq_self hdrop, List.take_append_drop]
        simp
      · rw [htext, findIdx?_point_append htake, Option.getD_some, List.length_take]
        omega

/-- **`Number` prints the canonical text**, wherever the platform turns to exponents. -/
theorem writeDouble_eq (exponential : Str → Int → Bool) {x : Binary64} (hx : x.mant ≠ 0) :
    writeDouble format exponential x = signedText format x := by
  have h := format.shortest x.abs rfl hx
  by_cases hexp : exponential (format.digits x.abs) (format.position x.abs) = true
  · have hraw : (netRoundTrip exponential (format.digits x.abs) (format.position x.abs)).map
        Char.toLower = mantissaText (format.digits x.abs) ++ 'e' :: exponentText (format.position x.abs - 1) := by
      rw [netRoundTrip, if_pos hexp]
      exact map_toLower_scientificText h.isDigit rfl
    refine @writeDouble_of_parts format exponential x hx (mantissaText (format.digits x.abs))
      (format.position x.abs - 1) 0 0 (Or.inr ⟨_, ?_, parseInt_exponentText _⟩) ?_ ?_
    · rw [hraw]
      exact splitOn_scientificText h.isDigit
    · rw [filter_mantissaText h.isDigit]
      simp
    · have hpoint : ((mantissaText (format.digits x.abs)).findIdx? (· = '.')).getD
          (mantissaText (format.digits x.abs)).length = 1 := by
        have hlen : 0 < (format.digits x.abs).length := List.length_pos_iff.mpr h.ne_nil
        have htake : ∀ c ∈ (format.digits x.abs).take 1, c.isDigit = true :=
          fun c hc => h.isDigit c (List.mem_of_mem_take hc)
        rw [mantissaText]
        by_cases hlong : 1 < (format.digits x.abs).length
        · rw [if_pos hlong, findIdx?_point_append htake, List.length_take]
          simp only [Option.getD_some]
          omega
        · rw [if_neg hlong, List.append_nil, findIdx?_point_of_digits htake, List.length_take]
          simp only [Option.getD_none]
          omega
      rw [hpoint]
      omega
  · have hplain := @isPlain_fixedText _ (format.position x.abs) h.isDigit []
      (fun c hc => absurd hc List.not_mem_nil)
    have hraw : splitOn 'e' ((netRoundTrip exponential (format.digits x.abs)
        (format.position x.abs)).map Char.toLower)
        = [fixedText (format.digits x.abs) (format.position x.abs) []] := by
      rw [netRoundTrip, if_neg hexp, map_toLower hplain, splitOn_of_not_mem (not_mem_e hplain)]
    obtain ⟨zeros, trailing, hfilter, hpoint⟩ := fixedText_parts h
    exact writeDouble_of_parts format hx (Or.inl ⟨hraw, rfl⟩) hfilter (by rw [add_zero, hpoint])

/-! ## Whole numbers -/

/-- The number a whole binary64 number stands for, its sign apart. -/
theorem toRat_abs {x : Binary64} {n : Int} (hx : x.toRat = n) (hn : n ≠ 0) :
    x.mant ≠ 0 ∧ x.abs.toRat = n.natAbs ∧ (x.neg = true ↔ n < 0) := by
  have hpow : (0 : ℚ) < 2 ^ x.exp := by positivity
  have habs : x.abs.toRat = x.mant * 2 ^ x.exp := by
    simp [Binary64.toRat, Binary64.abs]
  have hmant : x.mant ≠ 0 := by
    intro h0
    have hzero : x.toRat = 0 := by simp [Binary64.toRat, h0]
    rw [hzero] at hx
    exact hn (by exact_mod_cast hx.symm)
  have hpos : 0 < x.abs.toRat := by
    rw [habs]
    have : (0 : ℚ) < x.mant := by exact_mod_cast Nat.pos_of_ne_zero hmant
    positivity
  cases hneg : x.neg with
  | true =>
    have hvalue : x.toRat = -x.abs.toRat := by
      rw [habs]
      simp [Binary64.toRat, hneg]
    have hlt : (n : ℚ) < 0 := by rw [← hx, hvalue]; linarith
    have hltn : n < 0 := by exact_mod_cast hlt
    refine ⟨hmant, ?_, iff_of_true rfl hltn⟩
    have hcast : ((n.natAbs : Int) : ℚ) = -n := by
      rw [← Int.cast_neg]
      congr 1
      omega
    have habsn : x.abs.toRat = -n := by linarith
    rw [habsn, ← hcast, Int.cast_natCast]
  | false =>
    have hvalue : x.toRat = x.abs.toRat := by
      rw [habs]
      simp [Binary64.toRat, hneg]
    have hgt : (0 : ℚ) < n := by rw [← hx, hvalue]; exact hpos
    have hgtn : 0 < n := by exact_mod_cast hgt
    refine ⟨hmant, ?_, iff_of_false Bool.false_ne_true (by omega)⟩
    have hcast : ((n.natAbs : Int) : ℚ) = n := by
      congr 1
      omega
    rw [← hvalue, hx, ← hcast, Int.cast_natCast]

/-- **A whole number below 2⁵³ is printed as it is.** -/
theorem writeDouble_int (exponential : Str → Int → Bool) {x : Binary64} {n : Int}
    (hx : x.toRat = n) (hn : n.natAbs < 2 ^ 53) :
    writeDouble format exponential x = Json.intText n := by
  rcases eq_or_ne n 0 with rfl | hn0
  · have hmant : x.mant = 0 := by
      have hpow : (2 : ℚ) ^ x.exp ≠ 0 := by positivity
      rw [Int.cast_zero, Binary64.toRat] at hx
      cases hneg : x.neg <;> simpa [hneg, hpow] using hx
    rw [writeDouble, if_pos hmant]
    rfl
  · obtain ⟨hmant, habs, hsign⟩ := toRat_abs hx hn0
    have hpos : 0 < n.natAbs := Int.natAbs_pos.mpr hn0
    have h := format.shortest x.abs rfl hmant
    have hle := h.length_le_position habs hpos hn
    have htext := h.toDigits habs hpos hn
    have hlen : (Nat.toDigits 10 n.natAbs).length ≤ 16 :=
      (Nat.length_toDigits_le_iff (by decide) (by decide)).mpr (lt_trans hn (by decide))
    have hposition : format.position x.abs = (Nat.toDigits 10 n.natAbs).length := by
      rw [← htext, List.length_append, List.length_replicate]
      omega
    have hnumber : numberText (format.digits x.abs) (format.position x.abs)
        = Nat.toDigits 10 n.natAbs := by
      have hnonempty : 0 < (Nat.toDigits 10 n.natAbs).length := Nat.length_toDigits_pos
      rw [numberText, if_pos ⟨by omega, by omega⟩, if_pos hle, htext]
    rw [writeDouble_eq format exponential hmant, signedText, hnumber]
    cases n with
    | ofNat k =>
      rw [if_neg fun hneg => absurd (hsign.mp hneg) (not_lt.mpr (Int.natCast_nonneg k))]
      rfl
    | negSucc k =>
      rw [if_pos (hsign.mpr (by omega))]
      rfl

end Ai00.Connector
