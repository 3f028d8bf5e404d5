import Ai00.Basic.Python

/-! # Shortest decimals of binary64 numbers

The decimal a language prints for a binary64 number is one that reads back as the number, with
as few digits as possible (`IsShortest`). For a whole number below 2⁵³ these are its own decimal
digits without the zeros at the end (`IsShortest.toDigits`): a shorter decimal, or one that is
not whole, would be nearer to another binary64 number.
-/

namespace Ai00

def Binary64.abs (x : Binary64) : Binary64 := { x with neg := false }

/-- The number `0.d₁d₂… × 10^position`. -/
def decimalValue (digits : Str) (position : Int) : ℚ :=
  Nat.ofDigitChars 10 digits 0 * (10 : ℚ) ^ (position - digits.length)

/-- `x` is the binary64 number nearest to `d`; of two that are as near, the even one. -/
def Reads (d : ℚ) (x : Binary64) : Prop :=
  ∀ y : Binary64, |d - x.toRat| ≤ |d - y.toRat|
    ∧ (|d - x.toRat| = |d - y.toRat| → x.toRat = y.toRat ∨ x.mant % 2 = 0)

/-- The digits and the position of the point of a shortest decimal that reads back as `x`. -/
structure IsShortest (x : Binary64) (digits : Str) (position : Int) : Prop where
  isDigit : ∀ c ∈ digits, c.isDigit = true
  ne_nil : digits ≠ []
  head : digits.head? ≠ some '0'
  last : digits.getLast? ≠ some '0'
  reads : Reads (decimalValue digits position) x
  minimal : ∀ ds p, (∀ c ∈ ds, c.isDigit = true) → Reads (decimalValue ds p) x →
    digits.length ≤ ds.length

/-- How a platform reads whole numbers as binary64 numbers and prints these. -/
structure DecimalFormat where
  /-- The binary64 number nearest to a whole number, unless it is out of range. -/
  ofInt : Int → Option Binary64
  ofInt_exact : ∀ (n : Int) (x : Binary64), x.toRat = n → ∃ y, ofInt n = some y ∧ y.toRat = n
  digits : Binary64 → Str
  position : Binary64 → Int
  shortest : ∀ x : Binary64, x.neg = false → x.mant ≠ 0 → IsShortest x (digits x) (position x)

/-! ## Digits -/

theorem digit_value {c : Char} (h : c.isDigit = true) : c.toNat - 48 < 10 ∧ Nat.digitChar (c.toNat - 48) = c := by
  have hrange : 48 ≤ c.toNat ∧ c.toNat ≤ 57 := by
    simpa [Char.isDigit, UInt32.le_iff_toNat_le] using h
  refine ⟨by omega, Char.toNat_inj.mp ?_⟩
  rw [Nat.toNat_digitChar_of_lt_ten (by omega)]
  omega

theorem toDigits_ofDigitChars {ds : Str} (h : ∀ c ∈ ds, c.isDigit = true) {n : Nat} (hn : 0 < n) :
    Nat.toDigits 10 (Nat.ofDigitChars 10 ds n) = Nat.toDigits 10 n ++ ds := by
  induction ds generalizing n with
  | nil => simp
  | cons c ds ih =>
    obtain ⟨hlt, hchar⟩ := digit_value (h c List.mem_cons_self)
    have hnext : Nat.toDigits 10 (10 * n + (c.toNat - 48)) = Nat.toDigits 10 n ++ [c] := by
      rw [← Nat.toDigits_append_toDigits (by decide) hn hlt, Nat.toDigits_of_lt_base hlt, hchar]
    rw [Nat.ofDigitChars_cons]
    show Nat.toDigits 10 (Nat.ofDigitChars 10 ds (10 * n + (c.toNat - 48))) = _
    rw [ih (fun d hd => h d (List.mem_cons_of_mem _ hd)) (by omega), hnext, List.append_assoc]
    rfl

/-- **A text of digits without a zero in front is the numeral of its value.** -/
theorem toDigits_ofDigitChars_zero {ds : Str} (h : ∀ c ∈ ds, c.isDigit = true) (hne : ds ≠ [])
    (hhead : ds.head? ≠ some '0') : Nat.toDigits 10 (Nat.ofDigitChars 10 ds 0) = ds := by
  cases ds with
  | nil => exact absurd rfl hne
  | cons c ds =>
    obtain ⟨hlt, hchar⟩ := digit_value (h c List.mem_cons_self)
    have hpos : 0 < c.toNat - 48 := by
      rcases Nat.eq_zero_or_pos (c.toNat - 48) with hz | hpos
      · rw [hz] at hchar
        exact absurd (congrArg some hchar.symm) hhead
      · exact hpos
    rw [Nat.ofDigitChars_cons, Nat.mul_zero, Nat.zero_add]
    show Nat.toDigits 10 (Nat.ofDigitChars 10 ds (c.toNat - 48)) = _
    rw [toDigits_ofDigitChars (fun d hd => h d (List.mem_cons_of_mem _ hd)) hpos,
      Nat.toDigits_of_lt_base hlt, hchar]
    rfl

theorem ofDigitChars_lt {ds : Str} (h : ∀ c ∈ ds, c.isDigit = true) :
    Nat.ofDigitChars 10 ds 0 < 10 ^ ds.length := by
  induction ds with
  | nil => simp
  | cons c ds ih =>
    have hc := (digit_value (h c List.mem_cons_self)).1
    have htail := ih fun d hd => h d (List.mem_cons_of_mem _ hd)
    rw [Nat.ofDigitChars_cons, Nat.ofDigitChars_eq_ofDigitChars_zero, List.length_cons, pow_succ]
    show 10 ^ ds.length * (10 * 0 + (c.toNat - 48)) + _ < _
    have hle : 10 ^ ds.length * (10 * 0 + (c.toNat - 48)) ≤ 10 ^ ds.length * 9 :=
      Nat.mul_le_mul_left _ (by omega)
    omega

theorem toDigits_mul_pow {n : Nat} (hn : 0 < n) (z : Nat) :
    Nat.toDigits 10 (n * 10 ^ z) = Nat.toDigits 10 n ++ List.replicate z '0' := by
  have hzeros : ∀ c ∈ List.replicate z '0', c.isDigit = true := by
    intro c hc
    rw [List.eq_of_mem_replicate hc]
    rfl
  have hvalue : Nat.ofDigitChars 10 (List.replicate z '0') n = n * 10 ^ z := by
    rw [Nat.ofDigitChars_replicate_zero, Nat.mul_comm]
  rw [← hvalue, toDigits_ofDigitChars hzeros hn]

theorem head_toDigits {n : Nat} (hn : 0 < n) : (Nat.toDigits 10 n).head? ≠ some '0' := by
  induction n using Nat.strongRecOn with
  | _ n ih =>
    rcases Nat.lt_or_ge n 10 with hlt | hge
    · rw [Nat.toDigits_of_lt_base hlt]
      have hchar : ∀ k, k < 10 → 0 < k → k.digitChar ≠ '0' := by decide
      exact fun h => hchar n hlt hn (Option.some.inj h)
    · rw [Nat.toDigits_of_base_le (by decide) hge, List.head?_append_of_ne_nil _ Nat.toDigits_ne_nil]
      exact ih (n / 10) (by omega) (by omega)

/-! ## Whole binary64 numbers -/

theorem exists_binary64 {n : Nat} (h : n ≤ 2 ^ 53) : ∃ x : Binary64, x.neg = false ∧ x.toRat = n := by
  rcases Nat.eq_zero_or_pos n with rfl | hpos
  · exact ⟨.zero, rfl, by simp [Binary64.toRat, Binary64.zero]⟩
  rcases Nat.lt_or_ge n (2 ^ 53) with hlt | hge
  · have hlog : Nat.log2 n ≤ 52 := Nat.lt_succ_iff.mp ((Nat.log2_lt hpos.ne').mpr hlt)
    have hlow : 2 ^ Nat.log2 n ≤ n := Nat.log2_self_le hpos.ne'
    have hhigh : n < 2 ^ (Nat.log2 n + 1) := (Nat.log2_lt hpos.ne').mp (Nat.lt_succ_self _)
    have hmant : 2 ^ 52 ≤ n * 2 ^ (52 - Nat.log2 n) ∧ n * 2 ^ (52 - Nat.log2 n) < 2 ^ 53 := by
      constructor
      · calc 2 ^ 52 = 2 ^ Nat.log2 n * 2 ^ (52 - Nat.log2 n) := by rw [← pow_add]; congr 1; omega
          _ ≤ n * 2 ^ (52 - Nat.log2 n) := Nat.mul_le_mul_right _ hlow
      · calc n * 2 ^ (52 - Nat.log2 n)
            < 2 ^ (Nat.log2 n + 1) * 2 ^ (52 - Nat.log2 n) :=
              Nat.mul_lt_mul_of_pos_right hhigh (by positivity)
          _ = 2 ^ 53 := by rw [← pow_add]; congr 1; omega
    refine ⟨⟨false, n * 2 ^ (52 - Nat.log2 n), -((52 - Nat.log2 n : Nat) : Int), hmant.2,
      by omega, by omega, Or.inl hmant.1⟩, rfl, ?_⟩
    have hpow : (2 : ℚ) ^ (52 - Nat.log2 n) ≠ 0 := by positivity
    simp only [Binary64.toRat, zpow_neg, zpow_natCast, Nat.cast_mul, Nat.cast_pow]
    field_simp
    simp
  · have heq : n = 2 ^ 53 := le_antisymm h hge
    refine ⟨⟨false, 2 ^ 52, 1, by decide⟩, rfl, ?_⟩
    rw [heq]
    norm_num [Binary64.toRat]

theorem exists_binary64_int {n : Int} (h : n.natAbs ≤ 2 ^ 53) : ∃ x : Binary64, x.toRat = n := by
  obtain ⟨x, hneg, hx⟩ := exists_binary64 h
  rcases lt_or_ge n 0 with hlt | hge
  · refine ⟨{ x with neg := true }, ?_⟩
    have hflip : ({ x with neg := true } : Binary64).toRat = -x.toRat := by
      simp [Binary64.toRat, hneg]
    have hcast : ((n.natAbs : Int) : ℚ) = -n := by
      rw [← Int.cast_neg]
      congr 1
      omega
    rw [hflip, hx, ← Int.cast_natCast, hcast, neg_neg]
  · refine ⟨x, ?_⟩
    rw [hx, ← Int.cast_natCast]
    congr 1
    omega

theorem exists_seven_eighths : ∃ x : Binary64, x.toRat = 7 / 8 :=
  ⟨⟨false, 7 * 2 ^ 50, -53, by decide⟩, by norm_num [Binary64.toRat]⟩

/-- No binary64 number lies strictly between a decimal and the number it reads as. -/
theorem Reads.not_between {d q : ℚ} {x : Binary64} (h : Reads d x) (hq : ∃ y : Binary64, y.toRat = q)
    (hlt : |d - q| < |d - x.toRat|) : False := by
  obtain ⟨y, rfl⟩ := hq
  exact absurd (h y).1 (not_le.mpr hlt)

theorem reads_of_eq {d : ℚ} {x : Binary64} (h : x.toRat = d) : Reads d x := by
  intro y
  rw [h, sub_self, abs_zero]
  refine ⟨abs_nonneg _, fun heq => Or.inl ?_⟩
  have := abs_eq_zero.mp heq.symm
  linarith

/-! ## One binary64 number is nearest -/

/-- The number with the other sign. -/
def Binary64.negate (x : Binary64) : Binary64 := { x with neg := !x.neg }

theorem Binary64.toRat_negate (x : Binary64) : x.negate.toRat = -x.toRat := by
  unfold negate toRat
  cases x.neg <;> simp

theorem Binary64.toRat_of_nonneg {x : Binary64} (h : 0 ≤ x.toRat) : x.toRat = x.mant * (2 : ℚ) ^ x.exp := by
  have hnonneg : (0 : ℚ) ≤ x.mant * (2 : ℚ) ^ x.exp := by positivity
  cases hneg : x.neg with
  | false => simp [toRat, hneg]
  | true =>
    have hvalue : x.toRat = -(x.mant * (2 : ℚ) ^ x.exp) := by simp [toRat, hneg]
    rw [hvalue] at h ⊢
    linarith

/-- Between two numbers with even significands lies a third. -/
theorem exists_between_even {x y : Binary64} (hx : 0 ≤ x.toRat) (hlt : x.toRat < y.toRat)
    (hxeven : x.mant % 2 = 0) (hyeven : y.mant % 2 = 0) :
    ∃ z : Binary64, x.toRat < z.toRat ∧ z.toRat < y.toRat := by
  have hxvalue := Binary64.toRat_of_nonneg hx
  have hyvalue := Binary64.toRat_of_nonneg (le_trans hx hlt.le)
  obtain ⟨hmant, hlow, hhigh, hnormal⟩ := x.canonical
  obtain ⟨hmant', hlow', hhigh', hnormal'⟩ := y.canonical
  have hz : x.mant + 1 < 2 ^ 53 ∧ -1074 ≤ x.exp ∧ x.exp ≤ 971 ∧ (2 ^ 52 ≤ x.mant + 1 ∨ x.exp = -1074) := by omega
  have hzvalue : (⟨false, x.mant + 1, x.exp, hz⟩ : Binary64).toRat
      = (x.mant + 1) * (2 : ℚ) ^ x.exp := by simp [Binary64.toRat]
  refine ⟨⟨false, x.mant + 1, x.exp, hz⟩, ?_, ?_⟩
  · rw [hzvalue, hxvalue]
    have hpow : (0 : ℚ) < 2 ^ x.exp := by positivity
    linarith
  rw [hxvalue, hyvalue] at hlt
  rw [hzvalue, hyvalue]
  -- the greater number has no smaller exponent, as its significand would be too large
  have hexp : x.exp ≤ y.exp := by
    by_contra hgt
    have hbig : 2 ^ 52 ≤ x.mant := by omega
    obtain ⟨k, hk⟩ : ∃ k : ℕ, x.exp = y.exp + 1 + k := ⟨(x.exp - y.exp - 1).toNat, by omega⟩
    have hbigq : (2 : ℚ) ^ 52 ≤ x.mant := by exact_mod_cast hbig
    have hmantq : (y.mant : ℚ) < 2 ^ 53 := by exact_mod_cast hmant'
    have hypow : (0 : ℚ) < 2 ^ y.exp := by positivity
    have hone : (1 : ℚ) ≤ 2 ^ k := one_le_pow₀ (by norm_num)
    have hxpow : (2 : ℚ) ^ x.exp = 2 ^ y.exp * 2 * 2 ^ k := by
      rw [hk, zpow_add₀ (by norm_num), zpow_add₀ (by norm_num), zpow_natCast, zpow_one]
    have hge : (y.mant : ℚ) * 2 ^ y.exp ≤ x.mant * 2 ^ x.exp := by
      calc (y.mant : ℚ) * 2 ^ y.exp ≤ 2 ^ 53 * 2 ^ y.exp :=
            mul_le_mul_of_nonneg_right hmantq.le hypow.le
        _ = 2 ^ 52 * (2 ^ y.exp * 2 * 1) := by ring
        _ ≤ x.mant * (2 ^ y.exp * 2 * 2 ^ k) := by gcongr
        _ = x.mant * 2 ^ x.exp := by rw [hxpow]
    linarith
  obtain ⟨k, hk⟩ : ∃ k : ℕ, y.exp = x.exp + k := ⟨(y.exp - x.exp).toNat, by omega⟩
  have hpow : (0 : ℚ) < 2 ^ x.exp := by positivity
  have hyscaled : (y.mant : ℚ) * 2 ^ y.exp = ((y.mant * 2 ^ k : ℕ) : ℚ) * 2 ^ x.exp := by
    rw [hk, zpow_add₀ (by norm_num), zpow_natCast]
    push_cast
    ring
  rw [hyscaled] at hlt ⊢
  have hmants : x.mant < y.mant * 2 ^ k := by
    have hltq := lt_of_mul_lt_mul_right hlt hpow.le
    exact_mod_cast hltq
  have hparity : (y.mant * 2 ^ k) % 2 = 0 := by simp [Nat.mul_mod, hyeven]
  have hnext : x.mant + 1 < y.mant * 2 ^ k := by omega
  refine mul_lt_mul_of_pos_right ?_ hpow
  exact_mod_cast hnext

theorem reads_negate {d : ℚ} {x : Binary64} (h : Reads d x) : Reads (-d) x.negate := by
  intro y
  have hflip : ∀ z : Binary64, |-d - z.toRat| = |d - z.negate.toRat| := by
    intro z
    rw [Binary64.toRat_negate, ← abs_neg]
    congr 1
    ring
  have hback : ∀ z : Binary64, |-d - z.negate.toRat| = |d - z.toRat| := by
    intro z
    rw [Binary64.toRat_negate, ← abs_neg]
    congr 1
    ring
  rw [hflip y, hback x]
  refine ⟨(h y.negate).1, fun heq => ?_⟩
  rcases (h y.negate).2 heq with hsame | heven
  · left
    rw [Binary64.toRat_negate] at hsame ⊢
    linarith
  · exact Or.inr heven

/-- **A decimal reads as one number.** -/
theorem Reads.unique {d : ℚ} {x y : Binary64} (hx : Reads d x) (hy : Reads d y) :
    x.toRat = y.toRat := by
  -- two nearest numbers have even significands, and what lies between them is nearer
  suffices hlt : ∀ d x y, Reads d x → Reads d y → 0 ≤ y.toRat → ¬ x.toRat < y.toRat by
    rcases lt_trichotomy x.toRat y.toRat with hless | heq | hmore
    · rcases le_or_gt 0 y.toRat with hnonneg | hneg
      · exact absurd hless (hlt d x y hx hy hnonneg)
      · refine absurd ?_ (hlt (-d) y.negate x.negate (reads_negate hy) (reads_negate hx) ?_)
        · rw [Binary64.toRat_negate, Binary64.toRat_negate]
          linarith
        · rw [Binary64.toRat_negate]
          linarith
    · exact heq
    · rcases le_or_gt 0 x.toRat with hnonneg | hneg
      · exact absurd hmore (hlt d y x hy hx hnonneg)
      · refine absurd ?_ (hlt (-d) x.negate y.negate (reads_negate hx) (reads_negate hy) ?_)
        · rw [Binary64.toRat_negate, Binary64.toRat_negate]
          linarith
        · rw [Binary64.toRat_negate]
          linarith
  intro d x y hx hy hnonneg hless
  have hdist : |d - x.toRat| = |d - y.toRat| := le_antisymm (hx y).1 (hy x).1
  have hmid : d - x.toRat = y.toRat - d := by
    rcases abs_eq_abs.mp hdist with h | h
    · linarith
    · linarith
  have hxeven : x.mant % 2 = 0 := by
    rcases (hx y).2 hdist with h | h
    · linarith
    · exact h
  have hyeven : y.mant % 2 = 0 := by
    rcases (hy x).2 hdist.symm with h | h
    · linarith
    · exact h
  obtain ⟨z, hxz, hzy⟩ : ∃ z : Binary64, x.toRat < z.toRat ∧ z.toRat < y.toRat := by
    rcases le_or_gt 0 x.toRat with hx0 | hx0
    · exact exists_between_even hx0 hless hxeven hyeven
    · rcases hnonneg.lt_or_eq with hy0 | hy0
      · obtain ⟨z, -, hz⟩ := exists_binary64 (Nat.zero_le (2 ^ 53))
        rw [Nat.cast_zero] at hz
        exact ⟨z, hz ▸ hx0, hz ▸ hy0⟩
      · obtain ⟨z, hyz, hzx⟩ := exists_between_even (x := y.negate) (y := x.negate)
          (by rw [Binary64.toRat_negate]; linarith)
          (by rw [Binary64.toRat_negate, Binary64.toRat_negate]; linarith) hyeven hxeven
        rw [Binary64.toRat_negate] at hyz hzx
        refine ⟨z.negate, ?_, ?_⟩ <;> rw [Binary64.toRat_negate] <;> linarith
  have hnearer : |d - z.toRat| < |d - x.toRat| := by
    rw [abs_of_pos (show 0 < d - x.toRat by linarith), abs_lt]
    constructor <;> linarith
  exact absurd (hx z).1 (not_le.mpr hnearer)

section

variable {x : Binary64} {digits : Str} {position : Int} {n : Nat}

/-- A whole decimal that reads as a whole number below 2⁵³ is that number. -/
theorem Reads.eq_of_whole {D : Nat} (h : Reads (D : ℚ) x) (hx : x.toRat = n) (hlt : n < 2 ^ 53) :
    D = n := by
  have hbound : D < 2 ^ 53 := by
    by_contra hge
    have hge : 2 ^ 53 ≤ D := not_lt.mp hge
    have hgeq : ((2 : ℚ) ^ 53) ≤ D := by exact_mod_cast hge
    have hltq : (n : ℚ) < 2 ^ 53 := by exact_mod_cast hlt
    obtain ⟨y, -, hy⟩ := exists_binary64 (le_refl (2 ^ 53))
    refine h.not_between ⟨y, hy⟩ ?_
    rw [hx, abs_of_nonneg (by push_cast; linarith), abs_of_nonneg (by linarith)]
    push_cast
    linarith
  obtain ⟨y, -, hy⟩ := exists_binary64 hbound.le
  by_contra hne
  refine h.not_between ⟨y, hy⟩ ?_
  rw [hx, sub_self, abs_zero, abs_pos, sub_ne_zero]
  exact_mod_cast hne

/-- Zeros at the end are not needed, so there are no more digits than without them. -/
theorem IsShortest.length_le (h : IsShortest x digits position) {m z : Nat}
    (hx : x.toRat = ((m * 10 ^ z : Nat) : ℚ)) :
    digits.length ≤ (Nat.toDigits 10 m).length := by
  refine h.minimal (Nat.toDigits 10 m) (((Nat.toDigits 10 m).length + z : Nat) : Int)
    (fun c hc => Nat.isDigit_of_mem_toDigits (by decide) (by decide) hc) (reads_of_eq ?_)
  have hexp : (((Nat.toDigits 10 m).length + z : Nat) : Int) - (Nat.toDigits 10 m).length = z := by
    omega
  rw [decimalValue, Nat.ofDigitChars_ten_toDigits, hexp, hx, zpow_natCast]
  push_cast
  rfl

theorem decimalValue_lt (hdigits : ∀ c ∈ digits, c.isDigit = true) :
    decimalValue digits position < (10 : ℚ) ^ position := by
  have hlt : (Nat.ofDigitChars 10 digits 0 : ℚ) < 10 ^ (digits.length : Int) := by
    rw [zpow_natCast]
    exact_mod_cast ofDigitChars_lt hdigits
  calc decimalValue digits position
      < 10 ^ (digits.length : Int) * (10 : ℚ) ^ (position - digits.length) :=
        mul_lt_mul_of_pos_right hlt (by positivity)
    _ = (10 : ℚ) ^ position := by rw [← zpow_add₀ (by norm_num)]; congr 1; omega

/-- A shortest decimal of a whole number is whole. -/
theorem IsShortest.length_le_position (h : IsShortest x digits position) (hx : x.toRat = n)
    (hpos : 0 < n) (hlt : n < 2 ^ 53) : digits.length ≤ position := by
  obtain ⟨z, m, hm, hn⟩ := Nat.exists_eq_pow_mul_and_not_dvd hpos.ne' 10 (by decide)
  rw [Nat.mul_comm] at hn
  have hmpos : 0 < m := Nat.pos_of_ne_zero fun h0 => hm (h0 ▸ dvd_zero 10)
  have hmn : m ≤ n := hn ▸ Nat.le_mul_of_pos_right m (by positivity)
  have hlen : digits.length ≤ (Nat.toDigits 10 m).length := h.length_le (hn ▸ hx)
  have hd := @decimalValue_lt digits position h.isDigit
  have hnq : (1 : ℚ) ≤ n := by exact_mod_cast hpos
  have hdpos : 0 ≤ decimalValue digits position := by
    rw [decimalValue]
    positivity
  by_contra hshort
  have hshort : position < digits.length := not_le.mp hshort
  rcases lt_or_ge 0 position with hposition | hposition
  · -- The decimal lies below a power of ten that is no larger than the number.
    obtain ⟨p, rfl⟩ := Int.eq_ofNat_of_zero_le hposition.le
    have hpm : 10 ^ p ≤ m := by
      by_contra hgt
      have := (Nat.length_toDigits_le_iff (b := 10) (by decide) (by omega)).mpr (not_le.mp hgt)
      omega
    rcases Nat.lt_or_ge (10 ^ p) n with hless | hmore
    · have hlessq : (10 : ℚ) ^ p < n := by exact_mod_cast hless
      obtain ⟨y, -, hy⟩ := exists_binary64 (le_trans hless.le hlt.le)
      have hd : decimalValue digits p < 10 ^ p := by exact_mod_cast hd
      refine h.reads.not_between ⟨y, hy⟩ ?_
      rw [hx, abs_of_neg (by push_cast; linarith), abs_of_neg (by linarith)]
      push_cast
      linarith
    · have hmp : m = 10 ^ p := le_antisymm (le_trans hmn hmore) hpm
      exact hm (hmp ▸ dvd_pow_self 10 (by omega))
  · have hone : decimalValue digits position < 1 :=
      lt_of_lt_of_le hd (zpow_le_one_of_nonpos₀ (by norm_num) hposition)
    rcases Nat.lt_or_ge 1 n with hbig | hsmall
    · have hbigq : (1 : ℚ) < n := by exact_mod_cast hbig
      obtain ⟨y, -, hy⟩ := @exists_binary64 1 (by decide)
      refine h.reads.not_between ⟨y, hy⟩ ?_
      rw [hx, abs_of_neg (by push_cast; linarith), abs_of_neg (by linarith)]
      push_cast
      linarith
    · -- The number is 1, so there is one digit, and the decimal is at most 0.9.
      have hn1 : n = 1 := by omega
      have hm1 : m = 1 := by omega
      have hlen1 : digits.length = 1 := by
        have hle : digits.length ≤ 1 := by
          rw [hm1] at hlen
          exact hlen
        have hge : 0 < digits.length := List.length_pos_iff.mpr h.ne_nil
        omega
      have hvalue : decimalValue digits position ≤ 9 / 10 := by
        have hnine : (Nat.ofDigitChars 10 digits 0 : ℚ) ≤ 9 := by
          have := ofDigitChars_lt h.isDigit
          rw [hlen1] at this
          exact_mod_cast Nat.lt_succ_iff.mp this
        have hpow : (10 : ℚ) ^ (position - digits.length) ≤ 10 ^ (-1 : Int) :=
          zpow_le_zpow_right₀ (by norm_num) (by omega)
        calc decimalValue digits position
            ≤ 9 * (10 : ℚ) ^ (-1 : Int) := by
              rw [decimalValue]
              exact mul_le_mul hnine hpow (by positivity) (by norm_num)
          _ = 9 / 10 := by norm_num
      refine h.reads.not_between exists_seven_eighths ?_
      rw [hx, hn1, abs_lt]
      rw [abs_of_neg (by push_cast; linarith)]
      push_cast
      constructor <;> linarith

/-- **The shortest decimal of a whole number below 2⁵³** is its numeral without the zeros at the
end. -/
theorem IsShortest.toDigits (h : IsShortest x digits position) (hx : x.toRat = n) (hpos : 0 < n)
    (hlt : n < 2 ^ 53) :
    digits ++ List.replicate (position - digits.length).toNat '0' = Nat.toDigits 10 n := by
  have hle := h.length_le_position hx hpos hlt
  obtain ⟨z, hz⟩ := Int.eq_ofNat_of_zero_le (show 0 ≤ position - digits.length by omega)
  have hwhole : decimalValue digits position = (Nat.ofDigitChars 10 digits 0 * 10 ^ z : Nat) := by
    rw [decimalValue, hz]
    push_cast
    rfl
  have hvalue : Nat.ofDigitChars 10 digits 0 * 10 ^ z = n :=
    Reads.eq_of_whole (hwhole ▸ h.reads) hx hlt
  have hdpos : 0 < Nat.ofDigitChars 10 digits 0 := by
    rcases Nat.eq_zero_or_pos (Nat.ofDigitChars 10 digits 0) with h0 | hp
    · rw [h0, Nat.zero_mul] at hvalue
      omega
    · exact hp
  rw [← hvalue, toDigits_mul_pow hdpos, toDigits_ofDigitChars_zero h.isDigit h.ne_nil h.head, hz]
  rfl

end

/-! ## There is a shortest decimal -/

/-- A positive binary64 number is a whole number over a power of ten. -/
theorem exists_decimal {x : Binary64} (hneg : x.neg = false) :
    ∃ n k : Nat, x.toRat = n * (10 : ℚ) ^ (-(k : Int)) := by
  have hx : x.toRat = x.mant * (2 : ℚ) ^ x.exp := by simp [Binary64.toRat, hneg]
  rcases Int.le_total 0 x.exp with hexp | hexp
  · obtain ⟨k, hk⟩ := Int.eq_ofNat_of_zero_le hexp
    refine ⟨x.mant * 2 ^ k, 0, ?_⟩
    rw [hx, hk]
    push_cast
    simp
  · obtain ⟨k, hk⟩ := Int.eq_ofNat_of_zero_le (Int.neg_nonneg.mpr hexp)
    refine ⟨x.mant * 5 ^ k, k, ?_⟩
    have hk : x.exp = -(k : Int) := by omega
    have hten : (10 : ℚ) ^ k = 2 ^ k * 5 ^ k := by rw [← mul_pow]; norm_num
    rw [hx, hk, zpow_neg, zpow_neg, zpow_natCast, zpow_natCast, hten]
    push_cast
    field_simp

theorem decimalValue_zero_cons (ds : Str) (position : Int) :
    decimalValue ('0' :: ds) position = decimalValue ds (position - 1) := by
  have hexp : position - (('0' :: ds).length : Nat) = position - 1 - ds.length := by
    rw [List.length_cons]
    omega
  rw [decimalValue, decimalValue, Nat.ofDigitChars_cons, hexp]
  rfl

theorem decimalValue_append_zero (ds : Str) (position : Int) :
    decimalValue (ds ++ ['0']) position = decimalValue ds position := by
  have hexp : position - ds.length = position - ((ds ++ ['0']).length : Nat) + 1 := by
    rw [List.length_append, List.length_singleton]
    omega
  rw [decimalValue, decimalValue, Nat.ofDigitChars_append, Nat.ofDigitChars_cons,
    Nat.ofDigitChars_nil, hexp, zpow_add₀ (by norm_num)]
  push_cast
  simp
  ring

/-- Every positive binary64 number has a shortest decimal: of those that read back as it, one
with the fewest digits. -/
theorem exists_isShortest {x : Binary64} (hneg : x.neg = false) (hx : x.mant ≠ 0) :
    ∃ digits position, IsShortest x digits position := by
  have hpos : 0 < x.toRat := by
    have hmant : (0 : ℚ) < x.mant := by exact_mod_cast Nat.pos_of_ne_zero hx
    have hvalue : x.toRat = x.mant * (2 : ℚ) ^ x.exp := by simp [Binary64.toRat, hneg]
    rw [hvalue]
    positivity
  let Spells (len : Nat) : Prop := ∃ ds : Str, ∃ p, ds.length = len ∧ (∀ c ∈ ds, c.isDigit = true)
    ∧ Reads (decimalValue ds p) x
  have hexists : ∃ len, Spells len := by
    obtain ⟨n, k, hn⟩ := exists_decimal hneg
    refine ⟨_, Nat.toDigits 10 n, (Nat.toDigits 10 n).length - k, rfl, ?_, reads_of_eq ?_⟩
    · exact fun c hc => Nat.isDigit_of_mem_toDigits (by decide) (by decide) hc
    · rw [decimalValue, Nat.ofDigitChars_ten_toDigits, hn]
      congr 2
      omega
  classical
  obtain ⟨ds, p, hlen, hdigits, hreads⟩ := Nat.find_spec hexists
  have hminimal : ∀ ds' p', (∀ c ∈ ds', c.isDigit = true) → Reads (decimalValue ds' p') x →
      ds.length ≤ ds'.length := fun ds' p' hdigits' hreads' =>
    hlen ▸ Nat.find_min' hexists ⟨ds', p', rfl, hdigits', hreads'⟩
  refine ⟨ds, p, hdigits, ?_, ?_, ?_, hreads, hminimal⟩
  · rintro rfl
    -- no digits are zero, and zero reads as zero
    have hzero : decimalValue [] p = 0 := by simp [decimalValue]
    obtain ⟨z, -, hz⟩ := exists_binary64 (Nat.zero_le (2 ^ 53))
    refine hreads.not_between ⟨z, hz⟩ ?_
    rw [hzero, zero_sub, zero_sub, abs_neg, abs_neg, abs_of_pos hpos]
    simpa using hpos
  · intro hhead
    obtain ⟨tail, rfl⟩ : ∃ tail, ds = '0' :: tail := by
      cases ds with
      | nil => cases hhead
      | cons c tail => exact ⟨tail, by simpa using hhead⟩
    rw [decimalValue_zero_cons] at hreads
    have := hminimal tail (p - 1) (fun c hc => hdigits c (List.mem_cons_of_mem _ hc)) hreads
    simp at this
  · intro hlast
    obtain ⟨front, rfl⟩ := List.getLast?_eq_some_iff.mp hlast
    rw [decimalValue_append_zero] at hreads
    have := hminimal front p (fun c hc => hdigits c (List.mem_append_left _ hc)) hreads
    simp at this

/-- A platform can print so. -/
instance : Nonempty DecimalFormat := by
  classical
  have hshortest : ∀ x : Binary64, ∃ format : Str × Int,
      x.neg = false → x.mant ≠ 0 → IsShortest x format.1 format.2 := by
    intro x
    by_cases h : x.neg = false ∧ x.mant ≠ 0
    · obtain ⟨digits, position, hformat⟩ := exists_isShortest h.1 h.2
      exact ⟨(digits, position), fun _ _ => hformat⟩
    · exact ⟨([], 0), fun hneg hmant => absurd ⟨hneg, hmant⟩ h⟩
  choose format hformat using hshortest
  exact ⟨{
    ofInt := fun n => if h : ∃ x : Binary64, x.toRat = n then some h.choose else none
    ofInt_exact := fun n x hx =>
      have h : ∃ x : Binary64, x.toRat = n := ⟨x, hx⟩
      ⟨h.choose, dif_pos h, h.choose_spec⟩
    digits := fun x => (format x).1
    position := fun x => (format x).2
    shortest := hformat }⟩

end Ai00
