import Ai00.Json.Text

/-! # A platform that computes

`Platform.reference` meets every assumption of `Platform` with functions that evaluate, so the
assumptions are consistent and the model can be run. It behaves as Python does on ASCII text
without floats. Its digest is the data itself as text, which has no collisions; bytes that JSON
escapes are written so that a digest inside a document is not escaped again.
-/

namespace Ai00

open Json

def Binary64.code (x : Binary64) : Nat :=
  Nat.pair (if x.neg then 1 else 0) (Nat.pair x.mant (x.exp + 1074).toNat)

theorem Binary64.code_injective : Function.Injective Binary64.code := by
  intro x y h
  obtain ⟨hneg, hrest⟩ := Nat.pair_eq_pair.mp h
  obtain ⟨hmant, hexp⟩ := Nat.pair_eq_pair.mp hrest
  have hx := x.canonical.2.1
  have hy := y.canonical.2.1
  obtain ⟨nx, mx, ex, cx⟩ := x
  obtain ⟨ny, my, ey, cy⟩ := y
  have he : ex = ey := by
    simp only at hexp hx hy
    omega
  have hn : nx = ny := by
    cases nx <;> cases ny <;> simp_all
  simp only at hmant
  subst hn he hmant
  rfl

/-- A float as the digits of its code and a point. -/
def referenceRepr (x : Binary64) : Str := intText x.code ++ ['.']

/-- Bytes that stand for themselves: printable ASCII without the quote, the backslash and the
escape character. -/
def isPlainByte (b : UInt8) : Bool := 35 ≤ b && b < 127 && b != 92 || b == 32

/-- A byte as text: itself, or `!` and two hexadecimal digits. -/
def byteText (b : UInt8) : Str :=
  if isPlainByte b then [Char.ofNat b.toNat]
  else ['!', hexDigit (b.toNat / 16), hexDigit (b.toNat % 16)]

/-- The first byte of a text, and what follows it. -/
def readByte : Str → Nat × Str
  | '!' :: h :: l :: s => (16 * hexValue h + hexValue l, s)
  | c :: s => (c.toNat, s)
  | [] => (0, [])

theorem isPlainByte_range {b : UInt8} (h : isPlainByte b = true) :
    32 ≤ b.toNat ∧ b.toNat < 127 ∧ b.toNat ≠ 33 := by
  simp only [isPlainByte, Bool.or_eq_true, Bool.and_eq_true, decide_eq_true_eq, bne_iff_ne,
    beq_iff_eq, UInt8.le_iff_toNat_le, UInt8.lt_iff_toNat_lt, ← UInt8.toNat_inj, ne_eq] at h
  have h35 : (35 : UInt8).toNat = 35 := rfl
  have h32 : (32 : UInt8).toNat = 32 := rfl
  have h127 : (127 : UInt8).toNat = 127 := rfl
  omega

theorem toNat_ofNat_of_lt {n : Nat} (h : n < 128) : (Char.ofNat n).toNat = n := by
  have hvalid : n.isValidChar := Or.inl (by omega)
  rw [Char.ofNat, dif_pos hvalid]
  rfl

theorem readByte_byteText (b : UInt8) (s : Str) : readByte (byteText b ++ s) = (b.toNat, s) := by
  have hlt := b.toNat_lt
  unfold byteText
  split_ifs with hplain
  · have hrange := isPlainByte_range hplain
    have hnat := toNat_ofNat_of_lt (n := b.toNat) (by omega)
    have hne : Char.ofNat b.toNat ≠ '!' := by
      intro h
      rw [h] at hnat
      exact hrange.2.2 hnat.symm
    show readByte (Char.ofNat b.toNat :: s) = _
    unfold readByte
    split
    · rename_i heq
      exact absurd (List.cons.inj heq).1 hne
    · rename_i heq
      obtain ⟨rfl, rfl⟩ := List.cons.inj heq
      rw [hnat]
    · rename_i heq
      cases heq
  · show (16 * hexValue (hexDigit (b.toNat / 16)) + hexValue (hexDigit (b.toNat % 16)), s) = _
    rw [hexValue_hexDigit _ (by omega), hexValue_hexDigit _ (by omega)]
    congr 1
    omega

theorem byteText_ne_nil (b : UInt8) : byteText b ≠ [] := by
  unfold byteText
  split_ifs <;> simp

theorem byteText_ascii (b : UInt8) : ∀ c ∈ byteText b, c.toNat < 128 := by
  have hdigit : ∀ n, n < 16 → (hexDigit n).toNat < 128 := by decide
  have hlt := b.toNat_lt
  intro c hc
  unfold byteText at hc
  split_ifs at hc with hplain
  · have hrange := isPlainByte_range hplain
    rw [List.mem_singleton.mp hc, toNat_ofNat_of_lt (by omega)]
    omega
  · rcases List.mem_cons.mp hc with rfl | hc
    · decide
    · rcases List.mem_cons.mp hc with rfl | hc
      · exact hdigit _ (by omega)
      · rw [List.mem_singleton.mp hc]
        exact hdigit _ (by omega)

theorem flatMap_byteText_injective : Function.Injective (fun bs : List UInt8 => bs.flatMap byteText) := by
  intro bs
  induction bs with
  | nil =>
    intro cs h
    cases cs with
    | nil => rfl
    | cons c cs => exact absurd (List.append_eq_nil_iff.mp h.symm).1 (byteText_ne_nil c)
  | cons b bs ih =>
    intro cs h
    cases cs with
    | nil => exact absurd (List.append_eq_nil_iff.mp h).1 (byteText_ne_nil b)
    | cons c cs =>
      simp only [List.flatMap_cons] at h
      have hread := congrArg readByte h
      rw [readByte_byteText, readByte_byteText, Prod.mk.injEq] at hread
      rw [UInt8.toNat_inj.mp hread.1, ih hread.2]

def Platform.reference : Platform where
  nfc := id
  nfc_nfc _ := rfl
  nfc_ascii _ _ := rfl
  floatRepr := referenceRepr
  floatRepr_injective := by
    intro x y h
    have hcode := intText_injective (List.append_cancel_right h)
    exact Binary64.code_injective (Int.ofNat.inj hcode)
  floatRepr_chars := by
    intro x c hc
    rcases List.mem_append.mp hc with hc | hc
    · rcases intText_chars _ c hc with hd | rfl
      · exact isNumChar_of_isDigit hd
      · rfl
    · rw [List.mem_singleton.mp hc]
      rfl
  floatRepr_head := by
    intro x
    obtain ⟨c, s, hcs⟩ := List.exists_cons_of_ne_nil (intText_ne_nil x.code)
    have hmem : c ∈ intText x.code := by
      rw [hcs]
      exact List.mem_cons_self
    refine ⟨c, s ++ ['.'], ?_, intText_chars x.code c hmem⟩
    rw [referenceRepr, hcs]
    rfl
  floatRepr_mark x := Or.inl (List.mem_append.mpr (Or.inr (List.mem_singleton.mpr rfl)))
  digest _ bytes := bytes.flatMap byteText
  digest_injective _ := flatMap_byteText_injective
  digest_ascii _ bytes := by
    intro c hc
    obtain ⟨b, -, hb⟩ := List.mem_flatMap.mp hc
    exact byteText_ascii b c hb

end Ai00
