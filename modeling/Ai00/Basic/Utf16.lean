import Mathlib

/-! # Code points, UTF-16 and UTF-8

A text as UTF-16 code units, as some languages hold it, and as code points, as others do.
`codePoints` joins the surrogate pairs; a surrogate that is not in a pair stays a code point of
its own. `Paired` texts have none, and on them the two views agree: on the bytes of either
encoding and on the order by code units.
-/

namespace Ai00

/-- A text as UTF-16 code units. -/
abbrev Units := List UInt16

/-- A text as code points. -/
abbrev Points := List Nat

def isHighSurrogate (u : UInt16) : Bool := 0xD800 ≤ u.toNat && u.toNat ≤ 0xDBFF

def isLowSurrogate (u : UInt16) : Bool := 0xDC00 ≤ u.toNat && u.toNat ≤ 0xDFFF

def joinPair (u v : UInt16) : Nat :=
  0x10000 + (u.toNat - 0xD800) * 0x400 + (v.toNat - 0xDC00)

def codePoints : Units → Points
  | [] => []
  | [u] => [u.toNat]
  | u :: v :: rest =>
    if isHighSurrogate u && isLowSurrogate v then joinPair u v :: codePoints rest
    else u.toNat :: codePoints (v :: rest)

/-- A code point that is half of a pair. -/
def IsSurrogate (c : Nat) : Prop := 0xD800 ≤ c ∧ c ≤ 0xDFFF

instance : DecidablePred IsSurrogate := fun c =>
  inferInstanceAs (Decidable (0xD800 ≤ c ∧ c ≤ 0xDFFF))

/-! ## Paired texts -/

/-- Every surrogate is in a pair. -/
inductive Paired : Units → Prop where
  | nil : Paired []
  | unit {u : UInt16} {rest : Units} (plain : ¬ IsSurrogate u.toNat) (tail : Paired rest) :
      Paired (u :: rest)
  | pair {u v : UInt16} {rest : Units} (high : isHighSurrogate u = true)
      (low : isLowSurrogate v = true) (tail : Paired rest) : Paired (u :: v :: rest)

variable {u : UInt16}

theorem isHighSurrogate_iff :
    isHighSurrogate u = true ↔ 0xD800 ≤ u.toNat ∧ u.toNat ≤ 0xDBFF := by
  simp [isHighSurrogate]

theorem isLowSurrogate_iff :
    isLowSurrogate u = true ↔ 0xDC00 ≤ u.toNat ∧ u.toNat ≤ 0xDFFF := by
  simp [isLowSurrogate]

theorem not_isHighSurrogate (h : ¬ IsSurrogate u.toNat) :
    isHighSurrogate u = false := by
  cases hhigh : isHighSurrogate u with
  | false => rfl
  | true =>
    obtain ⟨hlo, hhi⟩ := isHighSurrogate_iff.mp hhigh
    exact absurd ⟨hlo, le_trans hhi (by decide)⟩ h

theorem codePoints_unit (h : ¬ IsSurrogate u.toNat) (rest : Units) :
    codePoints (u :: rest) = u.toNat :: codePoints rest := by
  cases rest with
  | nil => rfl
  | cons v rest => simp [codePoints, not_isHighSurrogate h]

theorem codePoints_pair {u v : UInt16} (hu : isHighSurrogate u = true)
    (hv : isLowSurrogate v = true) (rest : Units) :
    codePoints (u :: v :: rest) = joinPair u v :: codePoints rest := by
  simp [codePoints, hu, hv]

theorem not_isSurrogate_joinPair (u v : UInt16) : ¬ IsSurrogate (joinPair u v) := by
  rintro ⟨-, h⟩
  unfold joinPair at h
  omega

/-- The code points of a paired text can be read part by part. -/
theorem Paired.codePoints_append {us : Units} (h : Paired us) (vs : Units) :
    codePoints (us ++ vs) = codePoints us ++ codePoints vs := by
  induction h with
  | nil => rfl
  | unit plain _ ih =>
    rw [List.cons_append, codePoints_unit plain, codePoints_unit plain, ih]
    rfl
  | pair high low _ ih =>
    rw [List.cons_append, List.cons_append, codePoints_pair high low, codePoints_pair high low, ih]
    rfl

theorem Paired.append {us vs : Units} (hu : Paired us) (hv : Paired vs) : Paired (us ++ vs) := by
  induction hu with
  | nil => exact hv
  | unit plain _ ih => exact .unit plain ih
  | pair high low _ ih => exact .pair high low ih

/-- **A text is paired when no surrogate is left among its code points.** -/
theorem paired_iff (us : Units) : Paired us ↔ ∀ c ∈ codePoints us, ¬ IsSurrogate c := by
  constructor
  · intro h
    induction h with
    | nil => exact fun c hc => absurd hc List.not_mem_nil
    | unit plain _ ih =>
      rw [codePoints_unit plain, List.forall_mem_cons]
      exact ⟨plain, ih⟩
    | pair high low _ ih =>
      rw [codePoints_pair high low, List.forall_mem_cons]
      exact ⟨not_isSurrogate_joinPair _ _, ih⟩
  · induction us using codePoints.induct with
    | case1 => exact fun _ => .nil
    | case2 u => exact fun h => .unit (h _ List.mem_cons_self) .nil
    | case3 u v rest hpair ih =>
      obtain ⟨hu, hv⟩ := Bool.and_eq_true_iff.mp hpair
      rw [codePoints_pair hu hv, List.forall_mem_cons]
      exact fun h => .pair hu hv (ih h.2)
    | case4 u v rest hpair ih =>
      rw [codePoints, if_neg hpair, List.forall_mem_cons]
      exact fun h => .unit h.1 (ih h.2)

/-! ## Encodings -/

def utf8Bytes (c : Nat) : List UInt8 :=
  if c < 0x80 then [c.toUInt8]
  else if c < 0x800 then [(0xC0 + c / 0x40).toUInt8, (0x80 + c % 0x40).toUInt8]
  else if c < 0x10000 then
    [(0xE0 + c / 0x1000).toUInt8, (0x80 + c / 0x40 % 0x40).toUInt8, (0x80 + c % 0x40).toUInt8]
  else
    [(0xF0 + c / 0x40000).toUInt8, (0x80 + c / 0x1000 % 0x40).toUInt8,
      (0x80 + c / 0x40 % 0x40).toUInt8, (0x80 + c % 0x40).toUInt8]

def encodeUtf8 (text : Points) : List UInt8 := text.flatMap utf8Bytes

/-- The two bytes of a code unit, the high one first, as numbers. -/
def unitBytes (n : Nat) : List Nat := [n / 0x100, n % 0x100]

/-- The bytes of a code point in big-endian UTF-16, as numbers. -/
def utf16Bytes (c : Nat) : List Nat :=
  if c < 0x10000 then unitBytes c
  else unitBytes (0xD800 + (c - 0x10000) / 0x400) ++ unitBytes (0xDC00 + (c - 0x10000) % 0x400)

def encodeUtf16 (text : Points) : List Nat := text.flatMap utf16Bytes

theorem utf16Bytes_joinPair {u v : UInt16} (hu : isHighSurrogate u = true)
    (hv : isLowSurrogate v = true) :
    utf16Bytes (joinPair u v) = unitBytes u.toNat ++ unitBytes v.toNat := by
  have hu := isHighSurrogate_iff.mp hu
  have hv := isLowSurrogate_iff.mp hv
  have hbig : ¬ joinPair u v < 0x10000 := by
    unfold joinPair
    omega
  have hhigh : 0xD800 + (joinPair u v - 0x10000) / 0x400 = u.toNat := by
    unfold joinPair
    omega
  have hlow : 0xDC00 + (joinPair u v - 0x10000) % 0x400 = v.toNat := by
    unfold joinPair
    omega
  rw [utf16Bytes, if_neg hbig, hhigh, hlow]

theorem Paired.encodeUtf16 {us : Units} (h : Paired us) :
    Ai00.encodeUtf16 (codePoints us) = us.flatMap (fun u => unitBytes u.toNat) := by
  induction h with
  | nil => rfl
  | @unit u rest plain _ ih =>
    have hsmall : u.toNat < 0x10000 := u.toNat_lt
    rw [codePoints_unit plain, Ai00.encodeUtf16, List.flatMap_cons, List.flatMap_cons, ← ih,
      utf16Bytes, if_pos hsmall]
    rfl
  | pair high low _ ih =>
    rw [codePoints_pair high low, Ai00.encodeUtf16, List.flatMap_cons,
      utf16Bytes_joinPair high low, List.flatMap_cons, List.flatMap_cons, ← ih,
      List.append_assoc]
    rfl

/-! ## The order by code units -/

/-- `xs` before `ys` in lexicographic order. -/
abbrev Before (xs ys : List Nat) : Prop := List.Lex (fun m n => m < n) xs ys

/-- **Texts are in order by their bytes when they are in order by their units.** -/
theorem before_unitBytes_iff (us vs : Units) :
    Before (us.flatMap (fun u => unitBytes u.toNat)) (vs.flatMap (fun u => unitBytes u.toNat))
      ↔ Before (us.map UInt16.toNat) (vs.map UInt16.toNat) := by
  induction us generalizing vs with
  | nil =>
    cases vs with
    | nil => rfl
    | cons v vs => exact iff_of_true .nil .nil
  | cons u us ih =>
    cases vs with
    | nil => exact iff_of_false List.not_lex_nil List.not_lex_nil
    | cons v vs =>
      have hbytes : u.toNat < v.toNat ↔ u.toNat / 0x100 < v.toNat / 0x100
          ∨ u.toNat / 0x100 = v.toNat / 0x100 ∧ u.toNat % 0x100 < v.toNat % 0x100 := by omega
      have heq : u.toNat = v.toNat ↔ u.toNat / 0x100 = v.toNat / 0x100
          ∧ u.toNat % 0x100 = v.toNat % 0x100 := by omega
      show Before (u.toNat / 0x100 :: u.toNat % 0x100 :: us.flatMap _)
        (v.toNat / 0x100 :: v.toNat % 0x100 :: vs.flatMap _)
        ↔ Before (u.toNat :: us.map _) (v.toNat :: vs.map _)
      have htail := ih vs
      rw [Before, Before] at htail ⊢
      rw [List.cons_lex_cons_iff, List.cons_lex_cons_iff, List.cons_lex_cons_iff, htail, hbytes, heq]
      tauto

end Ai00
