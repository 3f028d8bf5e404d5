import Ai00.Basic.Python

/-! # Base64

The URL-safe alphabet, three bytes in four characters, without the `=` at the end. What `encode` writes
`decode` reads back (`decode_encode`).
-/

namespace Ai00.Base64

/-! ## The alphabet -/

/-- The character of six bits. -/
def symbol (n : ℕ) : Char :=
  if n < 26 then Char.ofNat (65 + n)
  else if n < 52 then Char.ofNat (71 + n)
  else if n < 62 then Char.ofNat (n - 4)
  else if n = 62 then '-' else '_'

def symbolValue (c : Char) : Option ℕ :=
  if 65 ≤ c.toNat ∧ c.toNat ≤ 90 then some (c.toNat - 65)
  else if 97 ≤ c.toNat ∧ c.toNat ≤ 122 then some (c.toNat - 71)
  else if 48 ≤ c.toNat ∧ c.toNat ≤ 57 then some (c.toNat + 4)
  else if c = '-' then some 62 else if c = '_' then some 63 else none

theorem symbolValue_symbol : ∀ {n : ℕ}, n < 64 → symbolValue (symbol n) = some n := by decide

/-! ## Bytes -/

/-- `base64.urlsafe_b64encode(raw).rstrip("=")`. -/
def encode : List UInt8 → Str
  | a :: b :: c :: rest =>
    symbol (a.toNat / 4) :: symbol (a.toNat % 4 * 16 + b.toNat / 16)
      :: symbol (b.toNat % 16 * 4 + c.toNat / 64) :: symbol (c.toNat % 64) :: encode rest
  | [a, b] => [symbol (a.toNat / 4), symbol (a.toNat % 4 * 16 + b.toNat / 16), symbol (b.toNat % 16 * 4)]
  | [a] => [symbol (a.toNat / 4), symbol (a.toNat % 4 * 16)]
  | [] => []

/-- `base64.b64decode(padded, altchars=b"-_", validate=True)`, with as many `=` as are missing. -/
def decode : Str → Option (List UInt8)
  | p :: q :: r :: s :: rest => do
    let (p, q, r, s) := (← symbolValue p, ← symbolValue q, ← symbolValue r, ← symbolValue s)
    return (p * 4 + q / 16).toUInt8 :: (q % 16 * 16 + r / 4).toUInt8 :: (r % 4 * 64 + s).toUInt8
      :: (← decode rest)
  | [p, q, r] => do
    let (p, q, r) := (← symbolValue p, ← symbolValue q, ← symbolValue r)
    return [(p * 4 + q / 16).toUInt8, (q % 16 * 16 + r / 4).toUInt8]
  | [p, q] => do
    let (p, q) := (← symbolValue p, ← symbolValue q)
    return [(p * 4 + q / 16).toUInt8]
  | [_] => none
  | [] => some []

theorem toUInt8_eq {n : ℕ} {a : UInt8} (h : n = a.toNat) : n.toUInt8 = a := by
  rw [h]
  exact UInt8.ofNat_toNat

/-- **What is encoded is read back.** -/
theorem decode_encode (raw : List UInt8) : decode (encode raw) = some raw := by
  induction raw using encode.induct with
  | case1 a b c rest ih =>
    have ha := a.toNat_lt
    have hb := b.toNat_lt
    have hc := c.toNat_lt
    simp only [encode, decode, symbolValue_symbol (show a.toNat / 4 < 64 by omega),
      symbolValue_symbol (show a.toNat % 4 * 16 + b.toNat / 16 < 64 by omega),
      symbolValue_symbol (show b.toNat % 16 * 4 + c.toNat / 64 < 64 by omega),
      symbolValue_symbol (show c.toNat % 64 < 64 by omega), ih, Option.bind_eq_bind, Option.bind_some]
    rw [toUInt8_eq (a := a) (by omega), toUInt8_eq (a := b) (by omega), toUInt8_eq (a := c) (by omega)]
    rfl
  | case2 a b =>
    have ha := a.toNat_lt
    have hb := b.toNat_lt
    simp only [encode, decode, symbolValue_symbol (show a.toNat / 4 < 64 by omega),
      symbolValue_symbol (show a.toNat % 4 * 16 + b.toNat / 16 < 64 by omega),
      symbolValue_symbol (show b.toNat % 16 * 4 < 64 by omega), Option.bind_eq_bind, Option.bind_some]
    rw [toUInt8_eq (a := a) (by omega), toUInt8_eq (a := b) (by omega)]
    rfl
  | case3 a =>
    have ha := a.toNat_lt
    simp only [encode, decode, symbolValue_symbol (show a.toNat / 4 < 64 by omega),
      symbolValue_symbol (show a.toNat % 4 * 16 < 64 by omega), Option.bind_eq_bind, Option.bind_some]
    rw [toUInt8_eq (a := a) (by omega)]
    rfl
  | case4 => rfl

end Ai00.Base64
