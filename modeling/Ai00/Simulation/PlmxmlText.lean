import Ai00.Basic.Regex
import Ai00.Basic.Checks

/-! # The texts of a PLMXML document

The functions of `domain/plmxml_projection.py` on attribute values: references, names of BOM lines,
the paths that the viewer writes into application labels, and the numbers of a transform. Digits and
blanks are those of Unicode, as for `\d`, `\s` and `Decimal`.
-/

namespace Ai00.Simulation

/-- What ends a parse: the errors of the module, with their reasons, and what Python itself raises
in its place. -/
inductive PlmxmlError where
  | security (reason : String)
  | limit (reason : String)
  | structure (reason : String)
  | typeError (message : String)
  /-- `decimal.Overflow`. -/
  | overflow
  | indexError
deriving DecidableEq

/-! ## Words and references -/

/-- `s.split()`. -/
def words (s : Str) : List Str := (s.splitOnP isSpace).filter (· ≠ [])

def ref (value : Str) : Str := value.dropWhile (· = '#')

def refs (value : Str) : List Str := (words value).map ref

/-- `_local_name`: the namespace, and the name without it. -/
def localName (name : Str) : Str × Str :=
  if '}' ∈ name then
    ((name.reverse.dropWhile (· ≠ '}')).tail.reverse, (name.reverse.takeWhile (· ≠ '}')).reverse)
  else ([], name)

/-! ## Names and labels -/

/-- The zeros of the decimal digits of Unicode; the other nine digits follow each. -/
def zeros : List ℕ :=
  [0x30, 0x660, 0x6F0, 0x7C0, 0x966, 0x9E6, 0xA66, 0xAE6, 0xB66, 0xBE6, 0xC66, 0xCE6, 0xD66, 0xDE6,
    0xE50, 0xED0, 0xF20, 0x1040, 0x1090, 0x17E0, 0x1810, 0x1946, 0x19D0, 0x1A80, 0x1A90, 0x1B50,
    0x1BB0, 0x1C40, 0x1C50, 0xA620, 0xA8D0, 0xA900, 0xA9D0, 0xA9F0, 0xAA50, 0xABF0, 0xFF10, 0x104A0,
    0x10D30, 0x11066, 0x110F0, 0x11136, 0x111D0, 0x112F0, 0x11450, 0x114D0, 0x11650, 0x116C0,
    0x11730, 0x118E0, 0x11950, 0x11C50, 0x11D50, 0x11DA0, 0x16A60, 0x16AC0, 0x16B50, 0x1D7CE,
    0x1D7D8, 0x1D7E2, 0x1D7EC, 0x1D7F6, 0x1E140, 0x1E2F0, 0x1E950, 0x1FBF0]

/-- `unicodedata.decimal` of a code point, where it is a decimal digit. -/
def decimalDigit (c : Char) : Option ℕ :=
  (zeros.find? fun first => first ≤ c.toNat ∧ c.toNat < first + 10).map fun first => c.toNat - first

/-- `_BOM_LINE`. -/
def bomLinePattern : Regex :=
  .seqs [
    .group 1 (.seqs [
      .many (· ≠ '\n') 1 true, .text "/", .plus fun c => c ≠ '/' ∧ c ≠ ';' ∧ ¬ isSpace c, .text ";",
      .plus fun c => (decimalDigit c).isSome]),
    .alt (.text "-") .dollar]

def bomLine (name : Str) : Str :=
  match bomLinePattern.pyMatch (strip name) with
  | some m => m.group 1
  | none => []

def applicationPayload (label : Str) (function : String) : Str :=
  let before := "#PLMXML(PS_API-doc/".toList ++ function.toList ++ "('".toList
  let after := "'))".toList
  if before.isPrefixOf label ∧ after.isSuffixOf label then
    (label.take (label.length - after.length)).drop before.length
  else []

/-- `s.split("\\0")`: at each backslash that a zero follows. -/
def splitNul : Str → List Str
  | [] => [[]]
  | [c] => [[c]]
  | c :: d :: s =>
    if c = '\\' ∧ d = '0' then [] :: splitNul s
    else
      match splitNul (d :: s) with
      | [] => [[c]]
      | w :: ws => (c :: w) :: ws

def currentStatePath (label : Str) : List Str :=
  let values := (splitNul (applicationPayload label "JT_PROP_NAME")).filter (· ≠ [])
  if values.head?.any fun value => "CHLD".toList.isPrefixOf value then values.tail else values

def cloneStableChain (label : Str) : List Str :=
  let marker := "$$NGID<chain>=\"__PLM_CLONE_STABLE_INST_UID\"".toList
  let values := splitNul (applicationPayload label "NGID")
  let rest := (values.dropWhile (· ≠ marker)).tail
  (rest.takeWhile fun value => ¬ "$$NGID<".toList.isPrefixOf value).filter (· ≠ [])

def itemRevisionFromPath (value : Str) : Str × Str :=
  let pattern : Regex := .seqs [
    .group 1 (.plus (· ≠ '/')), .text "/", .group 2 (.plus (· ≠ ';')), .text ";"]
  match pattern.pyMatch value with
  | some m => (m.group 1, m.group 2)
  | none => ([], [])

/-! ## Numbers -/

/-- A finite `Decimal`: `coefficient * 10 ^ exponent`, with its sign. -/
structure FiniteDecimal where
  neg : Bool
  coefficient : ℕ
  exponent : ℤ

/-- A sign in front of a text, and the text after it. -/
def signed : Str → Bool × Str
  | '-' :: s => (true, s)
  | '+' :: s => (false, s)
  | s => (false, s)

/-- The digits a text starts with, and what follows them. -/
def digits : Str → List ℕ × Str
  | [] => ([], [])
  | c :: s =>
    match decimalDigit c with
    | some d => let (ds, rest) := digits s; (d :: ds, rest)
    | none => ([], c :: s)

/-- The number of some decimal digits. -/
def ofDigits (ds : List ℕ) : ℕ := ds.foldl (fun n d => 10 * n + d) 0

/-- The exponent part of a number; zero where there is none. -/
def exponentPart : Str → Option ℤ
  | [] => some 0
  | c :: s =>
    if c = 'e' ∨ c = 'E' then
      let (neg, s) := signed s
      match digits s with
      | (d :: ds, []) => some (if neg then -(ofDigits (d :: ds) : ℤ) else ofDigits (d :: ds))
      | _ => none
    else none

/-- `Decimal(value)` where it is a finite number. Blanks around the number and underscores anywhere
do not count; a number beyond the bounds of exponents cannot be kept exactly and is refused. -/
def readDecimal (value : Str) : Option FiniteDecimal := do
  let (neg, s) := signed ((strip value).filter (· ≠ '_'))
  let (whole, s) := digits s
  let (fraction, s) :=
    match s with
    | '.' :: s => digits s
    | _ => ([], s)
  guard (whole ++ fraction ≠ [])
  let exponent := (← exponentPart s) - fraction.length
  let coefficient := ofDigits (whole ++ fraction)
  guard (exponent + (Nat.toDigits 10 coefficient).length ≤ 10 ^ 18 ∧ 3 - 2 * 10 ^ 18 ≤ exponent)
  return ⟨neg, coefficient, exponent⟩

/-- `coefficient` without its last `n` digits, rounded half to even. -/
def roundHalfEven (coefficient n : ℕ) : ℕ :=
  let quotient := coefficient / 10 ^ n
  let rest := coefficient % 10 ^ n
  if 10 ^ n < 2 * rest ∨ 2 * rest = 10 ^ n ∧ quotient % 2 = 1 then quotient + 1 else quotient

/-- A number at the precision and the exponents of the default context: 28 digits, exponents of the
first digit from -999999 to 999999. A number too small for them comes to fewer digits, or to zero. -/
def inContext (number : FiniteDecimal) : Except PlmxmlError FiniteDecimal := do
  let length := (Nat.toDigits 10 number.coefficient).length
  require (number.exponent + length ≤ 10 ^ 6) .overflow
  let lowest := max (number.exponent + length - 28) (-1000026)
  if lowest ≤ number.exponent then return number
  let rounded := roundHalfEven number.coefficient (lowest - number.exponent).toNat
  -- a carry into a 29th digit leaves only zeros behind it
  let (coefficient, exponent) :=
    if rounded = 10 ^ 28 then (10 ^ 27, lowest + 1) else (rounded, lowest)
  require (exponent + 28 ≤ 10 ^ 6) .overflow
  return { number with coefficient, exponent }

/-- `format(number.normalize(), "f")` of a nonzero number: its digits around the point, without the
zeros at its end. -/
def plainText (number : FiniteDecimal) : Str :=
  let ds := Nat.toDigits 10 number.coefficient
  let text :=
    if 0 ≤ number.exponent then ds ++ List.replicate number.exponent.toNat '0'
    else
      let places := number.exponent.natAbs
      let padded := List.replicate (places + 1 - ds.length) '0' ++ ds
      let whole := padded.take (padded.length - places)
      let fraction := ((padded.drop (padded.length - places)).reverse.dropWhile (· = '0')).reverse
      if fraction = [] then whole else whole ++ '.' :: fraction
  let shown := if number.coefficient = 0 then ['0'] else text
  if number.neg then '-' :: shown else shown

def normalizeNumber (value : Str) : Except PlmxmlError Str := do
  let number ← found (readDecimal value) (.structure "invalid_transform")
  if number.coefficient = 0 then return ['0']
  return plainText (← inContext number)

end Ai00.Simulation
