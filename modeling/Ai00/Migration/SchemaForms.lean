import Ai00.Basic.Regex
import Ai00.Json.Value
import Ai00.Migration.SchemaModel

/-! # Normal forms of schema texts

A schema is written in SQL and read back from a database, which reports types, defaults and expressions in a way
of its own. `capability_v2/schema_diff.py` compares normal forms of the two: `_type`, `_default`, `_extra`,
`_expression` and `_expected_index`.
-/

namespace Ai00.Migration

open Regex

/-- `str.upper`. -/
def upper (s : Str) : Str := s.map Char.toUpper

/-- A character, as a pattern. -/
def char (c : Char) : Regex := .one fun x => x = c

/-! ## Types -/

/-- `_uppercase_type_syntax`: upper case outside quotes. -/
def uppercaseTypeSyntax : Option Char → Str → Str
  | _, [] => []
  | none, c :: rest => c.toUpper :: uppercaseTypeSyntax (if c = '\'' ∨ c = '"' then some c else none) rest
  | some _, [c] => [c]
  | some quote, c :: d :: rest =>
    if c = '\\' ∨ c = quote ∧ d = quote then c :: d :: uppercaseTypeSyntax (some quote) rest
    else c :: uppercaseTypeSyntax (if c = quote then none else some quote) (d :: rest)

section

variable (alphabet : Alphabet)

/-- `^INTEGER\b`. -/
def integerWord : Regex := seqs [start, text "INTEGER", alphabet.boundary]

/-- `^(TINYINT|SMALLINT|MEDIUMINT|INT|BIGINT)\(\d+\)`. -/
def displayWidth : Regex :=
  seqs [start, .group 1 (alts [text "TINYINT", text "SMALLINT", text "MEDIUMINT", text "INT", text "BIGINT"]),
    char '(', plus Char.isDigit, char ')']

/-- `_type`. -/
def normalType (value : Str) : Str :=
  let result := uppercaseTypeSyntax none (sub (plus isSpace) (fun _ => [' ']) (strip value))
  let result := sub (integerWord alphabet) (fun _ => "INT".toList) result
  let result := sub displayWidth (·.group 1) result
  if result = "BOOLEAN".toList then "TINYINT".toList else result

end

/-! ## Defaults -/

/-- A text in parentheses. -/
def Parenthesized (s : Str) : Prop := s.head? = some '(' ∧ s.getLast? = some ')'

instance (s : Str) : Decidable (Parenthesized s) := inferInstanceAs (Decidable (_ ∧ _))

/-- `s[1:-1]`. -/
def inside (s : Str) : Str := s.tail.dropLast

/-- `while result.startswith("(") and result.endswith(")")`, with as many rounds as there are characters. -/
def outOfParentheses : ℕ → Str → Str
  | 0, s => s
  | n + 1, s => if Parenthesized s then outOfParentheses n (strip (inside s)) else s

def Quoted (s : Str) : Prop := 2 ≤ s.length ∧ s.head? = s.getLast? ∧ (s.head? = some '\'' ∨ s.head? = some '"')

instance (s : Str) : Decidable (Quoted s) := inferInstanceAs (Decidable (_ ∧ _))

def outOfQuotes (s : Str) : Str := if Quoted s then inside s else s

/-- `CURRENT_TIMESTAMP`, without its case. -/
def timestampWord : Str :=
  ['c', 'u', 'r', 'r', 'e', 'n', 't', '_', 't', 'i', 'm', 'e', 's', 't', 'a', 'm', 'p']

/-- `CURRENT_TIMESTAMP(?:\(\d+\))?`, in any letter case. -/
def isTimestamp (s : Str) : Bool :=
  (s.take 17).map foldCase == timestampWord
    && (s.drop 17 == [] || (decide (Parenthesized (s.drop 17)) && inside (s.drop 17) != []
      && (inside (s.drop 17)).all Char.isDigit))

/-- `re.sub(r"^CURRENT_TIMESTAMP(?:\(\d+\))?$", "CURRENT_TIMESTAMP", …)`; `$` is also before a last line feed. -/
def timestampForm (s : Str) : Str :=
  if isTimestamp s then upper timestampWord
  else if s.getLast? = some '\n' ∧ isTimestamp s.dropLast then upper timestampWord ++ ['\n']
  else s

/-- `Decimal`: a sign, the digits and the exponent of the last one, or a word for no finite number. -/
inductive DecimalText where
  | finite (negative : Bool) (digits : Str) (exponent : ℤ)
  | special (negative : Bool) (word : Str)

/-- The sign of a number, and what is behind it. -/
def signOf : Str → Bool × Str
  | '-' :: rest => (true, rest)
  | '+' :: rest => (false, rest)
  | rest => (false, rest)

/-- `Decimal(text)`. -/
def decimal? (s : Str) : Option DecimalText :=
  let (negative, rest) := signOf ((strip s).filter (· ≠ '_'))
  let lower := rest.map Char.toLower
  let whole := rest.takeWhile Char.isDigit
  let rest := rest.dropWhile Char.isDigit
  let fraction := if rest.head? = some '.' then rest.tail.takeWhile Char.isDigit else []
  let rest := if rest.head? = some '.' then rest.tail.dropWhile Char.isDigit else rest
  let payload := fun word : Str => word.isPrefixOf lower && (lower.drop word.length).all Char.isDigit
  if lower = "inf".toList ∨ lower = "infinity".toList then some (.special negative "Infinity".toList)
  else if payload "nan".toList then some (.special negative ("NaN".toList ++ lower.drop 3))
  else if payload "snan".toList then some (.special negative ("sNaN".toList ++ lower.drop 4))
  else if whole ++ fraction = [] then none
  else
    let number := fun exponent : ℤ => some (DecimalText.finite negative (whole ++ fraction) (exponent - fraction.length))
    match rest with
    | [] => number 0
    | e :: rest =>
      let (down, digits) := signOf rest
      if e.toLower = 'e' ∧ digits ≠ [] ∧ digits.all Char.isDigit then
        let size := (Nat.ofDigitChars 10 digits 0 : ℤ)
        number (if down then -size else size)
      else none

/-- `format(number, "f")`. -/
def DecimalText.fixed : DecimalText → Str
  | .special negative word => (if negative then ['-'] else []) ++ word
  | .finite negative digits exponent =>
    let digits := Nat.toDigits 10 (Nat.ofDigitChars 10 digits 0)
    let text :=
      if 0 ≤ exponent then if digits = ['0'] then digits else digits ++ List.replicate exponent.toNat '0'
      else
        let places := (-exponent).toNat
        let padded := List.replicate (places + 1 - digits.length) '0' ++ digits
        padded.take (padded.length - places) ++ '.' :: padded.drop (padded.length - places)
    (if negative then ['-'] else []) ++ text

/-- `text.rstrip(c)`. -/
def rstripChar (c : Char) (s : Str) : Str := (s.reverse.dropWhile (· = c)).reverse

/-- A number without zeros at its end. -/
def decimalForm (s : Str) : Str :=
  match decimal? s with
  | none => s
  | some number =>
    if '.' ∈ number.fixed then
      let stripped := rstripChar '.' (rstripChar '0' number.fixed)
      if stripped = [] then ['0'] else stripped
    else number.fixed

section

variable (alphabet : Alphabet)

/-- What the type makes of a default. -/
def typedForm (dataType : Str) (s : Str) : Str :=
  let normalized := normalType alphabet dataType
  let s :=
    if normalized = "BOOLEAN".toList ∨ normalized = "TINYINT".toList then
      if upper s = "FALSE".toList then ['0'] else if upper s = "TRUE".toList then ['1'] else s
    else s
  if ["DECIMAL".toList, "NUMERIC".toList, "FLOAT".toList, "DOUBLE".toList].any (·.isPrefixOf normalized) then
    decimalForm s
  else s

/-- `_default`. -/
def normalDefault (value : Option Str) (dataType : Str) : Option Str :=
  match value with
  | none => none
  | some value =>
    let result := strip value
    if upper result = "NULL".toList then none
    else some (typedForm alphabet dataType (timestampForm (outOfQuotes (outOfParentheses result.length result))))

/-- `\b(UUID|RAND|NOW)\s*\(`. -/
def volatileCall : Regex :=
  seqs [alphabet.boundary, alts [textI "uuid", textI "rand", textI "now"], star isSpace, char '(']

/-- `_safe_default`. -/
def safeDefault (column : ColumnSpec) : Bool :=
  match column.default with
  | none => false
  | some default =>
    let value := (normalDefault alphabet (some default) []).getD []
    (search (volatileCall alphabet) value).isNone && (search (textI "generated") column.extra).isNone

/-- `_extra`. -/
def normalExtra (value : Str) : Str :=
  strip (sub (seqs [alphabet.boundary, text "DEFAULT_GENERATED", alphabet.boundary]) (fun _ => []) (upper value))

end

/-! ## Expressions -/

/-- The rest of a text in quotes, up to the quote that ends it: a quote in it is written twice, and with
`escapes` a backslash takes a character with it. The ways to read on come first, as in a backtracking matcher. -/
def closing (quote : Char) (escapes : Bool) : Str → Option (Str × Str)
  | [] => none
  | [c] => if c = quote then some ([c], []) else none
  | c :: d :: rest =>
    let two := fun _ : Unit => (closing quote escapes rest).map fun (t, r) => (c :: d :: t, r)
    (if c = quote ∧ d = quote then two () else none)
      <|> (if escapes = true ∧ c = '\\' ∧ d ≠ '\n' then two () else none)
      <|> (if c ≠ quote then (closing quote escapes (d :: rest)).map fun (t, r) => (c :: t, r)
        else some ([c], d :: rest))

def isIdentifierStart (c : Char) : Bool := decide (('a' ≤ c ∧ c ≤ 'z') ∨ ('A' ≤ c ∧ c ≤ 'Z') ∨ c = '_')

def isIdentifierPart (c : Char) : Bool := isIdentifierStart c || c.isDigit || c == '$'

/-- `\d+(?:\.\d+)?`. -/
def numberToken (s : Str) : Str × Str :=
  let (whole, rest) := s.span Char.isDigit
  match rest with
  | '.' :: d :: more =>
    if d.isDigit then (whole ++ '.' :: (d :: more).takeWhile Char.isDigit, (d :: more).dropWhile Char.isDigit)
    else (whole, rest)
  | _ => (whole, rest)

def nextToken : Str → Option (Str × Str)
  | [] => none
  | c :: rest =>
    let quoted := fun escapes => (closing c escapes rest).map fun (t, r) => (c :: t, r)
    let two := if [['<', '>'], ['!', '='], ['<', '='], ['>', '=']].contains (c :: rest.take 1) then
      some (c :: rest.take 1, rest.drop 1) else none
    (if c = '\'' ∨ c = '"' then quoted true else none)
      <|> (if c = '`' then quoted false else none)
      <|> (if isIdentifierStart c then some ((c :: rest).span isIdentifierPart) else none)
      <|> (if c.isDigit then some (numberToken (c :: rest)) else none)
      <|> two
      <|> (if isSpace c then none else some ([c], rest))

/-- `re.findall`; there are no more tokens than characters. -/
def tokensIn : ℕ → Str → List Str
  | 0, _ => []
  | n + 1, s =>
    match nextToken s with
    | some (token, rest) => token :: tokensIn n rest
    | none => tokensIn n s.tail

/-- A token as it is compared: a text as it is, a name in lower case and without its backticks. -/
def tokenForm (token : Str) : Str :=
  if token.head? = some '\'' ∨ token.head? = some '"' then token
  else (((token.dropWhile (· = '`')).reverse.dropWhile (· = '`')).reverse).map Char.toLower

/-- The positions outside parentheses; one in them closes at its last. -/
def topFrom : ℤ → ℕ → List Str → List ℕ
  | _, _, [] => []
  | depth, index, token :: items =>
    let depth := if token = ['('] then depth + 1 else if token = [')'] then depth - 1 else depth
    if depth = 0 then index :: topFrom depth (index + 1) items else topFrom depth (index + 1) items

/-- `items[a:b]`. -/
def slice (items : List Str) (a b : ℕ) : List Str := (items.drop a).take (b - a)

def itemsBetween (items : List Str) (positions : List ℕ) : List (List Str) :=
  ((0 :: positions.map (· + 1)).zip (positions ++ [items.length])).map fun (a, b) => slice items a b

def comparisonOperators : List Str :=
  [['='], ['<', '>'], ['!', '='], ['<', '='], ['>', '='], ['<'], ['>'], ['i', 's']]

def orWord : Str := ['o', 'r']

def andWord : Str := ['a', 'n', 'd']

def tuple (word : Str) (items : List Json) : Json := .arr (.str word :: items)

/-- `("syntax", *items)`. -/
def syntaxForm (items : List Str) : Json := tuple "syntax".toList (items.map .str)

def flattened (operator : Str) (operand : Json) : List Json :=
  match operand with
  | .arr (.str word :: parts) => if word = operator then parts else [operand]
  | _ => [operand]

/-- `normalize`. Every part is shorter than the whole, so that as many rounds as there are tokens are enough. -/
def normalizeTokens : ℕ → List Str → Json
  | 0, _ => .arr []
  | n + 1, items =>
    let size := items.length
    let top := topFrom 0 0 items
    let at? := fun (word : Str) (index : ℕ) => items[index]? == some word
    let calls := fun (_ : Unit) =>
      if 2 < size ∧ at? ['('] 1 ∧ top = [0, size - 1] then
        let arguments := slice items 2 (size - 1)
        let commas := (topFrom 0 0 arguments).filter fun index => arguments[index]? == some [',']
        tuple "call".toList (.str (items.headD []) :: (itemsBetween arguments commas).map (normalizeTokens n))
      else syntaxForm items
    let operators := fun (_ : Unit) =>
      if (top.all fun index => !at? orWord index && !at? andWord index)
          ∧ 1 < top.countP (fun index => comparisonOperators.any (at? · index)) then syntaxForm items
      else
        match (orWord :: andWord :: comparisonOperators ++ [['a', 's']]).find? fun word => top.any (at? word) with
        | some operator =>
          let operands := (itemsBetween items (top.filter (at? operator))).map (normalizeTokens n)
          tuple operator
            (if operator = andWord ∨ operator = orWord then operands.flatMap (flattened operator) else operands)
        | none => calls ()
    if items = [] then .arr []
    else if at? ['('] 0 ∧ top = [size - 1] then normalizeTokens n (slice items 1 (size - 1))
    else if items.take 2 = ["case".toList, "when".toList] ∧ items.getLast? = some "end".toList then
      match top.find? (at? "then".toList), top.find? (at? "else".toList) with
      | some thenAt, some elseAt =>
        tuple "case".toList ([slice items 2 thenAt, slice items (thenAt + 1) elseAt,
          slice items (elseAt + 1) (size - 1)].map (normalizeTokens n))
      | _, _ => operators ()
    else operators ()

/-- `_expression`. -/
def normalExpression (value : Option Str) : Json :=
  let value := value.getD []
  let tokens := (tokensIn value.length value).map tokenForm
  normalizeTokens tokens.length tokens

/-! ## Indexes -/

/-- `([^()]+)\((\d+)\)`. -/
def prefixedColumn : Regex :=
  seqs [.group 1 (plus fun c => c ≠ '(' ∧ c ≠ ')'), char '(', .group 2 (plus Char.isDigit), char ')']

/-- A column of an index, and the length of its part that the index is on. -/
def indexPart (value : Str) : Str × Option ℕ :=
  match fullmatch prefixedColumn value with
  | some found => (found.group 1, some (Nat.ofDigitChars 10 (found.group 2) 0))
  | none => (value, none)

/-- `_expected_index`. -/
def expectedIndex (index : IndexSpec) : List Str × List (Option ℕ) :=
  (index.columns.map fun value => (indexPart value).1.filter (· ≠ '`'), index.columns.map fun value => (indexPart value).2)

end Ai00.Migration
