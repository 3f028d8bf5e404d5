import Ai00.Plugin.Lifecycle

/-! # Compatibility ranges

`plugin_platform/compatibility.py`: a range is a list of clauses, each an operator and a version of
three numbers, and a version satisfies the range where it satisfies every clause. Versions are
compared as triples, what follows the third number of the version at hand being left aside.
-/

namespace Ai00.Plugin.Compatibility

structure Version where
  major : Nat
  minor : Nat
  patch : Nat
  deriving DecidableEq

/-- The order of the triples. -/
def Version.below (v w : Version) : Bool :=
  decide (v.major < w.major) ||
    (v.major == w.major && (decide (v.minor < w.minor) ||
      (v.minor == w.minor && decide (v.patch < w.patch))))

/-- `int` of a run of digits. -/
def decimal (s : Str) : Nat := s.foldl (fun n c => 10 * n + (c.toNat - '0'.toNat)) 0

/-- `\d+` and what follows it. -/
def digits (s : Str) : Option (Nat × Str) :=
  match s.takeWhile Char.isDigit with
  | [] => none
  | ds => some (decimal ds, s.dropWhile Char.isDigit)

/-- `\.` and what follows it. -/
def dot : Str → Option Str
  | '.' :: s => some s
  | _ => none

/-- `(\d+)\.(\d+)\.(\d+)` and what follows it. -/
def triple (s : Str) : Option (Version × Str) := do
  let (major, s) ← digits s
  let (minor, s) ← digits (← dot s)
  let (patch, s) ← digits (← dot s)
  return (⟨major, minor, patch⟩, s)

def version (value : Str) : Except Error Version := do
  let (v, _) ← found (triple value) (.compatibility ("invalid SemVer: ".toList ++ value))
  .ok v

/-- `str.split()`. -/
def words (s : Str) : List Str :=
  ((s.foldr (fun c (ws : List Str) =>
    if isSpace c then [] :: ws else (c :: ws.headD []) :: ws.tail) [[]]).filter (· ≠ []))

inductive Operator where
  | ge
  | le
  | gt
  | lt
  | eq
  | caret
  | tilde
  deriving DecidableEq

/-- `(>=|<=|>|<|=|\^|~)?` and what follows it. -/
def operator : Str → Operator × Str
  | '>' :: '=' :: s => (.ge, s)
  | '<' :: '=' :: s => (.le, s)
  | '>' :: s => (.gt, s)
  | '<' :: s => (.lt, s)
  | '=' :: s => (.eq, s)
  | '^' :: s => (.caret, s)
  | '~' :: s => (.tilde, s)
  | s => (.eq, s)

def clause (s : Str) : Except Error (Operator × Version) :=
  match triple (operator s).2 with
  | some (wanted, []) => .ok ((operator s).1, wanted)
  | _ => .error (.compatibility ("unsupported compatibility clause: ".toList ++ s))

def Operator.meets (current wanted : Version) : Operator → Bool
  | .ge => !current.below wanted
  | .le => !wanted.below current
  | .gt => wanted.below current
  | .lt => current.below wanted
  | .eq => current == wanted
  | .caret => !current.below wanted && current.below ⟨wanted.major + 1, 0, 0⟩
  | .tilde => !current.below wanted && current.below ⟨wanted.major, wanted.minor + 1, 0⟩

/-- The clauses in their order, up to the first that is not met. -/
def meetsAll (current : Version) : List Str → Except Error Bool
  | [] => .ok true
  | s :: rest => do
    let (op, wanted) ← clause s
    if op.meets current wanted then meetsAll current rest else .ok false

def satisfies (value expression : Str) : Except Error Bool := do
  let current ← version value
  require (words expression ≠ []) (.compatibility "empty compatibility range".toList)
  meetsAll current (words expression)

example : satisfies "1.4.0-rc".toList ">=1.2.0 ^1.0.0".toList = .ok true := by decide +kernel

end Ai00.Plugin.Compatibility
