import Ai00.Basic.Utf16
import Ai00.Connector.CanonicalNumbers

/-! # Canonical JSON in two languages

`canonicalize_v2` of `contracts/connector_execution_plan_v2.py` and `CanonicalJsonV2.Serialize`
of the local runtime. A JSON value is given with its strings as UTF-16 code units, as the runtime
holds them; the server sees the same value with its strings as code points. What the two
platforms do alike is a parameter: the shortest digits of a binary64 number and their position.
-/

namespace Ai00.Connector

/-! ## JSON values -/

/-- JSON values with strings of type `S`. A number literal is whole, or it has a fraction or an
exponent and reads as a float. -/
inductive Wire (S : Type) where
  | null
  | bool (b : Bool)
  | int (n : Int)
  | double (x : PyFloat)
  | str (s : S)
  | arr (items : List (Wire S))
  | obj (members : List (S × Wire S))

namespace Wire

/-- Induction over a value, with the hypothesis for every item and every member. -/
theorem ind {S : Type} {P : Wire S → Prop} (null : P .null) (bool : ∀ b, P (.bool b))
    (int : ∀ n, P (.int n)) (double : ∀ x, P (.double x)) (str : ∀ s, P (.str s))
    (arr : ∀ xs : List (Wire S), (∀ x ∈ xs, P x) → P (.arr xs))
    (obj : ∀ ms : List (S × Wire S), (∀ m ∈ ms, P m.2) → P (.obj ms)) (v : Wire S) : P v := by
  refine @Wire.rec S P (fun xs => ∀ x ∈ xs, P x) (fun ms => ∀ m ∈ ms, P m.2) (fun m => P m.2)
    null bool int double str arr obj ?_ ?_ ?_ ?_ ?_ v
  · exact fun x hx => absurd hx List.not_mem_nil
  · exact fun x xs hx hxs => List.forall_mem_cons.mpr ⟨hx, hxs⟩
  · exact fun m hm => absurd hm List.not_mem_nil
  · exact fun m ms hm hms => List.forall_mem_cons.mpr ⟨hm, hms⟩
  · exact fun _ _ hv => hv

mutual

def map {S T : Type} (f : S → T) : Wire S → Wire T
  | .null => .null
  | .bool b => .bool b
  | .int n => .int n
  | .double x => .double x
  | .str s => .str (f s)
  | .arr items => .arr (mapItems f items)
  | .obj members => .obj (mapMembers f members)

def mapItems {S T : Type} (f : S → T) : List (Wire S) → List (Wire T)
  | [] => []
  | item :: rest => map f item :: mapItems f rest

def mapMembers {S T : Type} (f : S → T) : List (S × Wire S) → List (T × Wire T)
  | [] => []
  | (name, value) :: rest => (f name, map f value) :: mapMembers f rest

end

mutual

/-- No object names a member twice. -/
def UniqueNames {S : Type} : Wire S → Prop
  | .arr items => UniqueItems items
  | .obj members => (members.map Prod.fst).Nodup ∧ UniqueMembers members
  | _ => True

def UniqueItems {S : Type} : List (Wire S) → Prop
  | [] => True
  | item :: rest => UniqueNames item ∧ UniqueItems rest

def UniqueMembers {S : Type} : List (S × Wire S) → Prop
  | [] => True
  | (_, value) :: rest => UniqueNames value ∧ UniqueMembers rest

end

end Wire

/-- A JSON value; its strings are sequences of UTF-16 code units. -/
structure JsonValue where
  value : Wire Units
  unique : value.UniqueNames

def JsonValue.onServer (v : JsonValue) : Wire Points := v.value.map codePoints

/-! ## `canonicalize_v2` -/

section

variable (format : DecimalFormat)

def maxJsonDepth : Nat := 64

def safeIntegerMax : Int := 2 ^ 53 - 1

mutual

def validateJsonDepth (depth : Nat) : Wire Points → Except PyError Unit
  | .arr items =>
    if maxJsonDepth ≤ depth then .error (.valueError "json_max_depth_exceeded")
    else validateDepthItems (depth + 1) items
  | .obj members =>
    if maxJsonDepth ≤ depth then .error (.valueError "json_max_depth_exceeded")
    else validateDepthMembers (depth + 1) members
  | _ => .ok ()

def validateDepthItems (depth : Nat) : List (Wire Points) → Except PyError Unit
  | [] => .ok ()
  | item :: rest => do
    validateJsonDepth depth item
    validateDepthItems depth rest

def validateDepthMembers (depth : Nat) : List (Points × Wire Points) → Except PyError Unit
  | [] => .ok ()
  | (_, value) :: rest => do
    validateJsonDepth depth value
    validateDepthMembers depth rest

end

/-- `_validate_json` of a string. -/
def validateString (s : Points) : Except PyError Unit :=
  if ∃ c ∈ s, IsSurrogate c then .error (.valueError "json_surrogate_forbidden") else .ok ()

def IsSafe (n : Int) : Prop := -safeIntegerMax ≤ n ∧ n ≤ safeIntegerMax

instance : DecidablePred IsSafe := fun n =>
  inferInstanceAs (Decidable (-safeIntegerMax ≤ n ∧ n ≤ safeIntegerMax))

def validateInt (n : Int) : Except PyError Unit :=
  if IsSafe n then .ok ()
  else
    match format.ofInt n with
    | none => .error (.valueError "json_binary64_integer_required")
    | some x =>
      if x.toRat = n then .ok () else .error (.valueError "json_binary64_integer_required")

mutual

def validateJson : Wire Points → Except PyError Unit
  | .str s => validateString s
  | .int n => validateInt format n
  | .double (.finite _) => .ok ()
  | .double _ => .error (.valueError "json_finite_number_required")
  | .arr items => validateItems items
  | .obj members => validateMembers members
  | _ => .ok ()

def validateItems : List (Wire Points) → Except PyError Unit
  | [] => .ok ()
  | item :: rest => do
    validateJson item
    validateItems rest

def validateMembers : List (Points × Wire Points) → Except PyError Unit
  | [] => .ok ()
  | (name, value) :: rest => do
    validateString name
    validateJson value
    validateMembers rest

end

/-- An ASCII text as code points. -/
def points (s : Str) : Points := s.map Char.toNat

/-- One character of `json.dumps(value, ensure_ascii=False)`. -/
def escapePoint (c : Nat) : Points :=
  if c = 92 then points "\\\\".toList
  else if c = 34 then points "\\\"".toList
  else if c = 8 then points "\\b".toList
  else if c = 12 then points "\\f".toList
  else if c = 10 then points "\\n".toList
  else if c = 13 then points "\\r".toList
  else if c = 9 then points "\\t".toList
  else if c < 32 then points ("\\u00".toList ++ [Nat.digitChar (c / 16), Nat.digitChar (c % 16)])
  else [c]

def dumpString (s : Points) : Points := points ['"'] ++ s.flatMap escapePoint ++ points ['"']

def canonicalInt (n : Int) : Except PyError Points :=
  if IsSafe n then .ok (points (Json.intText n))
  else
    match format.ofInt n with
    | none => .error (.valueError "int too large to convert to float")
    | some x => (canonicalFloat format x).map points

/-- Members in the order of their keys in UTF-16. -/
def byKey (a b : Points × Points) : Prop := ¬ Before (encodeUtf16 b.1) (encodeUtf16 a.1)

instance : DecidableRel byKey := fun a b =>
  inferInstanceAs (Decidable (¬ Before (encodeUtf16 b.1) (encodeUtf16 a.1)))

/-- `","` between texts, in brackets. -/
def bracketed {T : Type} (comma opening closing : List T) (texts : List (List T)) : List T :=
  opening ++ comma.intercalate texts ++ closing

mutual

/-- `_canonical_text`. The members of an object are printed and then put in order. -/
def canonicalText : Wire Points → Except PyError Points
  | .null => .ok (points "null".toList)
  | .bool true => .ok (points "true".toList)
  | .bool false => .ok (points "false".toList)
  | .int n => canonicalInt format n
  | .double (.finite x) => (canonicalFloat format x).map points
  | .double _ => .error (.valueError "json_value_required")
  | .str s => .ok (dumpString s)
  | .arr items => do
    let texts ← canonicalItems items
    return bracketed (points [',']) (points ['[']) (points [']']) texts
  | .obj members => do
    let entries ← canonicalMembers members
    return bracketed (points [',']) (points ['\x7b']) (points ['\x7d'])
      ((entries.insertionSort byKey).map Prod.snd)

def canonicalItems : List (Wire Points) → Except PyError (List Points)
  | [] => .ok []
  | item :: rest => do
    let text ← canonicalText item
    return text :: (← canonicalItems rest)

def canonicalMembers : List (Points × Wire Points) → Except PyError (List (Points × Points))
  | [] => .ok []
  | (name, value) :: rest => do
    let text ← canonicalText value
    return (name, dumpString name ++ points [':'] ++ text) :: (← canonicalMembers rest)

end

def canonicalizeV2 (value : Wire Points) : Except PyError (List UInt8) := do
  validateJsonDepth 0 value
  validateJson format value
  return encodeUtf8 (← canonicalText format value)

end

/-! ## `CanonicalJsonV2.Serialize` -/

section

variable (format : DecimalFormat) (exponential : Str → Int → Bool)

/-- An ASCII text as code units. -/
def units (s : Str) : Units := s.map (fun c => c.toNat.toUInt16)

def validateUnicode : Units → Except String Unit
  | [] => .ok ()
  | u :: rest =>
    if isHighSurrogate u then
      match rest with
      | [] => .error "json_surrogate_forbidden"
      | v :: rest =>
        if isLowSurrogate v then validateUnicode rest else .error "json_surrogate_forbidden"
    else if isLowSurrogate u then .error "json_surrogate_forbidden"
    else validateUnicode rest

/-- The `switch` of `WriteString`. -/
def escapeUnit (u : UInt16) : Units :=
  if u.toNat = 34 then units "\\\"".toList
  else if u.toNat = 92 then units "\\\\".toList
  else if u.toNat = 8 then units "\\b".toList
  else if u.toNat = 9 then units "\\t".toList
  else if u.toNat = 10 then units "\\n".toList
  else if u.toNat = 12 then units "\\f".toList
  else if u.toNat = 13 then units "\\r".toList
  else if u.toNat < 32 then
    units ("\\u00".toList ++ [Nat.digitChar (u.toNat / 16), Nat.digitChar (u.toNat % 16)])
  else [u]

def writeString (s : Units) : Except String Units := do
  validateUnicode s
  return units ['"'] ++ s.flatMap escapeUnit ++ units ['"']

/-- `Number`, for a literal without a fraction or an exponent. -/
def writeInt (n : Int) : Except String Units :=
  match format.ofInt n with
  | none => .error "json_finite_number_required"
  | some x =>
    if x.toRat = n then .ok (units (writeDouble format exponential x))
    else .error "json_binary64_integer_required"

/-- `StringComparer.Ordinal`. -/
def byName (a b : Units × Units) : Prop :=
  ¬ Before (b.1.map UInt16.toNat) (a.1.map UInt16.toNat)

instance : DecidableRel byName := fun a b =>
  inferInstanceAs (Decidable (¬ Before (b.1.map UInt16.toNat) (a.1.map UInt16.toNat)))

mutual

/-- `Write`. The members of an object are printed and then put in order. -/
def write (depth : Nat) : Wire Units → Except String Units
  | .obj members =>
    if maxJsonDepth < depth + 1 then .error "json_max_depth_exceeded"
    else do
      let entries ← writeMembers (depth + 1) members
      let sorted := entries.insertionSort byName
      if ¬ (sorted.map Prod.fst).Nodup then .error "duplicate_json_member"
      else return bracketed (units [',']) (units ['\x7b']) (units ['\x7d']) (sorted.map Prod.snd)
  | .arr items =>
    if maxJsonDepth < depth + 1 then .error "json_max_depth_exceeded"
    else do
      let texts ← writeItems (depth + 1) items
      return bracketed (units [',']) (units ['[']) (units [']']) texts
  | .str s => writeString s
  | .int n => writeInt format exponential n
  | .double (.finite x) => .ok (units (writeDouble format exponential x))
  | .double _ => .error "json_finite_number_required"
  | .bool true => .ok (units "true".toList)
  | .bool false => .ok (units "false".toList)
  | .null => .ok (units "null".toList)

def writeItems (depth : Nat) : List (Wire Units) → Except String (List Units)
  | [] => .ok []
  | item :: rest => do
    let text ← write depth item
    return text :: (← writeItems depth rest)

def writeMembers (depth : Nat) : List (Units × Wire Units) → Except String (List (Units × Units))
  | [] => .ok []
  | (name, value) :: rest => do
    let nameText ← writeString name
    let text ← write depth value
    return (name, nameText ++ units [':'] ++ text) :: (← writeMembers depth rest)

end

def serialize (value : Wire Units) : Except String (List UInt8) := do
  return encodeUtf8 (codePoints (← write format exponential 0 value))

end

end Ai00.Connector
