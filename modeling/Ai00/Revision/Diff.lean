import Ai00.Revision.Canonical

/-! # Diff and replay of JSON documents

`_diff` and `JsonDocumentAdapter` of `revision/diff.py`, and the `Change` record of
`revision/models.py`.

Objects are compared key by key. Arrays are compared item by item when every item on both
sides carries an identity and no identity repeats; the changes of such an array name an
identity and, for additions and moves, an index in the proposed array. Anything else that
differs is replaced as a whole.

`JsonDocumentAdapter.applyChangeset` replays the changes one after the other on the document
as edited so far. The mutable tree of the source is a value here, and a nested assignment is
`modifyAt`.
-/

namespace Ai00.Revision

open Json

variable (pf : Platform)

/-! ## Paths -/

def escape (value : Str) : Str := replaceChar '/' ['~', '1'] (replaceChar '~' ['~', '0'] value)

/-- `item.replace("~1", "/").replace("~0", "~")`. -/
def unescape (item : Str) : Str := replacePair '~' '0' ['~'] (replacePair '~' '1' ['/'] item)

/-- `segments` in `apply_changeset`. -/
def segments (path : Str) : List Str :=
  if path = ['/'] then [] else (splitOn '/' (path.drop 1)).map unescape

/-! ## Identities -/

def identityFields : List Str :=
  ["stable_gid".toList, "gid".toList, "id".toList, "key".toList]

/-- The first identity field with a non-empty text. -/
def identityOf (text : Str → Option Str) : Option Str :=
  identityFields.findSome? (fun field => (text field).filter (· ≠ []))

def identity : Json → Option Str
  | .obj fields => identityOf (fun field => (Dict.get? fields field).bind asStr)
  | _ => none

def identities : List Json → Option (List Str)
  | [] => some []
  | item :: items =>
    match identity item, identities items with
    | some i, some is => some (i :: is)
    | _, _ => none

/-! ## Changes -/

inductive ChangeType where
  | add
  | remove
  | replace
  | move
  | other (name : Str)
  deriving DecidableEq

def ChangeType.text : ChangeType → Str
  | .add => "add".toList
  | .remove => "remove".toList
  | .replace => "replace".toList
  | .move => "move".toList
  | .other name => name

structure Change where
  changeType : ChangeType
  path : Str
  before : Json := .null
  after : Json := .null
  identity : Option Str := none
  fromIndex : Option Nat := none
  toIndex : Option Nat := none
  resourceRef : Json := .null
  breaking : Bool := false
  deriving DecidableEq

/-- The pattern `^[a-z][a-z0-9_.-]{1,63}$`. -/
def isTypeName (s : Str) : Bool :=
  matchesName Char.isLower
    (fun c => c.isLower || c.isDigit || c == '_' || c == '.' || c == '-') 1 63 s

/-- The pattern `^/(?:.*)?$`. A dot matches every character but the line feed. -/
def isPath (s : Str) : Bool :=
  match s with
  | '/' :: rest => decide ('\n' ∉ rest)
  | _ => false

/-- The field checks of `Change`. -/
def Change.validate (c : Change) : Except PyError Change :=
  if ¬ isTypeName c.changeType.text then .error (.validationError "change_type")
  else if ¬ isPath c.path then .error (.validationError "path")
  else if 256 < (c.identity.getD []).length then .error (.validationError "identity")
  else .ok c

/-! ## `_diff` -/

/-- The final `return` of `_diff`. -/
def replaceWhole (before after : Json) (path : Str) : List Change :=
  [{ changeType := .replace, path := if path = [] then ['/'] else path, before, after }]

/-- `_diff`, before the checks of `Change`. The first argument bounds the nesting. -/
def diffAux : Nat → Json → Json → Str → List Change
  | 0, _, _, _ => []
  | n + 1, before, after, path =>
    if pyEq before after then []
    else
      match before, after with
      | .obj fs, .obj gs =>
        (Dict.sortedUnion (Dict.keys fs) (Dict.keys gs)).flatMap fun key =>
          let child := path ++ '/' :: escape key
          match Dict.get? fs key, Dict.get? gs key with
          | none, some new => [{ changeType := .add, path := child, after := new }]
          | some old, none => [{ changeType := .remove, path := child, before := old }]
          | some old, some new => diffAux n old new child
          | none, none => []
      | .arr xs, .arr ys =>
        match identities xs, identities ys with
        | some oldIds, some newIds =>
          if oldIds.Nodup ∧ newIds.Nodup then
            (Dict.sortedUnion oldIds newIds).flatMap fun i =>
              match Dict.get? (oldIds.zip xs) i, Dict.get? (newIds.zip ys) i with
              | none, some new =>
                [{ changeType := .add, path, after := new, identity := some i,
                   toIndex := some (newIds.idxOf i) }]
              | some old, none =>
                [{ changeType := .remove, path, before := old, identity := some i,
                   fromIndex := some (oldIds.idxOf i) }]
              | some old, some new =>
                (if oldIds.idxOf i ≠ newIds.idxOf i then
                  [{ changeType := .move, path, identity := some i,
                     fromIndex := some (oldIds.idxOf i),
                     toIndex := some (newIds.idxOf i) }]
                else []) ++ diffAux n old new (path ++ '/' :: escape i)
              | none, none => []
          else replaceWhole before after path
        | _, _ => replaceWhole before after path
      | _, _ => replaceWhole before after path

/-! ## Replay -/

/-- Applies `f` to the value below `document` that the segments lead to. -/
def modifyAt (f : Json → Except PyError Json) : List Str → Json → Except PyError Json
  | [], document => f document
  | segment :: rest, .obj fields =>
    match Dict.get? fields segment with
    | none => .error (.keyError segment)
    | some value => do return .obj (Dict.insert segment (← modifyAt f rest value) fields)
  | segment :: rest, .arr items =>
    match items.find? (fun item => identity item = some segment) with
    | none =>
      .error (.valueError
        ("changeset path identity not found: " ++ String.ofList segment))
    | some value => do
      let index := items.findIdx (fun item => identity item = some segment)
      return .arr (items.set index (← modifyAt f rest value))
  | _ :: _, _ => .error (.valueError "changeset path traverses a scalar")

/-- `collection.insert(index, item)`. -/
def pyInsert {α : Type} (index : Nat) (item : α) (collection : List α) : List α :=
  collection.take index ++ item :: collection.drop index

/-- A change that names an identity, on the array it is about. -/
def editCollection (c : Change) (i : Str) : Json → Except PyError Json
  | .arr collection =>
    let matching := fun item => decide (identity item = some i)
    let current := collection.find? matching
    let rest := collection.eraseIdx (collection.findIdx matching)
    match c.changeType with
    | .add =>
      if current.isSome then .error (.valueError "changeset adds an existing identity")
      else .ok (.arr (pyInsert (c.toIndex.getD collection.length) c.after collection))
    | .remove =>
      if current.isNone then .error (.valueError "changeset removes a missing identity")
      else .ok (.arr rest)
    | .move =>
      match current, c.toIndex with
      | some item, some index => .ok (.arr (pyInsert index item rest))
      | _, _ => .error (.valueError "changeset moves a missing identity")
    | _ => .error (.valueError "identity array changes support add, remove and move")
  | _ => .error (.valueError "identity change target must be an array")

def editField (c : Change) (key : Str) : Json → Except PyError Json
  | .obj parent =>
    match c.changeType with
    | .add =>
      if (Dict.get? parent key).isSome then
        .error (.valueError "changeset adds an existing field")
      else .ok (.obj (Dict.insert key c.after parent))
    | .remove =>
      if (Dict.get? parent key).isNone then
        .error (.valueError "changeset removes a missing field")
      else .ok (.obj (Dict.erase key parent))
    | .replace =>
      if (Dict.get? parent key).isNone then
        .error (.valueError "changeset replaces a missing field")
      else .ok (.obj (Dict.insert key c.after parent))
    | _ => .error (.valueError "field changes do not support move")
  | _ => .error (.valueError "field change parent must be an object")

def replaceRoot (c : Change) : Except PyError Json :=
  match c.changeType, c.after with
  | .replace, .obj fields => .ok (.obj fields)
  | _, _ => .error (.valueError "revision root supports only object replacement")

/-- One round of the loop in `apply_changeset`, for a path already split. -/
def applyAt (path : List Str) (c : Change) (document : Json) : Except PyError Json :=
  match c.identity, path.getLast? with
  | some i, _ => modifyAt (editCollection c i) path document
  | none, none => replaceRoot c
  | none, some key => modifyAt (editField c key) path.dropLast document

def applyChange (document : Json) (c : Change) : Except PyError Json :=
  applyAt (segments c.path) c document

namespace JsonDocumentAdapter

def normalize (content : Json) : Except PyError Json :=
  match content with
  | .obj _ => normalizeJson pf content
  | _ => .error (.typeError "revision root must be an object")

def diff (before after : Json) : Except PyError (List Change) := do
  let before ← normalize pf before
  let after ← normalize pf after
  (diffAux (before.depth + 1) before after []).mapM Change.validate

def validateChangeset (before after : Json) : Except PyError Unit := do
  let _ ← normalize pf before
  let _ ← normalize pf after

def applyChangeset (before : Json) (changes : List Change) : Except PyError Json := do
  let document ← normalize pf before
  normalize pf (← changes.foldlM applyChange document)

def classifyConflict (_path : Str) (base ours theirs : Json) : Str :=
  let isList : Json → Bool := fun v => match v with | .arr _ => true | _ => false
  let isMapping : Json → Bool := fun v => match v with | .obj _ => true | _ => false
  if isList base || isList ours || isList theirs then "collection".toList
  else if isMapping base || isMapping ours || isMapping theirs then "object".toList
  else "field".toList

end JsonDocumentAdapter

/-- The port `DomainRevisionAdapter`. -/
structure DomainRevisionAdapter where
  normalize : Json → Except PyError Json
  diff : Json → Json → Except PyError (List Change)
  validateChangeset : Json → Json → Except PyError Unit
  applyChangeset : Json → List Change → Except PyError Json
  classifyConflict : Str → Json → Json → Json → Str

def jsonDocumentAdapter : DomainRevisionAdapter where
  normalize := JsonDocumentAdapter.normalize pf
  diff := JsonDocumentAdapter.diff pf
  validateChangeset := JsonDocumentAdapter.validateChangeset pf
  applyChangeset := JsonDocumentAdapter.applyChangeset pf
  classifyConflict := JsonDocumentAdapter.classifyConflict

end Ai00.Revision
