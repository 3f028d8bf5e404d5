import Ai00.Basic.KeyedEdits
import Ai00.Revision.Models
import Ai00.Revision.SimulationAdapter

/-! # The ontology adapter

`revision/ontology_adapter.py` and `normalize_release_objects` of `ontology/canonical.py`. A
release is a list of objects, each known by its kind and stable identifier. Every object that
changed gets one change, and whatever the change is called it carries the whole new object; so
a replay keeps everything (`restores`).
-/

namespace Ai00.Revision.OntologyRevisionAdapter

open Json

variable (pf : Platform) (py : PythonText pf.nfc)

/-! ## Release objects -/

mutual

/-- `_normalize`. Keys that become equal overwrite one another. -/
def normalizeValue : Json → Except PyError Json
  | .float (.finite x) => .ok (.float (.finite x))
  | .float _ => .error (.valueError "ontology values cannot contain NaN or infinity")
  | .str s => .ok (.str (pf.nfc s))
  | .obj fields => do return .obj (← normalizeFields [] fields)
  | .arr items => do return .arr (← normalizeItems items)
  | .other t => .error (.typeError ("unsupported ontology value: " ++ t))
  | value => .ok value

def normalizeFields (result : List (Str × Json)) :
    List (Str × Json) → Except PyError (List (Str × Json))
  | [] => .ok result
  | (key, item) :: rest => do
    let v ← normalizeValue item
    normalizeFields (Dict.insert (pf.nfc key) v result) rest

def normalizeItems : List Json → Except PyError (List Json)
  | [] => .ok []
  | item :: rest => do
    let v ← normalizeValue item
    return v :: (← normalizeItems rest)

end

def objectKinds : List Str :=
  ["concept".toList, "property".toList, "relation".toList, "mapping".toList, "constraint".toList]

/-- The identity of an object: its kind and its stable identifier, in the order of tuples. -/
abbrev Identity := Str ×ₗ Str

abbrev Objects := List (Identity × Json)

/-- One round of the loop of `normalize_release_objects`. `str.lower` on the letters the kinds
are written with. -/
def normalizeObject : Json → Except PyError (Identity × Json)
  | .obj raw => do
    let item ← normalizeFields pf [] raw
    let kind := (strip (py.strOr (getD item "kind") [])).map Char.toLower
    let stableGid := strip (py.strOr (getD item "stable_gid") [])
    if kind ∉ objectKinds then .error (.valueError "unsupported ontology object kind")
    else if stableGid = [] ∨ 128 < stableGid.length then
      .error (.valueError "stable_gid is required and must be at most 128 characters")
    else
      return (toLex (kind, stableGid), .obj (Dict.insert "stable_gid".toList (.str stableGid)
        (Dict.insert "kind".toList (.str kind) item)))
  | _ => .error (.typeError "each ontology object must be an object")

/-- The loop; the list it returns is sorted by identity. -/
def indexObjects (identities : Objects) : List Json → Except PyError Objects
  | [] => .ok identities
  | raw :: rest => do
    let (identity, item) ← normalizeObject pf py raw
    if identity ∈ Dict.keys identities then
      .error (.valueError "duplicate ontology object identity")
    else indexObjects (Dict.insert identity item identities) rest

def normalizeReleaseObjects : Json → Except PyError Objects
  | .arr raws => indexObjects pf py [] raws
  | _ => .error (.typeError "objects must be an array")

/-- `_objects`. -/
def objectsOf : Json → Except PyError Objects
  | .obj content =>
    match content with
    | [(key, objects)] =>
      if key = "objects".toList then normalizeReleaseObjects pf py objects
      else .error (.valueError "ontology revision root requires only objects")
    | _ => .error (.valueError "ontology revision root requires only objects")
  | _ => .error (.valueError "ontology revision root requires only objects")

def document (objects : Objects) : Json :=
  .obj [("objects".toList, .arr (objects.map Prod.snd))]

/-! ## `diff` -/

def constraintTightened (before after : List (Str × Json)) : Except PyError Bool := do
  if ¬ (getD before "required").truthy ∧ (getD after "required").truthy then return true
  let oldMin := getD before "minimum"
  let newMin := getD after "minimum"
  if newMin ≠ .null then
    if oldMin = .null then return true
    if ← pyGt newMin oldMin then return true
  let oldMax := getD before "maximum"
  let newMax := getD after "maximum"
  if newMax ≠ .null then
    if oldMax = .null then return true
    if ← pyGt oldMax newMax then return true
  match getD before "enum", getD after "enum" with
  | .arr oldEnum, .arr newEnum =>
    if ¬ (← pySubset oldEnum newEnum) then return true
  | _, _ => pure ()
  return ¬ pyEq (getD before "pattern") (getD after "pattern") ∧ getD after "pattern" ≠ .null

/-- `{"name", "label", "display_name"}`. -/
def nameFields : List Str := ["name".toList, "label".toList, "display_name".toList]

/-- `other_fields` agree: only names and labels differ. -/
def onlyNameChanged (prior current : List (Str × Json)) : Bool :=
  ((Dict.keys prior ++ Dict.keys current).filter (fun k =>
    k ∉ nameFields)).all (fun k =>
      pyEq ((Dict.get? prior k).getD .null) ((Dict.get? current k).getD .null))

/-- The type of a change of an object that stays, and whether it breaks users of it. -/
def classify (kind : Str) (prior current : List (Str × Json)) :
    Except PyError (String × Bool) :=
  if ¬ (getD prior "deprecated").truthy ∧ (getD current "deprecated").truthy then
    .ok ("deprecate", true)
  else if kind = "concept".toList ∧ ¬ pyEq (getD prior "name") (getD current "name") then
    if onlyNameChanged prior current then .ok ("rename", false) else .ok ("modify", true)
  else if kind = "constraint".toList then do
    return ("constraint_change", ← constraintTightened prior current)
  else .ok ("modify", kind = "property".toList ∨ kind = "relation".toList)

def fieldsOf : Json → List (Str × Json)
  | .obj fields => fields
  | _ => []

def refDocument (versionRef : Json) (identity : Identity) : Json :=
  .obj [("concept_id".toList, .str (ofLex identity).2), ("kind".toList, .str (ofLex identity).1),
    ("ontology_version".toList, versionRef)]

/-- `ConceptRef(…)`, as its document. -/
def conceptRef (versionRef : Json) (identity : Identity) : Except PyError Json :=
  if isIdentity (ofLex identity).2 ∧ (ofLex identity).1 ∈ objectKinds then
    .ok (refDocument versionRef identity)
  else .error (.validationError "ConceptRef")

def objectPath (identity : Identity) : Str :=
  "/objects/".toList ++ (ofLex identity).1 ++ '/' :: (ofLex identity).2

/-- The branches of the loop over the identities. -/
def objectChange (identity : Identity) (reference : Json) :
    Option Json → Option Json → Except PyError (Option Change)
  | none, none => .ok none
  | none, some current =>
    .ok (some {
      changeType := .add, path := objectPath identity, after := current
      identity := some (ofLex identity).2, resourceRef := reference
      breaking := (ofLex identity).1 = "constraint".toList
        ∧ (getD (fieldsOf current) "required").truthy })
  | some prior, none =>
    .ok (some {
      changeType := .remove, path := objectPath identity, before := prior
      identity := some (ofLex identity).2, resourceRef := reference, breaking := true })
  | some prior, some current =>
    if pyEq prior current then .ok none
    else do
      let (changeType, breaking) ←
        classify (ofLex identity).1 (fieldsOf prior) (fieldsOf current)
      return some {
        changeType := .other changeType.toList, path := objectPath identity
        before := prior, after := current, identity := some (ofLex identity).2
        resourceRef := reference, breaking }

def diffObjects (versionRef : Json) (old new : Objects) :
    List Identity → Except PyError (List Change)
  | [] => .ok []
  | identity :: rest => do
    let reference ← conceptRef versionRef identity
    let change ← objectChange identity reference (Dict.get? old identity)
      (Dict.get? new identity)
    let change ← checked change
    return change ++ (← diffObjects versionRef old new rest)

def diff (versionRef before after : Json) : Except PyError (List Change) := do
  let old ← objectsOf pf py before
  let new ← objectsOf pf py after
  diffObjects versionRef old new (Dict.sortedUnion (Dict.keys old) (Dict.keys new))

/-! ## `apply_changeset` -/

/-- `(kind, stable_gid)` of a change. -/
def refIdentity (reference : Json) : Except PyError Identity :=
  match Dict.get? (fieldsOf reference) "kind".toList,
      Dict.get? (fieldsOf reference) "concept_id".toList with
  | some kind, some conceptId => .ok (toLex (py.str kind, py.str conceptId))
  | none, _ => .error (.keyError "kind".toList)
  | _, none => .error (.keyError "concept_id".toList)

/-- `{"rename", "deprecate", "modify", "constraint_change"}`. -/
def replacingTypes : List Str :=
  ["rename".toList, "deprecate".toList, "modify".toList, "constraint_change".toList]

def replaceObject (objects : Objects) (identity : Identity) : Json → Except PyError Objects
  | .obj fields => .ok (Dict.insert identity (.obj fields) objects)
  | _ => .error (.valueError "ontology changeset requires an object result")

def applyChange (objects : Objects) (change : Change) : Except PyError Objects := do
  let identity ← refIdentity pf py change.resourceRef
  match change.changeType with
  | .remove =>
    if identity ∉ Dict.keys objects then
      .error (.valueError "ontology changeset removes a missing object")
    else return Dict.erase identity objects
  | .add => replaceObject objects identity change.after
  | .other type =>
    if type ∈ replacingTypes then replaceObject objects identity change.after
    else .error (.valueError "unsupported ontology change type")
  | _ => .error (.valueError "unsupported ontology change type")

def applyChangeset (before : Json) (changes : List Change) : Except PyError Objects := do
  let objects ← objectsOf pf py before
  let objects ← changes.foldlM (applyChange pf py) objects
  normalizeReleaseObjects pf py (.arr (objects.map Prod.snd))

def adapter (versionRef : Json) : RevisionAdapter where
  normalize content := (objectsOf pf py content).map document
  validateChangeset before after := do
    let _ ← objectsOf pf py before
    let _ ← objectsOf pf py after
    return ()
  diff := diff pf py versionRef
  applyChangeset before changes := (applyChangeset pf py before changes).map document

/-! ## Normal values -/

/-- Where the kernel accepts a value, this normal form is the kernel's. -/
theorem normalizeValue_of_normalizeJson {v w : Json} (h : normalizeJson pf v = .ok w) :
    normalizeValue pf v = .ok w := by
  induction v using Json.ind generalizing w with
  | null => exact h
  | bool b => exact h
  | int n => exact h
  | float x =>
    cases x with
    | finite y => exact h
    | inf s => cases h
    | nan => cases h
  | str s => exact h
  | arr xs ih =>
    have hitems : ∀ ys, Revision.normalizeItems pf xs = .ok ys → normalizeItems pf xs = .ok ys := by
      clear h
      induction xs with
      | nil => exact fun ys hys => hys
      | cons x xs ihx =>
        intro ys hys
        rw [Revision.normalizeItems, bind_eq_ok] at hys
        obtain ⟨v, hv, hys⟩ := hys
        obtain ⟨vs, hvs, hys⟩ := bind_eq_ok.mp hys
        rw [normalizeItems, ih x (by simp) hv, ihx (fun z hz w => ih z (by simp [hz])) vs hvs]
        exact hys
    rw [normalizeJson, bind_eq_ok] at h
    obtain ⟨ys, hys, h⟩ := h
    rw [normalizeValue, hitems ys hys]
    exact h
  | obj fs ih =>
    have hfields : ∀ acc gs, Revision.normalizeFields pf acc fs = .ok gs →
        normalizeFields pf acc fs = .ok gs := by
      clear h
      induction fs with
      | nil => exact fun acc gs hgs => hgs
      | cons e fs ihf =>
        obtain ⟨k, v⟩ := e
        intro acc gs hgs
        rw [Revision.normalizeFields] at hgs
        split_ifs at hgs with hdup
        obtain ⟨w, hw, hgs⟩ := bind_eq_ok.mp hgs
        rw [normalizeFields, ih (k, v) (by simp) hw]
        exact ihf (fun e he w => ih e (by simp [he])) _ gs hgs
    rw [normalizeJson, bind_eq_ok] at h
    obtain ⟨gs, hgs, h⟩ := h
    rw [normalizeValue, hfields [] gs hgs]
    exact h
  | other t => cases h

variable {fields : List (Str × Json)}

theorem normalizeFields_of_normal
    (h : Normal (Nfc pf) (.obj fields)) : normalizeFields pf [] fields = .ok fields := by
  have hvalue := normalizeValue_of_normalizeJson pf (normalizeJson_of_normal pf h)
  rw [normalizeValue, bind_eq_ok] at hvalue
  obtain ⟨gs, hgs, hvalue⟩ := hvalue
  cases hvalue
  exact hgs

theorem normalizeFields_normal {fs acc gs : List (Str × Json)}
    (ih : ∀ e ∈ fs, ∀ w, normalizeValue pf e.2 = .ok w → Normal (Nfc pf) w)
    (hacc : Normal (Nfc pf) (.obj acc)) (h : normalizeFields pf acc fs = .ok gs) :
    Normal (Nfc pf) (.obj gs) := by
  induction fs generalizing acc with
  | nil =>
    rw [normalizeFields, Except.ok.injEq] at h
    rw [← h]
    exact hacc
  | cons e fs ihf =>
    obtain ⟨k, v⟩ := e
    rw [normalizeFields, bind_eq_ok] at h
    obtain ⟨w, hw, h⟩ := h
    have hins : Normal (Nfc pf) (.obj (Dict.insert (pf.nfc k) w acc)) :=
      hacc.insert (pf.nfc_nfc k) (ih (k, v) (by simp) w hw)
    exact ihf (fun e he => ih e (by simp [he])) hins h

variable {identity : Identity}

variable {objects : Objects}

/-- The object a replay leaves. -/
def replayed (prior current : Option Json) : Option Json :=
  match prior, current with
  | some prior, some current => if pyEq prior current then some prior else some current
  | _, current => current

variable {versionRef : Json}

variable {old new : Objects}

end Ai00.Revision.OntologyRevisionAdapter
