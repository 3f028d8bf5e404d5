import Ai00.Simulation.PlmxmlText
import Ai00.Basic.KeyedRows
import Ai00.Basic.Rows

/-! # Reading a PLMXML document

The handlers of `parse_plmxml` in `domain/plmxml_projection.py`: what a document leaves in
`instances`, `revisions`, `occurrences` and `document` when its events are handled one after
another. A dictionary of records by id is the list of the records, as in `Basic/KeyedRows.lean`; the
instance and the view that are open are named by their ids, and the occurrence that is open is the
last one of the list.

`elapsed` is what the clock says at an event, in seconds since the parse began. That tags match is
left to the XML parser: an end without a start is an `IndexError` here.
-/

namespace Ai00.Simulation

open KeyedRows

/-! ## Data -/

structure PlmxmlLimits where
  maxBytes : ℤ := 64 * 1024 * 1024
  maxElements : ℤ := 750000
  maxDepth : ℤ := 160
  maxStringLength : ℤ := 1048576
  maxReferences : ℤ := 2000000
  maxAttributesPerElement : ℤ := 64
  maxInboundReferences : ℤ := 100000
  maxProjectedInstances : ℤ := 250000
  maxParseSeconds : ℚ := 30

/-- What the XML parser and the stream report. -/
inductive PlmxmlEvent where
  | chunk (size : ℕ) (elapsed : ℚ)
  /-- The stream gave something else than bytes. -/
  | notBytes
  | startElement (name : Str) (attrs : List (Str × Str)) (elapsed : ℚ)
  | characterData (value : Str)
  | endElement (name : Str)
  /-- A document type, an entity declaration or a reference to an external entity. -/
  | declaration
  /-- `ExpatError`. -/
  | malformed

structure ProductInstance where
  id : Str
  name : Str
  partRef : Str
  applicationLabel : Str
  transform : List Str
deriving DecidableEq

structure ProductRevisionView where
  id : Str
  instanceRefs : List Str
  userValues : List (Str × Str)
  representations : List Str
deriving DecidableEq

structure Occurrence where
  id : Str
  instanceRefs : List Str
  userValues : List (Str × Str)
  applicationRefs : List (Str × Str)
deriving DecidableEq

/-- What was read of a document. -/
structure PlmxmlDocument where
  schemaVersion : Str := []
  author : Str := []
  rootRefs : Str := []
  instances : List ProductInstance := []
  revisions : List ProductRevisionView := []
  occurrences : List Occurrence := []
deriving DecidableEq

/-- The variables of the handlers. -/
structure ParseState where
  document : PlmxmlDocument := {}
  currentInstance : Option Str := none
  currentRevision : Option Str := none
  currentOccurrence : Bool := false
  transformParts : Option (List Str) := none
  /-- The text lengths of the open elements, the innermost first. -/
  elementTextLengths : List ℕ := []
  depth : ℕ := 0
  elementCount : ℕ := 0
  referenceCount : ℕ := 0
  totalBytes : ℕ := 0
  maximumDepth : ℕ := 0

/-! ## Handlers -/

/-- `attrs.get(key, "")`. -/
def attr (attrs : List (Str × Str)) (key : String) : Str := (attrs.lookup key.toList).getD []

/-- `values[key] = value`. -/
def assign (key value : Str) (values : List (Str × Str)) : List (Str × Str) :=
  upsert Prod.fst (key, value) values

/-- A change of the last of some records. -/
def onLast {α : Type} (f : α → α) : List α → List α
  | [] => []
  | [a] => [f a]
  | a :: rest => a :: onLast f rest

def refAttributes : List Str :=
  ["attributeRefs", "defaultProductViewRef", "instanceRefs", "partRef", "rootRefs"].map String.toList

def xincludeNamespace : Str := "http://www.w3.org/2001/XInclude".toList

section

variable (limits : PlmxmlLimits)

def checkTime (elapsed : ℚ) : Except PlmxmlError Unit :=
  require (elapsed ≤ limits.maxParseSeconds) (.limit "max_parse_seconds")

/-- The loop over the attributes of an element: what comes of the count of references. -/
def countReferences (attrs : List (Str × Str)) (count : ℕ) : Except PlmxmlError ℕ :=
  attrs.foldlM (fun count entry => do
    require (entry.1.length ≤ limits.maxStringLength ∧ entry.2.length ≤ limits.maxStringLength)
      (.limit "max_string_length")
    if (localName entry.1).2 ∈ refAttributes then
      let count := count + (words entry.2).length
      require (count ≤ limits.maxReferences) (.limit "max_references")
      return count
    else return count) count

/-- What an element that starts adds to the document. -/
def opened (name : Str) (attrs : List (Str × Str)) (s : ParseState) :
    Except PlmxmlError ParseState := do
  let document := s.document
  if name = "PLMXML".toList then
    return { s with document := { document with
      schemaVersion := attr attrs "schemaVersion", author := attr attrs "author" } }
  else if name = "InstanceGraph".toList then
    return { s with document := { document with rootRefs := attr attrs "rootRefs" } }
  else if name = "ProductInstance".toList then
    let instances := upsert ProductInstance.id
      ⟨attr attrs "id", attr attrs "name", ref (attr attrs "partRef"), [], []⟩ document.instances
    require (instances.length ≤ limits.maxProjectedInstances) (.limit "max_projected_instances")
    return { s with document := { document with instances }, currentInstance := some (attr attrs "id") }
  else if name = "ProductRevisionView".toList then
    let revisions := upsert ProductRevisionView.id
      ⟨attr attrs "id", refs (attr attrs "instanceRefs"), [], []⟩ document.revisions
    return { s with document := { document with revisions }, currentRevision := some (attr attrs "id") }
  else if name = "Occurrence".toList then
    let occurrences := document.occurrences
      ++ [⟨attr attrs "id", refs (attr attrs "instanceRefs"), [], []⟩]
    return { s with document := { document with occurrences }, currentOccurrence := true }
  else if name = "ApplicationRef".toList then
    if s.currentOccurrence then
      let occurrences := onLast (fun (o : Occurrence) => { o with
        applicationRefs := assign (attr attrs "application") (attr attrs "label") o.applicationRefs })
        document.occurrences
      return { s with document := { document with occurrences } }
    match s.currentInstance with
    | none => return s
    | some id =>
      let instances := Rows.update (·.id = id)
        (fun i => { i with applicationLabel := attr attrs "label" }) document.instances
      return { s with document := { document with instances } }
  else if name = "UserValue".toList then
    if s.currentOccurrence then
      let occurrences := onLast (fun (o : Occurrence) => { o with
        userValues := assign (attr attrs "title") (attr attrs "value") o.userValues })
        document.occurrences
      return { s with document := { document with occurrences } }
    match s.currentRevision with
    | none => return s
    | some id =>
      let revisions := Rows.update (·.id = id) (fun r => { r with
        userValues := assign (attr attrs "title") (attr attrs "value") r.userValues })
        document.revisions
      return { s with document := { document with revisions } }
  else if name = "Representation".toList ∧ s.currentRevision ≠ none then
    let revisions := Rows.update (fun r => some r.id = s.currentRevision) (fun r => { r with
      representations := r.representations ++ [attr attrs "location"] }) document.revisions
    return { s with document := { document with revisions } }
  else if name = "Transform".toList ∧ s.currentInstance ≠ none then
    return { s with transformParts := some [] }
  else return s

def startElement (name : Str) (attrs : List (Str × Str)) (elapsed : ℚ) (s : ParseState) :
    Except PlmxmlError ParseState := do
  checkTime limits elapsed
  let depth := s.depth + 1
  let elementCount := s.elementCount + 1
  require (depth ≤ limits.maxDepth) (.limit "max_depth")
  require (elementCount ≤ limits.maxElements) (.limit "max_elements")
  require (attrs.length ≤ limits.maxAttributesPerElement) (.limit "max_attributes_per_element")
  let (space, name) := localName name
  -- no letter beyond ASCII has one of the letters of `include` for its small letter
  require (¬ (space = xincludeNamespace ∨ name.map Char.toLower = "include".toList
    ∧ "href".toList ∈ attrs.map Prod.fst)) (.security "xinclude_forbidden")
  let referenceCount ← countReferences limits attrs s.referenceCount
  opened limits name attrs { s with
    depth, elementCount, referenceCount
    maximumDepth := max s.maximumDepth depth
    elementTextLengths := 0 :: s.elementTextLengths }

def characterData (value : Str) (s : ParseState) : Except PlmxmlError ParseState := do
  match s.elementTextLengths with
  | [] => return s
  | length :: outer =>
    let length := length + value.length
    require (length ≤ limits.maxStringLength) (.limit "max_string_length")
    return { s with
      elementTextLengths := length :: outer
      transformParts := s.transformParts.map (· ++ [value]) }

/-- What an element that ends adds to the document. -/
def closed (name : Str) (s : ParseState) : Except PlmxmlError ParseState := do
  if name = "Transform".toList then
    match s.currentInstance, s.transformParts with
    | some id, some parts =>
      let values := words parts.flatten
      require (values = [] ∨ values.length = 16) (.structure "invalid_transform")
      let instances := Rows.update (·.id = id) (fun i => { i with transform := values })
        s.document.instances
      return { s with document := { s.document with instances }, transformParts := none }
    | _, _ => return s
  else if name = "ProductInstance".toList then return { s with currentInstance := none }
  else if name = "ProductRevisionView".toList then return { s with currentRevision := none }
  else if name = "Occurrence".toList then return { s with currentOccurrence := false }
  else return s

def endElement (name : Str) (s : ParseState) : Except PlmxmlError ParseState := do
  let s ← closed (localName name).2 s
  match s.elementTextLengths with
  | [] => .error .indexError
  | _ :: outer => return { s with elementTextLengths := outer, depth := s.depth - 1 }

/-- What the loop over the stream does at an event. -/
def handleEvent (s : ParseState) : PlmxmlEvent → Except PlmxmlError ParseState
  | .chunk size elapsed => do
    let totalBytes := s.totalBytes + size
    require (totalBytes ≤ limits.maxBytes) (.limit "max_bytes")
    checkTime limits elapsed
    return { s with totalBytes }
  | .notBytes => .error (.typeError "PLMXML stream must yield bytes")
  | .startElement name attrs elapsed => startElement limits name attrs elapsed s
  | .characterData value => characterData limits value s
  | .endElement name => endElement name s
  | .declaration => .error (.security "dtd_or_entity_forbidden")
  | .malformed => .error (.structure "malformed_xml")

/-- The part of `parse_plmxml` that reads the stream. -/
def readEvents (events : List PlmxmlEvent) : Except PlmxmlError ParseState := do
  require (0 < limits.maxParseSeconds) (.limit "max_parse_seconds")
  events.foldlM (handleEvent limits) {}

end

end Ai00.Simulation
