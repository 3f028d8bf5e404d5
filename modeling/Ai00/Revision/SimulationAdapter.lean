import Ai00.Json.Builtins
import Ai00.Revision.Adapter

/-! # The simulation adapter

`revision/simulation_adapter.py`. A revision of a simulation has an input, `source`, and the
references to its results; a change replaces one of the two. `RevisionAdapter` collects what
the kernel asks of the adapter of a domain.
-/

namespace Ai00.Revision

open Json

/-- The operations of a semantic adapter. -/
structure RevisionAdapter where
  normalize : Json → Except PyError Json
  validateChangeset : Json → Json → Except PyError Unit
  diff : Json → Json → Except PyError (List Change)
  applyChangeset : Json → List Change → Except PyError Json

/-- `set(value) - fields` is empty. -/
def knownFields (fields : List (Str × Json)) (known : List String) : Bool :=
  (Dict.keys fields).all (fun k => known.any (fun name => decide (name.toList = k)))

/-- The change, if there is one, as `Change(…)` builds it. -/
def checked : Option Change → Except PyError (List Change)
  | none => .ok []
  | some change => change.validate.map (fun c => [c])

namespace SimulationRevisionAdapter

structure SimulationRevision where
  source : List (Str × Json)
  resultArtifactRefs : List (List (Str × Json))

def SimulationRevision.artifacts (r : SimulationRevision) : Json :=
  .arr (r.resultArtifactRefs.map .obj)

def SimulationRevision.document (r : SimulationRevision) : Json :=
  .obj [("result_artifact_refs".toList, r.artifacts), ("source".toList, .obj r.source)]

def sequenceItems : Json → Except PyError (List Json)
  | .arr items => .ok items
  | .str s => .ok (s.map (fun c => .str [c]))
  | _ => .error (.valueError "source and result_artifact_refs are required")

def normalize : Json → Except PyError SimulationRevision
  | .obj content =>
    if ¬ knownFields content ["source", "result_artifact_refs"] then
      .error (.valueError "unknown Simulation revision field")
    else
      match Dict.get? content "source".toList with
      | some (.obj source) => do
        let items ← match Dict.get? content "result_artifact_refs".toList with
          | none => .ok []
          | some artifacts => sequenceItems artifacts
        let refs ← items.mapM dictOf
        return ⟨source, refs⟩
      | _ => .error (.valueError "source and result_artifact_refs are required")
  | _ => .error (.typeError "content")

def inputChange (old new : SimulationRevision) : Change where
  changeType := .other "input_change".toList
  path := "/source".toList
  before := .obj old.source
  after := .obj new.source
  breaking := true

def resultAdd (old new : SimulationRevision) : Change where
  changeType := .other "result_add".toList
  path := "/result_artifact_refs".toList
  before := old.artifacts
  after := new.artifacts

/-- The changes of `diff`, before their checks. -/
def changes (old new : SimulationRevision) : List Change :=
  (if pyEq (.obj old.source) (.obj new.source) then [] else [inputChange old new])
    ++ (if pyEq old.artifacts new.artifacts then [] else [resultAdd old new])

def diff (before after : Json) : Except PyError (List Change) := do
  let old ← normalize before
  let new ← normalize after
  (changes old new).mapM Change.validate

/-- The loop over the changes; the document is the pair of its two fields. -/
def applyChange (result : Json × Json) (change : Change) : Except PyError (Json × Json) :=
  if change.changeType = .other "input_change".toList ∧ change.path = "/source".toList then
    .ok (change.after, result.2)
  else if change.changeType = .other "result_add".toList
      ∧ change.path = "/result_artifact_refs".toList then
    .ok (result.1, change.after)
  else .error (.valueError "unsupported Simulation change")

def applyChangeset (before : Json) (changes : List Change) : Except PyError SimulationRevision := do
  let old ← normalize before
  let (source, artifacts) ← changes.foldlM applyChange (.obj old.source, old.artifacts)
  normalize (.obj [("result_artifact_refs".toList, artifacts), ("source".toList, source)])

def adapter : RevisionAdapter where
  normalize content := (normalize content).map SimulationRevision.document
  validateChangeset before after := do
    let _ ← normalize before
    let _ ← normalize after
    return ()
  diff := diff
  applyChangeset before changes := (applyChangeset before changes).map SimulationRevision.document

/-! ## Round trip -/

end SimulationRevisionAdapter

end Ai00.Revision
