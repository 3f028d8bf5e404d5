import Ai00.Basic.FileSystem
import Ai00.Basic.Interleaving
import Ai00.Basic.Python

/-! # Artifact uploads

`capability_v2/artifacts.py`: an upload session is created, its bytes are checked and stored under
its key, the session is marked uploaded and then finalized into an artifact. `ArtifactService` works
over `InMemoryArtifactStore` and `FilesystemObjectStorage`; a call of the store and an operation on
a file are one request each, and any of them may fail (`faults`).

A failed operation on a file is an answer, since `put_stream` goes on after it: it removes the
path if there is a file, whichever operation has failed.
-/

namespace Ai00.Capability.Artifacts

open Program

abbrev Bytes := List UInt8

/-- The parts of a path under the root. -/
abbrev Path := List Str

inductive FileError where
  | fileExists
  | fileNotFound
  | osError

inductive ArtifactError where
  | artifactError (message : String)
  | integrityError (message : String)
  | authorizationError (message : String)
  | fileError (e : FileError)
  | keyError
  | streamError
  | fault

/-! ## Records -/

/-- What the service reads of a `ConsumerIdentity`. -/
structure Requester where
  tenantId : Str
  userId : Option Str
  serviceId : Option Str

def Requester.actorId (identity : Requester) : Str :=
  if identity.userId.getD [] ≠ [] then identity.userId.getD [] else identity.serviceId.getD []

inductive UploadStatus where
  | pending
  | uploaded
  | completed
  | expired
  deriving DecidableEq

structure UploadSession where
  uploadId : Str
  tenantId : Str
  actorId : Str
  objectKey : Str
  mediaType : Str
  expectedSha256 : Str
  expectedByteSize : Int
  resourceRefs : List Str := []
  status : UploadStatus := .pending
  uploadedSha256 : Option Str := none
  uploadedByteSize : Option Int := none
  artifactId : Option Str := none
  createdAt : Int
  expiresAt : Int

/-- What `mark_uploaded` updates. -/
def UploadSession.uploadedAs (session : UploadSession) (sha256 : Str) (byteSize : Int) :
    UploadSession :=
  { session with status := .uploaded, uploadedSha256 := some sha256
                 uploadedByteSize := some byteSize }

/-- What `finalize` updates. -/
def UploadSession.completedAs (session : UploadSession) (artifactId : Str) : UploadSession :=
  { session with status := .completed, artifactId := some artifactId }

structure ArtifactRef where
  artifactId : Str
  mediaType : Str
  sha256 : Str
  byteSize : Int
  version : Int := 1
  deriving DecidableEq

structure ArtifactRecord where
  artifactRef : ArtifactRef
  tenantId : Str
  actorId : Str
  objectKey : Str
  resourceRefs : List Str := []
  createdAt : Int

/-! ## The store -/

structure InMemoryArtifactStore where
  uploads : List UploadSession := []
  artifacts : List ArtifactRecord := []

namespace InMemoryArtifactStore

def upload (store : InMemoryArtifactStore) (uploadId : Str) : Option UploadSession :=
  KeyedRows.lookup (·.uploadId) uploadId store.uploads

def setUpload (store : InMemoryArtifactStore) (session : UploadSession) : InMemoryArtifactStore :=
  { store with uploads := KeyedRows.upsert (·.uploadId) session store.uploads }

def artifact (store : InMemoryArtifactStore) (artifactId : Str) : Option ArtifactRecord :=
  KeyedRows.lookup (·.artifactRef.artifactId) artifactId store.artifacts

def notFound : ArtifactError := .artifactError "upload_session_not_found"

def createUpload (store : InMemoryArtifactStore) (session : UploadSession) :
    Except ArtifactError (UploadSession × InMemoryArtifactStore) :=
  if (store.upload session.uploadId).isSome then .error (.artifactError "upload_session_exists")
  else .ok (session, store.setUpload session)

def markUploaded (store : InMemoryArtifactStore) (uploadId sha256 : Str) (byteSize : Int) :
    Except ArtifactError (UploadSession × InMemoryArtifactStore) :=
  match store.upload uploadId with
  | none => .error notFound
  | some session =>
    if session.status = .uploaded then
      if (session.uploadedSha256, session.uploadedByteSize) ≠ (some sha256, some byteSize) then
        .error (.integrityError "upload metadata conflict")
      else .ok (session, store)
    else if session.status ≠ .pending then
      .error (.integrityError "upload session is not pending")
    else
      .ok (session.uploadedAs sha256 byteSize, store.setUpload (session.uploadedAs sha256 byteSize))

def finalize (store : InMemoryArtifactStore) (uploadId : Str) (record : ArtifactRecord) :
    Except ArtifactError (ArtifactRecord × InMemoryArtifactStore) :=
  match store.upload uploadId with
  | none => .error notFound
  | some session =>
    if session.status = .completed then
      if session.artifactId ≠ some record.artifactRef.artifactId then
        .error (.integrityError "upload already finalized with another artifact")
      else
        match store.artifact record.artifactRef.artifactId with
        | none => .error .keyError
        | some existing => .ok (existing, store)
    else if session.status ≠ .uploaded then
      .error (.integrityError "upload session is not uploaded")
    else
      .ok (record,
        { uploads := KeyedRows.upsert (·.uploadId)
            (session.completedAs record.artifactRef.artifactId) store.uploads
          artifacts := KeyedRows.upsert (·.artifactRef.artifactId) record store.artifacts })

end InMemoryArtifactStore

/-! ## Requests -/

inductive ArtifactAction where
  | now
  | uuid
  | createUpload (session : UploadSession)
  | getUpload (uploadId : Str)
  | markUploaded (uploadId sha256 : Str) (byteSize : Int)
  | finalize (uploadId : Str) (record : ArtifactRecord)
  | getArtifact (artifactId : Str)
  | mkdir (path : Path)
  | openNew (path : Path)
  | readVerified
  | write (file : Nat) (bytes : Bytes)
  | close (file : Nat)
  /-- The close on the way out of an exception. -/
  | discard (file : Nat)
  | pathExists (path : Path)
  | unlink (path : Path)
  | openRead (path : Path)
  | readFile (file maximum : Nat)

abbrev ArtifactAction.Answer : ArtifactAction → Type
  | .now => Int
  | .uuid => Str
  | .createUpload _ => UploadSession
  | .getUpload _ => UploadSession
  | .markUploaded .. => UploadSession
  | .finalize .. => ArtifactRecord
  | .getArtifact _ => ArtifactRecord
  | .mkdir _ => Except FileError Unit
  | .openNew _ => Except FileError Nat
  | .readVerified => Except FileError Unit
  | .write .. => Except FileError Unit
  | .close _ => Except FileError Unit
  | .discard _ => Except FileError Unit
  | .pathExists _ => Except FileError Bool
  | .unlink _ => Except FileError Unit
  | .openRead _ => Except FileError Nat
  | .readFile .. => Except FileError Bytes

/-- Clock readings, identifiers and faults by the number of the step. A step fails where `faults`
has a number: so many bytes of a write get through, and so many are missing after a close. -/
structure ArtifactEnvironment where
  times : Nat → Int
  uuids : Nat → Str
  /-- The hexadecimal digits of an identifier. -/
  uuids_hex : ∀ n, ∀ c ∈ uuids n, c ≠ '/'
  faults : Nat → Option Nat

structure ArtifactState where
  store : InMemoryArtifactStore := {}
  files : FileSystem Path UInt8 := {}
  steps : Nat := 0

section

variable (env : ArtifactEnvironment)

def onStore {α : Type} (s : ArtifactState)
    (call : InMemoryArtifactStore → Except ArtifactError (α × InMemoryArtifactStore)) :
    Except ArtifactError α × ArtifactState :=
  match env.faults s.steps with
  | some _ => (.error .fault, { s with steps := s.steps + 1 })
  | none =>
    match call s.store with
    | .ok (a, store) => (.ok a, { s with store, steps := s.steps + 1 })
    | .error e => (.error e, { s with steps := s.steps + 1 })

/-- An operation on the files; `fails` is what it leaves of them when it fails. -/
def onFiles {α : Type} (s : ArtifactState)
    (operate : FileSystem Path UInt8 → Except FileError α × FileSystem Path UInt8)
    (fails : Nat → FileSystem Path UInt8 → FileSystem Path UInt8) :
    Except ArtifactError (Except FileError α) × ArtifactState :=
  match env.faults s.steps with
  | some n => (.ok (.error .osError), { s with files := fails n s.files, steps := s.steps + 1 })
  | none =>
    (.ok (operate s.files).1, { s with files := (operate s.files).2, steps := s.steps + 1 })

def handleArtifact (r : ArtifactAction) (s : ArtifactState) :
    Except ArtifactError r.Answer × ArtifactState :=
  match r with
  | .now => (.ok (env.times s.steps), { s with steps := s.steps + 1 })
  | .uuid => (.ok (env.uuids s.steps), { s with steps := s.steps + 1 })
  | .createUpload session => onStore env s (·.createUpload session)
  | .getUpload uploadId => onStore env s fun store =>
    match store.upload uploadId with
    | some session => .ok (session, store)
    | none => .error InMemoryArtifactStore.notFound
  | .markUploaded uploadId sha256 byteSize => onStore env s (·.markUploaded uploadId sha256 byteSize)
  | .finalize uploadId record => onStore env s (·.finalize uploadId record)
  | .getArtifact artifactId => onStore env s fun store =>
    match store.artifact artifactId with
    | some record => .ok (record, store)
    | none => .error (.artifactError "artifact_not_found")
  | .mkdir _ => onFiles env s (fun fs => (.ok (), fs)) (fun _ fs => fs)
  | .openNew path => onFiles env s
      (fun fs =>
        match fs.entry path with
        | some _ => (.error .fileExists, fs)
        | none => (.ok fs.contents.length, fs.create path))
      (fun _ fs => fs)
  | .readVerified => onFiles env s (fun fs => (.ok (), fs)) (fun _ fs => fs)
  | .write file bytes => onFiles env s
      (fun fs => (.ok (), fs.setContent file (fs.content file ++ bytes)))
      (fun n fs => fs.setContent file (fs.content file ++ bytes.take n))
  | .close file => onFiles env s (fun fs => (.ok (), fs))
      (fun n fs => fs.setContent file ((fs.content file).take ((fs.content file).length - n)))
  | .discard _ => onFiles env s (fun fs => (.ok (), fs)) (fun _ fs => fs)
  | .pathExists path => onFiles env s (fun fs => (.ok (fs.entry path).isSome, fs)) (fun _ fs => fs)
  | .unlink path => onFiles env s
      (fun fs =>
        match fs.entry path with
        | none => (.error .fileNotFound, fs)
        | some _ => (.ok (), fs.remove path))
      (fun _ fs => fs)
  | .openRead path => onFiles env s
      (fun fs =>
        match fs.entry path with
        | none => (.error .fileNotFound, fs)
        | some file => (.ok file, fs))
      (fun _ fs => fs)
  | .readFile file maximum => onFiles env s (fun fs => (.ok ((fs.content file).take maximum), fs))
      (fun _ fs => fs)

end

/-! ## Object storage -/

abbrev ArtifactProgram := Program ArtifactAction.Answer ArtifactError

/-- `path_for`, relative to the root. -/
def pathFor (objectKey : Str) : Except ArtifactError Path :=
  let parts := (splitOn '/' ((strip objectKey).dropWhile (· = '/'))).filter
    (fun part => part ≠ [] ∧ part ≠ ['.'])
  if parts = [] ∨ ['.', '.'] ∈ parts then
    .error (.authorizationError "invalid artifact object key")
  else .ok parts

/-- A request to the file system whose failure is raised. -/
def orRaise {α : Type} : Except FileError α → ArtifactProgram α
  | .ok a => ret a
  | .error e => raise (.fileError e)

/-- The pieces that `read(n)` yields, at most `fuel` of them. -/
def pieces (n : Nat) : Nat → Bytes → List Bytes
  | 0, _ => []
  | fuel + 1, data => if data = [] then [] else data.take n :: pieces n fuel (data.drop n)

/-- The copying loop inside `with path.open("xb")`, up to the close. -/
def copy (file : Nat) : List Bytes → ArtifactProgram (Except FileError Unit)
  | [] => do
    match ← request ArtifactAction.readVerified with
    | .error e => do
      let _ ← request (ArtifactAction.discard file)
      return .error e
    | .ok () => request (ArtifactAction.close file)
  | piece :: rest => do
    match ← request ArtifactAction.readVerified with
    | .error e => do
      let _ ← request (ArtifactAction.discard file)
      return .error e
    | .ok () =>
      match ← request (ArtifactAction.write file piece) with
      | .error e => do
        let _ ← request (ArtifactAction.discard file)
        return .error e
      | .ok () => copy file rest

/-- The body of the `try` statement. -/
def writeNew (path : Path) (data : Bytes) : ArtifactProgram (Except FileError Unit) := do
  match ← request (ArtifactAction.openNew path) with
  | .error e => return .error e
  | .ok file => copy file (pieces 1048576 (data.length + 1) data)

def putStream (objectKey : Str) (data : Bytes) : ArtifactProgram Unit := do
  let path ← lift (pathFor objectKey)
  orRaise (← request (ArtifactAction.mkdir path.dropLast))
  match ← writeNew path data with
  | .ok () => return ()
  | .error e => do
    if ← orRaise (← request (ArtifactAction.pathExists path)) then
      orRaise (← request (ArtifactAction.unlink path))
    raise (.fileError e)

/-- `read`. -/
def readObject (objectKey : Str) (maximum : Int) : ArtifactProgram Bytes := do
  let path ← lift (pathFor objectKey)
  let file ← orRaise (← request (ArtifactAction.openRead path))
  let data ← orRaise (← request (ArtifactAction.readFile file (maximum + 1).toNat))
  if maximum < data.length then raise (.integrityError "artifact exceeds read limit")
  else return data

/-! ## The service -/

section

variable (sha256 : Bytes → Str) (artifactIdOf : Str → Str)
  (shared : ArtifactRecord → Requester → Bool)

def scopesAllow (granted requested : List Str) : Bool :=
  requested.all fun ref => decide ("*".toList ∈ granted) || decide (ref ∈ granted) ||
    decide (ref.takeWhile (· ≠ ':') ++ ":*".toList ∈ granted)

def authorize (tenantId actorId : Str) (resourceRefs : List Str) (identity : Requester)
    (granted : List Str) : Except ArtifactError Unit :=
  if identity.tenantId ≠ tenantId then
    .error (.authorizationError "artifact belongs to another tenant")
  else if identity.actorId ≠ actorId ∧ granted = [] then
    .error (.authorizationError "artifact access requires owner or resource grant")
  else if resourceRefs = [] ∧ identity.actorId ≠ actorId then
    .error (.authorizationError "private artifact belongs to another actor")
  else if granted ≠ [] ∧ ¬ scopesAllow granted resourceRefs then
    .error (.authorizationError "artifact resource scope is not granted")
  else .ok ()

def validSha256 (value : Str) : Bool :=
  decide (value.length = 64) && value.all (fun c => c.isDigit || ('a' ≤ c && c ≤ 'f'))

/-- The chunks that a client sends; after them the stream ends or breaks off. -/
structure ClientStream where
  chunks : List Bytes
  breaks : Bool := false

/-- The reading loop of `upload_stream`, with what has been read so far. -/
def verified (stream : ClientStream) (expected : Int) : List Bytes → Bytes → Except ArtifactError Bytes
  | [], data => if stream.breaks then .error .streamError else .ok data
  | chunk :: chunks, data =>
    if chunk = [] then .ok data
    else if expected < (data ++ chunk).length then
      .error (.integrityError "uploaded object exceeds expected byte size")
    else verified stream expected chunks (data ++ chunk)

structure UploadRequest where
  mediaType : Str
  expectedSha256 : Str
  expectedByteSize : Int
  resourceRefs : List Str
  expiresIn : Int

/-- The checks of `create_upload`; a duration counts in seconds. -/
def checkUpload (r : UploadRequest) : Except ArtifactError Unit :=
  if ¬ validSha256 r.expectedSha256 then
    .error (.integrityError "expected_sha256 must be lowercase SHA-256")
  else if r.expectedByteSize < 0 then
    .error (.integrityError "expected_byte_size cannot be negative")
  else if r.mediaType = [] ∨ 255 < r.mediaType.length then
    .error (.integrityError "invalid media_type")
  else if r.expiresIn ≤ 0 ∨ 86400 < r.expiresIn then
    .error (.integrityError "invalid upload expiry")
  else .ok ()

def objectKey (tenantId uploadId : Str) : Str :=
  "capability-artifacts/".toList ++ tenantId ++ "/".toList ++ uploadId

namespace ArtifactService

def createUpload (requestedBy : Requester) (r : UploadRequest) : ArtifactProgram UploadSession := do
  lift (checkUpload r)
  let uuid ← request ArtifactAction.uuid
  let uploadId := "upload_".toList ++ uuid
  let now ← request ArtifactAction.now
  request (ArtifactAction.createUpload
    { uploadId
      tenantId := requestedBy.tenantId
      actorId := requestedBy.actorId
      objectKey := objectKey requestedBy.tenantId uploadId
      mediaType := r.mediaType
      expectedSha256 := r.expectedSha256
      expectedByteSize := r.expectedByteSize
      resourceRefs := r.resourceRefs.dedup.insertionSort (· ≤ ·)
      createdAt := now
      expiresAt := now + r.expiresIn })

def uploadStream (uploadId : Str) (requestedBy : Requester) (stream : ClientStream) :
    ArtifactProgram Unit := do
  let session ← request (ArtifactAction.getUpload uploadId)
  lift (authorize session.tenantId session.actorId session.resourceRefs requestedBy [])
  if session.status ≠ .pending then
    raise (.integrityError "upload session expired or closed")
  else do
    let now ← request ArtifactAction.now
    if session.expiresAt ≤ now then
      raise (.integrityError "upload session expired or closed")
    else do
      let data ← lift (verified stream session.expectedByteSize stream.chunks [])
      if (data.length : Int) ≠ session.expectedByteSize then
        raise (.integrityError "uploaded object byte size mismatch")
      else if sha256 data ≠ session.expectedSha256 then
        raise (.integrityError "uploaded object sha256 mismatch")
      else do
        putStream session.objectKey data
        let _ ← request (ArtifactAction.markUploaded uploadId (sha256 data) data.length)
        return ()

def getUpload (uploadId : Str) (requestedBy : Requester) : ArtifactProgram UploadSession := do
  let session ← request (ArtifactAction.getUpload uploadId)
  lift (authorize session.tenantId session.actorId session.resourceRefs requestedBy [])
  return session

/-- The record that `finalize` builds of an uploaded session. -/
def recordOf (session : UploadSession) (createdAt : Int) : ArtifactRecord where
  artifactRef :=
    { artifactId := artifactIdOf session.uploadId
      mediaType := session.mediaType
      sha256 := session.uploadedSha256.getD []
      byteSize := session.uploadedByteSize.getD 0 }
  tenantId := session.tenantId
  actorId := session.actorId
  objectKey := session.objectKey
  resourceRefs := session.resourceRefs
  createdAt := createdAt

def finalize (uploadId : Str) (requestedBy : Requester) (reportedSha256 : Str) :
    ArtifactProgram ArtifactRef := do
  let session ← request (ArtifactAction.getUpload uploadId)
  lift (authorize session.tenantId session.actorId session.resourceRefs requestedBy [])
  if session.status = .completed ∧ session.artifactId.getD [] ≠ [] then do
    let record ← request (ArtifactAction.getArtifact (session.artifactId.getD []))
    return record.artifactRef
  else do
    let now ← request ArtifactAction.now
    if session.expiresAt ≤ now then raise (.integrityError "upload session expired")
    else if reportedSha256 ≠ session.expectedSha256 then
      raise (.integrityError "reported sha256 differs from upload contract")
    else if session.status ≠ .uploaded then
      raise (.integrityError "upload session is not uploaded")
    else if session.uploadedSha256.getD [] ≠ session.expectedSha256 then
      raise (.integrityError "uploaded object sha256 mismatch")
    else if session.uploadedByteSize ≠ some session.expectedByteSize then
      raise (.integrityError "uploaded object byte size mismatch")
    else do
      let createdAt ← request ArtifactAction.now
      let record ← request
        (ArtifactAction.finalize uploadId (recordOf artifactIdOf session createdAt))
      return record.artifactRef

def authorizeDownload (artifactId : Str) (requestedBy : Requester) (granted : List Str) :
    ArtifactProgram ArtifactRecord := do
  let record ← request (ArtifactAction.getArtifact artifactId)
  match authorize record.tenantId record.actorId record.resourceRefs requestedBy granted with
  | .ok () => return record
  | .error e => if shared record requestedBy then return record else raise e

def read (ref : ArtifactRef) (requestedBy : Requester) (maximum : Int) (granted : List Str) :
    ArtifactProgram Bytes := do
  let record ← authorizeDownload shared ref.artifactId requestedBy granted
  if record.artifactRef ≠ ref ∨ maximum < ref.byteSize then
    raise (.integrityError "artifact reference or size limit mismatch")
  else do
    let data ← readObject record.objectKey maximum
    if (data.length : Int) ≠ ref.byteSize ∨ sha256 data ≠ ref.sha256 then
      raise (.integrityError "artifact content integrity mismatch")
    else return data

end ArtifactService

inductive ArtifactCall where
  | createUpload (requestedBy : Requester) (r : UploadRequest)
  | uploadStream (uploadId : Str) (requestedBy : Requester) (stream : ClientStream)
  | getUpload (uploadId : Str) (requestedBy : Requester)
  | finalize (uploadId : Str) (requestedBy : Requester) (reportedSha256 : Str)
  | read (ref : ArtifactRef) (requestedBy : Requester) (maximum : Int) (granted : List Str)

inductive ArtifactResult where
  | session (session : UploadSession)
  | done
  | ref (ref : ArtifactRef)
  | data (data : Bytes)

def runArtifact : ArtifactCall → ArtifactProgram ArtifactResult
  | .createUpload requestedBy r => do
    return .session (← ArtifactService.createUpload requestedBy r)
  | .uploadStream uploadId requestedBy stream => do
    ArtifactService.uploadStream sha256 uploadId requestedBy stream
    return .done
  | .getUpload uploadId requestedBy => do
    return .session (← ArtifactService.getUpload uploadId requestedBy)
  | .finalize uploadId requestedBy reportedSha256 => do
    return .ref (← ArtifactService.finalize artifactIdOf uploadId requestedBy reportedSha256)
  | .read ref requestedBy maximum granted => do
    return .data (← ArtifactService.read sha256 shared ref requestedBy maximum granted)

end

end Ai00.Capability.Artifacts
