import Ai00.Capability.ArtifactRuns

/-! # Uploaded artifacts keep their objects

A step of a run changes the store and the files in the ways that `StoreMoves` and `Touches` name.
As long as an upload removes only what it has created, a session marked uploaded or completed has
its object, an artifact record points to such an object, an upload has one artifact, and a stored
object stays (`promises_kept`). An upload whose own `open` has failed goes on to remove the path if
a file is there, and takes the object of another upload away (`race_breaks_promise`).
-/

namespace Ai00.Capability.Artifacts

open Program

variable {sha256 : Bytes → Str} {artifactIdOf : Str → Str}
  {shared : ArtifactRecord → Requester → Bool} {env : ArtifactEnvironment}

/-! ## One answered request -/

variable {s s' : ArtifactState}

variable {α : Type}

theorem onStore_answer {call : InMemoryArtifactStore → Except ArtifactError (α × InMemoryArtifactStore)}
    {x : Except ArtifactError α} (h : onStore env s call = (x, s')) :
    s'.files = s.files ∧ (∀ a, x = .ok a → call s.store = .ok (a, s'.store))
      ∧ ∀ e, x = .error e → s'.store = s.store := by
  unfold onStore at h
  split at h
  · cases h
    exact ⟨rfl, nofun, fun _ _ => rfl⟩
  · split at h
    · rename_i hcall
      cases h
      exact ⟨rfl, fun | _, rfl => hcall, nofun⟩
    · cases h
      exact ⟨rfl, nofun, fun _ _ => rfl⟩

theorem onStore_eq_ok {call : InMemoryArtifactStore → Except ArtifactError (α × InMemoryArtifactStore)} {a : α}
    (h : onStore env s call = (.ok a, s')) : s'.files = s.files ∧ call s.store = .ok (a, s'.store) :=
  ⟨(onStore_answer h).1, (onStore_answer h).2.1 a rfl⟩

theorem onStore_eq_error {call : InMemoryArtifactStore → Except ArtifactError (α × InMemoryArtifactStore)}
    {e : ArtifactError} (h : onStore env s call = (.error e, s')) :
    s'.files = s.files ∧ s'.store = s.store :=
  ⟨(onStore_answer h).1, (onStore_answer h).2.2 e rfl⟩

theorem onFiles_cases {operate : FileSystem Path UInt8 → Except FileError α × FileSystem Path UInt8}
    {fails : Nat → FileSystem Path UInt8 → FileSystem Path UInt8}
    {x : Except ArtifactError (Except FileError α)}
    (h : onFiles env s operate fails = (x, s')) :
    s'.store = s.store ∧ ((∃ n, x = .ok (.error .osError) ∧ s'.files = fails n s.files) ∨
      x = .ok (operate s.files).1 ∧ s'.files = (operate s.files).2) := by
  unfold onFiles at h
  cases hfault : env.faults s.steps with
  | some n =>
    rw [hfault] at h
    cases h
    exact ⟨rfl, Or.inl ⟨n, rfl, rfl⟩⟩
  | none =>
    rw [hfault] at h
    cases h
    exact ⟨rfl, Or.inr ⟨rfl, rfl⟩⟩

variable {r : ArtifactAction}

/-- A request that fails leaves everything as it is. -/
theorem handle_eq_error {e : ArtifactError}
    (h : handleArtifact env r s = (.error e, s')) : s'.files = s.files ∧ s'.store = s.store := by
  unfold handleArtifact at h
  cases r with
  | now => cases h
  | uuid => cases h
  | createUpload session => exact onStore_eq_error h
  | getUpload uploadId => exact onStore_eq_error h
  | markUploaded uploadId sha size => exact onStore_eq_error h
  | finalize uploadId record => exact onStore_eq_error h
  | getArtifact artifactId => exact onStore_eq_error h
  | _ =>
    rcases (onFiles_cases h).2 with ⟨n, hx, -⟩ | ⟨hx, -⟩
    · cases hx
    · cases hx

/-- An operation that leaves the files, whether it succeeds or not. -/
theorem onFiles_quiet
    {operate : FileSystem Path UInt8 → Except FileError α × FileSystem Path UInt8} {a : Except FileError α}
    (hoperate : ∀ fs, (operate fs).2 = fs)
    (h : onFiles env s operate (fun _ fs => fs) = (.ok a, s')) : s'.files = s.files := by
  rcases (onFiles_cases h).2 with ⟨n, -, hfiles⟩ | ⟨-, hfiles⟩
  · exact hfiles
  · rw [hfiles, hoperate]

variable {past : History}

variable {a : r.Answer}

/-- **What an answered request does to the files.** -/
theorem handle_touches (hsends : Sends sha256 artifactIdOf past r)
    (hown : ∀ path, r = .unlink path → ∃ file, .opened path file ∈ events past)
    (h : handleArtifact env r s = (.ok a, s')) :
    Touches s.files (events past) (fileEvent ⟨r, a⟩) s'.files := by
  have quiet : ∀ {e}, Quiet e → s'.files = s.files → Touches s.files (events past) e s'.files := by
    intro e he hfiles
    rw [hfiles]
    exact .quiet e he
  unfold handleArtifact at h
  cases r with
  | now =>
    cases h
    exact .quiet _ trivial
  | uuid =>
    cases h
    exact .quiet _ trivial
  | createUpload session => exact quiet trivial (onStore_eq_ok h).1
  | getUpload uploadId => exact quiet trivial (onStore_eq_ok h).1
  | markUploaded uploadId sha size => exact quiet trivial (onStore_eq_ok h).1
  | finalize uploadId record => exact quiet trivial (onStore_eq_ok h).1
  | getArtifact artifactId => exact quiet trivial (onStore_eq_ok h).1
  | mkdir path => exact quiet trivial (onFiles_quiet (fun _ => rfl) h)
  | readVerified => exact quiet trivial (onFiles_quiet (fun _ => rfl) h)
  | discard file => exact quiet trivial (onFiles_quiet (fun _ => rfl) h)
  | pathExists path => exact quiet trivial (onFiles_quiet (fun _ => rfl) h)
  | openRead path =>
    refine quiet trivial (onFiles_quiet (fun fs => ?_) h)
    cases fs.entry path <;> rfl
  | readFile file maximum => exact quiet trivial (onFiles_quiet (fun _ => rfl) h)
  | openNew path =>
    rcases (onFiles_cases h).2 with ⟨n, hx, hfiles⟩ | ⟨hx, hfiles⟩
    · cases hx
      exact quiet trivial hfiles
    · cases hentry : s.files.entry path with
      | some file =>
        simp only [hentry] at hx hfiles
        cases hx
        exact quiet trivial hfiles
      | none =>
        simp only [hentry] at hx hfiles
        cases hx
        rw [hfiles]
        exact .opened path hentry hsends.1 hsends.2
  | write file bytes =>
    rcases (onFiles_cases h).2 with ⟨n, hx, hfiles⟩ | ⟨hx, hfiles⟩
    · cases hx
      rw [hfiles]
      exact .spoiled file _ hsends
    · cases hx
      rw [hfiles]
      exact .wrote file bytes hsends
  | close file =>
    rcases (onFiles_cases h).2 with ⟨n, hx, hfiles⟩ | ⟨hx, hfiles⟩
    · cases hx
      rw [hfiles]
      exact .spoiled file _ hsends
    · cases hx
      rw [hfiles]
      exact .closed file hsends
  | unlink path =>
    obtain ⟨file, hopened⟩ := hown path rfl
    rcases (onFiles_cases h).2 with ⟨n, -, hfiles⟩ | ⟨-, hfiles⟩
    · rw [hfiles]
      exact .kept path hsends.1
    · cases hentry : s.files.entry path with
      | none =>
        simp only [hentry] at hfiles
        rw [hfiles]
        exact .kept path hsends.1
      | some found =>
        simp only [hentry] at hfiles
        rw [hfiles]
        exact .removed path file hopened hsends.1 hsends.2

/-- An upload that has stored its object stays that way. -/
theorem Touches.stored {files files' : FileSystem Path UInt8} {es : List FileEvent} {e : FileEvent}
    {path : Path} {file : Nat} (ht : Touches files es e files') (h : Stored es path file) :
    Stored (es ++ [e]) path file ∧ written (es ++ [e]) = written es := by
  cases ht with
  | quiet e he =>
    refine ⟨⟨List.mem_append_left _ h.opened, List.mem_append_left _ h.closed, ?_, ?_⟩, written_quiet he⟩
    · exact fun hf => (mem_append_event.mp hf).elim h.unfailed (by rintro rfl; exact he)
    · exact fun p hp => (mem_append_event.mp hp).elim (h.present p) (by rintro rfl; exact he)
  | opened path' _ hfirst _ => exact absurd h.opened (hfirst path file)
  | wrote _ _ hwriting => exact absurd h.closed (hwriting.unclosed file)
  | spoiled _ _ hwriting => exact absurd h.closed (hwriting.unclosed file)
  | closed _ hwriting => exact absurd h.closed (hwriting.unclosed file)
  | kept _ hopen => exact absurd h.closed (hopen file)
  | removed _ _ _ hopen _ => exact absurd h.closed (hopen file)

/-! ## The store -/

def UploadSession.Promised (session : UploadSession) : Prop :=
  session.status = .uploaded ∨ session.status = .completed

/-- What later versions of a session keep. -/
structure UploadSession.Advances (old new : UploadSession) : Prop where
  uploadId : new.uploadId = old.uploadId
  objectKey : new.objectKey = old.objectKey
  promised : old.Promised → new.Promised ∧ new.uploadedSha256 = old.uploadedSha256 ∧
    new.uploadedByteSize = old.uploadedByteSize

theorem UploadSession.Advances.refl (session : UploadSession) : session.Advances session :=
  ⟨rfl, rfl, fun h => ⟨h, rfl, rfl⟩⟩

theorem UploadSession.Advances.trans {a b c : UploadSession} (h : a.Advances b) (h' : b.Advances c) :
    a.Advances c where
  uploadId := h'.uploadId.trans h.uploadId
  objectKey := h'.objectKey.trans h.objectKey
  promised := fun ha =>
    have hb := h.promised ha
    have hc := h'.promised hb.1
    ⟨hc.1, hc.2.1.trans hb.2.1, hc.2.2.trans hb.2.2⟩

/-- A session whose identifier and key are as `create_upload` makes them. -/
def UploadSession.Named (session : UploadSession) : Prop :=
  ∃ uuid, (∀ c ∈ uuid, c ≠ '/') ∧ session.uploadId = "upload_".toList ++ uuid ∧
    session.objectKey = Artifacts.objectKey session.tenantId session.uploadId

/-- The record is that of the completed session. -/
structure ArtifactRecord.Of (artifactIdOf : Str → Str) (record : ArtifactRecord)
    (session : UploadSession) : Prop where
  artifactId : record.artifactRef.artifactId = artifactIdOf session.uploadId
  objectKey : record.objectKey = session.objectKey
  sha256 : session.uploadedSha256 = some record.artifactRef.sha256
  byteSize : session.uploadedByteSize = some record.artifactRef.byteSize

variable (sha256 artifactIdOf) in
/-- What one answered request does to the store, for a call with the history `es`. -/
inductive StoreMoves (store : InMemoryArtifactStore) (es : List FileEvent) :
    InMemoryArtifactStore → Prop
  | same : StoreMoves store es store
  | created (session : UploadSession) (hnew : store.upload session.uploadId = none)
      (hpending : session.status = .pending) (hnamed : session.Named) :
      StoreMoves store es (store.setUpload session)
  | marked (session : UploadSession) (path : Path) (file : Nat)
      (hfound : store.upload session.uploadId = some session) (hpending : session.status = .pending)
      (hpath : pathFor session.objectKey = .ok path) (hstored : Stored es path file) :
      StoreMoves store es
        (store.setUpload (session.uploadedAs (sha256 (written es)) (written es).length))
  | finalized (session : UploadSession) (record : ArtifactRecord)
      (hfound : store.upload session.uploadId = some session)
      (huploaded : session.status = .uploaded) (hof : record.Of artifactIdOf session) :
      StoreMoves store es
        { uploads := KeyedRows.upsert (·.uploadId)
            (session.completedAs record.artifactRef.artifactId) store.uploads
          artifacts := KeyedRows.upsert (·.artifactRef.artifactId) record store.artifacts }

variable (sha256 artifactIdOf) in
/-- The store against the histories of the calls. -/
structure StoreSound (store : InMemoryArtifactStore) (hs : List (List FileEvent)) : Prop where
  uploadKeys : (store.uploads.map (·.uploadId)).Nodup
  artifactKeys : (store.artifacts.map (·.artifactRef.artifactId)).Nodup
  named : ∀ session ∈ store.uploads, session.Named
  marked : ∀ session ∈ store.uploads, session.Promised → ∃ es ∈ hs, ∃ path file,
    pathFor session.objectKey = .ok path ∧ Stored es path file ∧
      session.uploadedSha256 = some (sha256 (written es)) ∧
      session.uploadedByteSize = some ((written es).length : Int)
  records : ∀ record ∈ store.artifacts, ∃ session ∈ store.uploads, session.status = .completed ∧
    record.Of artifactIdOf session

section

variable {store store' : InMemoryArtifactStore} {hs : List (List FileEvent)}
  {files files' : FileSystem Path UInt8} {es : List FileEvent} {e : FileEvent} {i : Nat}

theorem upload_setUpload {session : UploadSession} {uploadId : Str} :
    (store.setUpload session).upload uploadId
      = if session.uploadId = uploadId then some session else store.upload uploadId :=
  KeyedRows.lookup_upsert

theorem mem_uploads_of_upload {session : UploadSession} {uploadId : Str}
    (h : store.upload uploadId = some session) : session ∈ store.uploads := KeyedRows.mem_of_lookup h

/-- A replaced session is found in its new form, the others as they were. -/
theorem advances_upsert {old session : UploadSession} (new : UploadSession)
    (hfound : store.upload old.uploadId = some old) (hadv : old.Advances new) {uploadId : Str}
    (h : store.upload uploadId = some session) :
    ∃ session', KeyedRows.lookup (·.uploadId) uploadId (KeyedRows.upsert (·.uploadId) new store.uploads)
      = some session' ∧ session.Advances session' := by
  rw [KeyedRows.lookup_upsert]
  by_cases hid : new.uploadId = uploadId
  · rw [if_pos hid]
    rw [← hid, hadv.uploadId, hfound] at h
    obtain rfl := Option.some_injective _ h
    exact ⟨new, rfl, hadv⟩
  · rw [if_neg hid]
    exact ⟨session, h, .refl session⟩

theorem createUpload_advances {new session : UploadSession} {result : UploadSession} {uploadId : Str}
    (h : store.createUpload new = .ok (result, store'))
    (hfound : store.upload uploadId = some session) :
    ∃ session', store'.upload uploadId = some session' ∧ session.Advances session' := by
  unfold InMemoryArtifactStore.createUpload at h
  split_ifs at h with hsome
  cases h
  refine ⟨session, ?_, .refl session⟩
  rw [upload_setUpload, if_neg]
  · exact hfound
  · rintro rfl
    exact hsome (by rw [hfound]; rfl)

theorem markUploaded_advances {session : UploadSession} {result : UploadSession}
    {markedId sha uploadId : Str} {size : Int}
    (h : store.markUploaded markedId sha size = .ok (result, store'))
    (hfound : store.upload uploadId = some session) :
    ∃ session', store'.upload uploadId = some session' ∧ session.Advances session' := by
  unfold InMemoryArtifactStore.markUploaded at h
  cases hold : store.upload markedId with
  | none =>
    rw [hold] at h
    cases h
  | some old =>
    simp only [hold] at h
    split_ifs at h with huploaded hconflict hpending
    · cases h
      exact ⟨session, hfound, .refl session⟩
    · cases h
      obtain rfl : old.uploadId = markedId := KeyedRows.key_of_lookup hold
      refine advances_upsert (old.uploadedAs sha size) hold ⟨rfl, rfl, fun hpromised => ?_⟩ hfound
      rcases hpromised with hp | hp <;> rw [not_not.mp hpending] at hp <;> cases hp

theorem finalize_advances {session : UploadSession} {record result : ArtifactRecord}
    {finalizedId uploadId : Str} (h : store.finalize finalizedId record = .ok (result, store'))
    (hfound : store.upload uploadId = some session) :
    ∃ session', store'.upload uploadId = some session' ∧ session.Advances session' := by
  unfold InMemoryArtifactStore.finalize at h
  cases hold : store.upload finalizedId with
  | none =>
    rw [hold] at h
    cases h
  | some old =>
    simp only [hold] at h
    split_ifs at h with hcompleted hother huploaded
    · cases hexisting : store.artifact record.artifactRef.artifactId with
      | none =>
        rw [hexisting] at h
        cases h
      | some existing =>
        rw [hexisting] at h
        cases h
        exact ⟨session, hfound, .refl session⟩
    · cases h
      obtain rfl : old.uploadId = finalizedId := KeyedRows.key_of_lookup hold
      exact advances_upsert (old.completedAs _) hold ⟨rfl, rfl, fun _ => ⟨Or.inr rfl, rfl, rfl⟩⟩ hfound

theorem stored_step (hi : hs[i]? = some es) (ht : Touches files es e files') {es' : List FileEvent}
    {path : Path} {file : Nat} (hes : es' ∈ hs) (h : Stored es' path file) :
    ∃ es'' ∈ hs.set i (es ++ [e]), Stored es'' path file ∧ written es'' = written es' := by
  obtain ⟨j, hj⟩ := List.mem_iff_getElem?.mp hes
  by_cases hij : i = j
  · subst hij
    obtain rfl := Option.some_injective _ (hi.symm.trans hj)
    obtain ⟨hstored, hwritten⟩ := ht.stored h
    exact ⟨_, List.mem_set (List.getElem?_eq_some_iff.mp hi).1 _, hstored, hwritten⟩
  · refine ⟨es', List.mem_iff_getElem?.mpr ⟨j, ?_⟩, h, rfl⟩
    rw [List.getElem?_set_ne hij]
    exact hj

theorem StoreSound.found (h : StoreSound sha256 artifactIdOf store hs) {session : UploadSession}
    (hmem : session ∈ store.uploads) : store.upload session.uploadId = some session :=
  KeyedRows.lookup_of_mem h.uploadKeys hmem

theorem StoreSound.same_of_uploadId (h : StoreSound sha256 artifactIdOf store hs)
    {session other : UploadSession} (hfound : store.upload session.uploadId = some session)
    (hother : other ∈ store.uploads) (hid : session.uploadId = other.uploadId) : session = other := by
  rw [hid, h.found hother] at hfound
  exact (Option.some_injective _ hfound).symm

theorem StoreSound.begin (h : StoreSound sha256 artifactIdOf store hs) :
    StoreSound sha256 artifactIdOf store (hs ++ [[]]) := by
  refine ⟨h.uploadKeys, h.artifactKeys, h.named, fun session hmem hpromised => ?_, h.records⟩
  obtain ⟨es, hes, hrest⟩ := h.marked session hmem hpromised
  exact ⟨es, List.mem_append_left _ hes, hrest⟩

/-- **An answered request of any call keeps store and histories sound.** -/
theorem StoreSound.step (h : StoreSound sha256 artifactIdOf store hs) (hi : hs[i]? = some es)
    (ht : Touches files es e files') (hmoves : StoreMoves sha256 artifactIdOf store es store') :
    StoreSound sha256 artifactIdOf store' (hs.set i (es ++ [e])) := by
  have hmarked : ∀ session ∈ store.uploads, session.Promised → ∃ es' ∈ hs.set i (es ++ [e]),
      ∃ path file, pathFor session.objectKey = .ok path ∧ Stored es' path file ∧
        session.uploadedSha256 = some (sha256 (written es')) ∧
        session.uploadedByteSize = some ((written es').length : Int) := by
    intro session hmem hpromised
    obtain ⟨es', hes, path, file, hpath, hstored, hsha, hsize⟩ := h.marked session hmem hpromised
    obtain ⟨es'', hes', hstored', hwritten⟩ := stored_step hi ht hes hstored
    exact ⟨es'', hes', path, file, hpath, hstored', hwritten ▸ hsha, hwritten ▸ hsize⟩
  cases hmoves with
  | same => exact ⟨h.uploadKeys, h.artifactKeys, h.named, hmarked, h.records⟩
  | created session hnew hpending hnamed =>
    refine ⟨KeyedRows.nodup_upsert h.uploadKeys, h.artifactKeys, ?_, ?_, ?_⟩
    · intro other hother
      rcases KeyedRows.mem_upsert hother with rfl | hother
      · exact hnamed
      · exact h.named other hother
    · intro other hother hpromised
      rcases KeyedRows.mem_upsert hother with rfl | hother
      · rcases hpromised with hp | hp <;> rw [hpending] at hp <;> cases hp
      · exact hmarked other hother hpromised
    · intro record hrecord
      obtain ⟨other, hother, hcompleted, hof⟩ := h.records record hrecord
      refine ⟨other, KeyedRows.mem_upsert_of_ne hother ?_, hcompleted, hof⟩
      intro heq
      rw [← heq, h.found hother] at hnew
      cases hnew
  | marked session path file hfound hpending hpath hstored =>
    refine ⟨KeyedRows.nodup_upsert h.uploadKeys, h.artifactKeys, ?_, ?_, ?_⟩
    · intro other hother
      rcases KeyedRows.mem_upsert hother with rfl | hother
      · exact h.named session (mem_uploads_of_upload hfound)
      · exact h.named other hother
    · intro other hother hpromised
      rcases KeyedRows.mem_upsert hother with rfl | hother
      · obtain ⟨es'', hes', hstored', hwritten⟩ :=
          stored_step hi ht (List.mem_of_getElem? hi) hstored
        exact ⟨es'', hes', path, file, hpath, hstored', by rw [hwritten]; rfl, by rw [hwritten]; rfl⟩
      · exact hmarked other hother hpromised
    · intro record hrecord
      obtain ⟨other, hother, hcompleted, hof⟩ := h.records record hrecord
      refine ⟨other, KeyedRows.mem_upsert_of_ne hother fun heq => ?_, hcompleted, hof⟩
      have hsame : session = other := h.same_of_uploadId hfound hother heq.symm
      rw [← hsame, hpending] at hcompleted
      cases hcompleted
  | finalized session record hfound huploaded hof =>
    refine ⟨KeyedRows.nodup_upsert h.uploadKeys, KeyedRows.nodup_upsert h.artifactKeys, ?_, ?_, ?_⟩
    · intro other hother
      rcases KeyedRows.mem_upsert hother with rfl | hother
      · exact h.named session (mem_uploads_of_upload hfound)
      · exact h.named other hother
    · intro other hother hpromised
      rcases KeyedRows.mem_upsert hother with rfl | hother
      · exact hmarked session (mem_uploads_of_upload hfound) (Or.inl huploaded)
      · exact hmarked other hother hpromised
    · intro other hother
      rcases KeyedRows.mem_upsert hother with rfl | hother
      · exact ⟨session.completedAs other.artifactRef.artifactId, KeyedRows.mem_upsert_self, rfl,
          hof.artifactId, hof.objectKey, hof.sha256, hof.byteSize⟩
      · obtain ⟨old, hold, hcompleted, hof'⟩ := h.records other hother
        refine ⟨old, KeyedRows.mem_upsert_of_ne hold fun heq => ?_, hcompleted, hof'⟩
        have hsame : session = old := h.same_of_uploadId hfound hold heq.symm
        rw [← hsame, huploaded] at hcompleted
        cases hcompleted

end

variable {session : UploadSession}

variable {uploadId : Str}

theorem onStore_advances {call : InMemoryArtifactStore → Except ArtifactError (α × InMemoryArtifactStore)}
    {x : Except ArtifactError α}
    (hcall : ∀ a store', call s.store = .ok (a, store') →
      ∃ session', store'.upload uploadId = some session' ∧ session.Advances session')
    (h : onStore env s call = (x, s')) (hfound : s.store.upload uploadId = some session) :
    ∃ session', s'.store.upload uploadId = some session' ∧ session.Advances session' := by
  cases x with
  | error e =>
    rw [(onStore_eq_error h).2]
    exact ⟨session, hfound, .refl session⟩
  | ok a => exact hcall a s'.store (onStore_eq_ok h).2

/-- **Sessions only advance**, whatever the request is. -/
theorem handle_advances {x : Except ArtifactError r.Answer} (h : handleArtifact env r s = (x, s'))
    (hfound : s.store.upload uploadId = some session) :
    ∃ session', s'.store.upload uploadId = some session' ∧ session.Advances session' := by
  have same : s'.store = s.store →
      ∃ session', s'.store.upload uploadId = some session' ∧ session.Advances session' := by
    intro hstore
    rw [hstore]
    exact ⟨session, hfound, .refl session⟩
  unfold handleArtifact at h
  cases r with
  | now =>
    cases h
    exact same rfl
  | uuid =>
    cases h
    exact same rfl
  | createUpload new =>
    exact onStore_advances (fun _ _ hcall => createUpload_advances hcall hfound) h hfound
  | getUpload id =>
    refine onStore_advances (fun a store' hcall => ?_) h hfound
    split at hcall
    · cases hcall
      exact ⟨session, hfound, .refl session⟩
    · cases hcall
  | markUploaded id sha size =>
    exact onStore_advances (fun _ _ hcall => markUploaded_advances hcall hfound) h hfound
  | finalize id record =>
    exact onStore_advances (fun _ _ hcall => finalize_advances hcall hfound) h hfound
  | getArtifact id =>
    refine onStore_advances (fun a store' hcall => ?_) h hfound
    split at hcall
    · cases hcall
      exact ⟨session, hfound, .refl session⟩
    · cases hcall
  | _ => exact same (onFiles_cases h).1

/-! ## Runs -/

abbrev ArtifactWorld :=
  World ArtifactState ArtifactCall ArtifactAction.Answer ArtifactError ArtifactResult

/-- The histories of the calls in flight. -/
def histories (w : ArtifactWorld) : List (List FileEvent) := w.threads.map (fun t => events t.history)

variable (sha256 artifactIdOf shared env) in
abbrev ArtifactStep :=
  Step (runArtifact sha256 artifactIdOf shared) (handleArtifact env) (fun _ _ => False)

variable (sha256 artifactIdOf shared env) in
abbrev ArtifactRun :=
  Run (runArtifact sha256 artifactIdOf shared) (handleArtifact env) (fun _ _ => False)

/-- No upload removes a path that it has not created itself. -/
def removesOwn (w : ArtifactWorld) : Event ArtifactAction → Bool
  | .requests i (.unlink path) =>
    ((histories w)[i]?.getD []).any fun e =>
      match e with
      | .opened path' _ => path' = path
      | _ => false
  | _ => true

theorem opened_of_removesOwn {w : ArtifactWorld} {i : Nat} {path : Path} {es : List FileEvent}
    (h : removesOwn w (.requests i (.unlink path)) = true) (hi : (histories w)[i]? = some es) :
    ∃ file, .opened path file ∈ es := by
  rw [removesOwn, hi, Option.getD_some, List.any_eq_true] at h
  obtain ⟨e, he, hpath⟩ := h
  cases e with
  | opened path' file =>
    obtain rfl : path' = path := by simpa using hpath
    exact ⟨file, he⟩
  | _ => simp at hpath

/-- What an answer has shown of the store. -/
def Shows (x : Exchange ArtifactAction.Answer) (w : ArtifactWorld) : Prop :=
  (∀ uploadId session, fileEvent x = .looked uploadId session →
    session.uploadId = uploadId ∧ ∃ current, w.state.store.upload uploadId = some current ∧
      session.Advances current) ∧
  ∀ uuid, fileEvent x = .drew uuid → ∀ c ∈ uuid, c ≠ '/'

variable (sha256 artifactIdOf) in
structure WorldSound (w : ArtifactWorld) : Prop where
  files : FilesSound w.state.files (histories w)
  store : StoreSound sha256 artifactIdOf w.state.store (histories w)

/-- **What an answered request does to the store.** -/
theorem handle_store {hs : List (List FileEvent)} (hsound : StoreSound sha256 artifactIdOf s.store hs)
    (hsends : Sends sha256 artifactIdOf past r)
    (hlooked : ∀ uploadId session, .looked uploadId session ∈ events past →
      session.uploadId = uploadId ∧ ∃ current, s.store.upload uploadId = some current ∧ session.Advances current)
    (hdrew : ∀ uuid, .drew uuid ∈ events past → ∀ c ∈ uuid, c ≠ '/')
    (h : handleArtifact env r s = (.ok a, s')) :
    StoreMoves sha256 artifactIdOf s.store (events past) s'.store := by
  unfold handleArtifact at h
  have quiet : s'.store = s.store → StoreMoves sha256 artifactIdOf s.store (events past) s'.store := by
    intro hstore
    rw [hstore]
    exact .same
  cases r with
  | now =>
    cases h
    exact .same
  | uuid =>
    cases h
    exact .same
  | createUpload session =>
    have hcall := (onStore_eq_ok h).2
    unfold InMemoryArtifactStore.createUpload at hcall
    split_ifs at hcall with hsome
    obtain ⟨hpending, uuid, hmem, hid, hkey⟩ := hsends
    rw [← (Prod.mk.inj (Except.ok.inj hcall)).2]
    refine .created session ?_ hpending ⟨uuid, hdrew uuid hmem, hid, hkey⟩
    simpa using hsome
  | getUpload uploadId =>
    have hcall := (onStore_eq_ok h).2
    cases hfound : s.store.upload uploadId with
    | none =>
      simp only [hfound] at hcall
      cases hcall
    | some session =>
      simp only [hfound] at hcall
      exact quiet (Prod.mk.inj (Except.ok.inj hcall)).2.symm
  | markUploaded uploadId sha size =>
    have hcall := (onStore_eq_ok h).2
    obtain ⟨session, path, file, hmem, hpath, hstored, rfl, rfl⟩ := hsends
    obtain ⟨rfl, current, hfound, hadv⟩ := hlooked uploadId session hmem
    simp only [InMemoryArtifactStore.markUploaded, hfound] at hcall
    split_ifs at hcall with huploaded hconflict hpending
    · exact quiet (Prod.mk.inj (Except.ok.inj hcall)).2.symm
    · rw [← (Prod.mk.inj (Except.ok.inj hcall)).2]
      refine .marked current path file ?_ (not_not.mp hpending) ?_ hstored
      · rwa [hadv.uploadId]
      · rwa [hadv.objectKey]
  | finalize uploadId record =>
    have hcall := (onStore_eq_ok h).2
    obtain ⟨session, createdAt, hmem, hstatus, rfl⟩ := hsends
    obtain ⟨rfl, current, hfound, hadv⟩ := hlooked uploadId session hmem
    simp only [InMemoryArtifactStore.finalize, hfound] at hcall
    split_ifs at hcall with hcompleted hother huploaded
    · cases hexisting : s.store.artifact
          (ArtifactService.recordOf artifactIdOf session createdAt).artifactRef.artifactId with
      | none =>
        rw [hexisting] at hcall
        cases hcall
      | some existing =>
        rw [hexisting] at hcall
        exact quiet (Prod.mk.inj (Except.ok.inj hcall)).2.symm
    · rw [← (Prod.mk.inj (Except.ok.inj hcall)).2]
      obtain ⟨-, hsha, hsize⟩ := hadv.promised (Or.inl hstatus)
      obtain ⟨_, _, _, _, _, _, hsha', hsize'⟩ :=
        hsound.marked current (mem_uploads_of_upload hfound) (Or.inl (not_not.mp huploaded))
      refine .finalized current _ (by rwa [hadv.uploadId]) (not_not.mp huploaded) ?_
      refine ⟨?_, ?_, ?_, ?_⟩
      · exact congrArg artifactIdOf hadv.uploadId.symm
      · exact hadv.objectKey.symm
      · rw [hsha'] at hsha ⊢
        exact congrArg some (by rw [ArtifactService.recordOf, ← hsha, Option.getD_some])
      · rw [hsize'] at hsize ⊢
        exact congrArg some (by rw [ArtifactService.recordOf, ← hsize, Option.getD_some])
  | getArtifact artifactId =>
    have hcall := (onStore_eq_ok h).2
    cases hfound : s.store.artifact artifactId with
    | none =>
      simp only [hfound] at hcall
      cases hcall
    | some record =>
      simp only [hfound] at hcall
      exact quiet (Prod.mk.inj (Except.ok.inj hcall)).2.symm
  | _ => exact quiet (onFiles_cases h).1

section

variable {allowed : ArtifactWorld → Event ArtifactAction → Prop} {w w' : ArtifactWorld}
  {e : Event ArtifactAction}

variable {x : Exchange ArtifactAction.Answer}

theorem histories_answer (w : ArtifactWorld) (s : ArtifactState) {i : Nat} {c : ArtifactCall}
    {p' : ArtifactProgram ArtifactResult}
    (trace : History) :
    histories ⟨s, trace, w.threads.set i ⟨c, past ++ [x], p'⟩⟩
      = (histories w).set i (events past ++ [fileEvent x]) := by
  unfold histories
  rw [List.map_set, events_append]

theorem histories_refuse (w : ArtifactWorld) (s : ArtifactState) {i : Nat} {c : ArtifactCall}
    {p p' : ArtifactProgram ArtifactResult} (trace : History)
    (hi : w.threads[i]? = some ⟨c, past, p⟩) :
    histories ⟨s, trace, w.threads.set i ⟨c, past, p'⟩⟩ = histories w := by
  unfold histories
  rw [List.map_set]
  refine List.ext_getElem? fun j => ?_
  rw [List.getElem?_set, List.getElem?_map]
  split_ifs with hij hlen
  · rw [← hij, hi]
    rfl
  · rw [← hij, hi]
    simp only [List.length_map] at hlen
    exact absurd (List.getElem?_eq_some_iff.mp hi).1 hlen
  · rfl

theorem history_at {i : Nat} {t : Thread ArtifactCall ArtifactAction.Answer ArtifactError ArtifactResult}
    (hi : w.threads[i]? = some t) : (histories w)[i]? = some (events t.history) := by
  rw [histories, List.getElem?_map, hi]
  rfl

variable (sha256 artifactIdOf env) in
/-- A step begins a call, answers a request or lets one fail. -/
inductive StepShape (w : ArtifactWorld) : Event ArtifactAction → ArtifactWorld → Prop
  | begins (w' : ArtifactWorld) (hstate : w'.state = w.state)
      (hhistories : histories w' = histories w ++ [[]]) (htrace : w'.trace = w.trace) :
      StepShape w .begins w'
  | fails (e : Event ArtifactAction) (w' : ArtifactWorld)
      (hfiles : w'.state.files = w.state.files) (hstore : w'.state.store = w.state.store)
      (hhistories : histories w' = histories w) (htrace : w'.trace = w.trace) : StepShape w e w'
  | answers (w' : ArtifactWorld) (i : Nat) (r : ArtifactAction) (a : r.Answer) (past : History)
      (hi : (histories w)[i]? = some (events past)) (hpast : ∃ t ∈ w.threads, t.history = past)
      (hsends : Sends sha256 artifactIdOf past r)
      (hr : handleArtifact env r w.state = (.ok a, w'.state))
      (hhistories : histories w' = (histories w).set i (events past ++ [fileEvent ⟨r, a⟩]))
      (htrace : w'.trace = w.trace ++ [⟨r, a⟩]) : StepShape w (.requests i r) w'

theorem step_shape {w₀ : ArtifactState}
    (hrun : ArtifactRun sha256 artifactIdOf shared env allowed (World.initial w₀) w)
    (h : ArtifactStep sha256 artifactIdOf shared env w e w') :
    StepShape sha256 artifactIdOf env w e w' := by
  cases h with
  | begin c => exact .begins _ rfl (List.map_append ..) rfl
  | outside s h => exact h.elim
  | answer i c past r g k a s hi hr =>
    exact .answers _ i r a past (history_at hi) ⟨_, List.mem_of_getElem? hi, rfl⟩
      (hrun.request (run_meets sha256 artifactIdOf shared) hi) hr (histories_answer ..) rfl
  | refuse i c past r g k err s hi hr =>
    obtain ⟨hfiles, hstore⟩ := handle_eq_error hr
    exact .fails _ _ hfiles hstore (histories_refuse _ _ _ hi) rfl

/-- What the exchanges of a call have shown, in terms of its events. -/
theorem looked_of_shows (h : ∀ x ∈ past, Shows x w) :
    (∀ uploadId session, .looked uploadId session ∈ events past →
      session.uploadId = uploadId ∧ ∃ current, w.state.store.upload uploadId = some current ∧
        session.Advances current) ∧
    ∀ uuid, .drew uuid ∈ events past → ∀ c ∈ uuid, c ≠ '/' := by
  constructor
  · intro uploadId session hmem
    obtain ⟨x, hx, heq⟩ := List.mem_map.mp hmem
    exact (h x hx).1 uploadId session heq
  · intro uuid hmem
    obtain ⟨x, hx, heq⟩ := List.mem_map.mp hmem
    exact (h x hx).2 uuid heq

theorem answers_effect (hsound : WorldSound sha256 artifactIdOf w)
    (hshows : ∀ t ∈ w.threads, ∀ x ∈ t.history, Shows x w) {i : Nat}
    (hi : (histories w)[i]? = some (events past))
    (hpast : ∃ t ∈ w.threads, t.history = past) (hsends : Sends sha256 artifactIdOf past r)
    (hown : removesOwn w (.requests i r) = true)
    (hr : handleArtifact env r w.state = (.ok a, w'.state)) :
    Touches w.state.files (events past) (fileEvent ⟨r, a⟩) w'.state.files ∧
      StoreMoves sha256 artifactIdOf w.state.store (events past) w'.state.store := by
  obtain ⟨t, ht, rfl⟩ := hpast
  obtain ⟨hlooked, hdrew⟩ := looked_of_shows (hshows t ht)
  refine ⟨handle_touches hsends ?_ hr, handle_store hsound.store hsends hlooked hdrew hr⟩
  rintro path rfl
  exact opened_of_removesOwn hown hi

theorem eq_of_looked (h : fileEvent x = .looked uploadId session) : x = ⟨.getUpload uploadId, session⟩ := by
  unfold fileEvent at h
  split at h <;> cases h
  rfl

theorem eq_of_drew {uuid : Str} (h : fileEvent x = .drew uuid) :
    x = ⟨.uuid, uuid⟩ := by
  unfold fileEvent at h
  split at h <;> cases h
  rfl

theorem getUpload_eq_ok (h : handleArtifact env (.getUpload uploadId) s = (.ok session, s')) :
    s'.store.upload uploadId = some session := by
  unfold handleArtifact at h
  obtain ⟨-, hcall⟩ := onStore_eq_ok h
  split at hcall
  · rename_i found hfound
    obtain ⟨hsession, hstore⟩ := Prod.mk.inj (Except.ok.inj hcall)
    rw [← hstore, ← hsession]
    exact hfound
  · cases hcall

theorem shows_answer {s : ArtifactState}
    {threads : List (Thread ArtifactCall ArtifactAction.Answer ArtifactError ArtifactResult)}
    {trace : History} (hr : handleArtifact env r w.state = (.ok a, s)) :
    Shows ⟨r, a⟩ ⟨s, trace, threads⟩ := by
  constructor
  · intro uploadId session heq
    cases eq_of_looked heq
    have hfound := getUpload_eq_ok hr
    exact ⟨KeyedRows.key_of_lookup hfound, session, hfound, .refl session⟩
  · intro uuid heq
    cases eq_of_drew heq
    cases hr
    exact env.uuids_hex _

theorem step_advances (h : ArtifactStep sha256 artifactIdOf shared env w e w')
    (hfound : w.state.store.upload uploadId = some session) :
    ∃ session', w'.state.store.upload uploadId = some session' ∧ session.Advances session' := by
  cases h with
  | begin c => exact ⟨session, hfound, .refl session⟩
  | outside s h => exact h.elim
  | answer i c past r g k a s hi hr => exact handle_advances hr hfound
  | refuse i c past r g k err s hi hr => exact handle_advances hr hfound

/-- **Every world that a run of such steps reaches is sound.** -/
theorem run_sound {files : FileSystem Path UInt8}
    (h : ArtifactRun sha256 artifactIdOf shared env (fun w e => removesOwn w e = true)
      (World.initial { files }) w) :
    WorldSound sha256 artifactIdOf w ∧ ∀ t ∈ w.threads, ∀ x ∈ t.history, Shows x w := by
  refine h.history (I := WorldSound sha256 artifactIdOf) ?_ (fun t ht => by cases ht) ?_ ?_ ?_
  · exact ⟨⟨nofun, nofun, nofun, nofun, nofun⟩, ⟨List.nodup_nil, List.nodup_nil, nofun, nofun, nofun⟩⟩
  · intro w e w' hrun hsound hshows hown hs
    cases step_shape hrun hs with
    | begins w' hstate hhistories _ =>
      refine ⟨?_, ?_⟩
      · rw [hstate, hhistories]
        exact hsound.files.begin
      · rw [hstate, hhistories]
        exact hsound.store.begin
    | fails e w' hfiles hstore hhistories _ =>
      refine ⟨?_, ?_⟩
      · rw [hfiles, hhistories]
        exact hsound.files
      · rw [hstore, hhistories]
        exact hsound.store
    | answers w' i r a past hi hpast hsends hr hhistories _ =>
      obtain ⟨htouches, hmoves⟩ := answers_effect hsound hshows hi hpast hsends hown hr
      refine ⟨?_, ?_⟩
      · rw [hhistories]
        exact hsound.files.step hi htouches
      · rw [hhistories]
        exact hsound.store.step hi htouches hmoves
  · intro w e w' x _ _ hs _ htrace
    cases hs with
    | begin c => simp at htrace
    | outside s h => exact h.elim
    | answer i c past r g k a s hi hr =>
      obtain rfl : (⟨r, a⟩ : Exchange ArtifactAction.Answer) = x :=
        List.singleton_injective (List.append_cancel_left htrace)
      exact shows_answer hr
    | refuse i c past r g k err s hi hr => simp at htrace
  · rintro w e w' x - ⟨hlooked, hdrew⟩ hs -
    refine ⟨fun uploadId session heq => ?_, hdrew⟩
    obtain ⟨hid, current, hfound, hadv⟩ := hlooked uploadId session heq
    obtain ⟨session', hfound', hadv'⟩ := step_advances hs hfound
    exact ⟨hid, session', hfound', hadv.trans hadv'⟩

/-! ## What is promised -/

variable (sha256) in
def HasObject (w : ArtifactWorld) (objectKey : Str) (digest : Option Str) (size : Option Int) :
    Prop :=
  ∃ path file, pathFor objectKey = .ok path ∧ w.state.files.entry path = some file ∧
    digest = some (sha256 (w.state.files.content file)) ∧
    size = some ((w.state.files.content file).length : Int)

variable (sha256) in
structure PromisesKept (w : ArtifactWorld) : Prop where
  /-- A session that is marked uploaded has its object. -/
  uploads : ∀ session ∈ w.state.store.uploads, session.Promised →
    HasObject sha256 w session.objectKey session.uploadedSha256 session.uploadedByteSize
  /-- So has an artifact. -/
  artifacts : ∀ record ∈ w.state.store.artifacts,
    HasObject sha256 w record.objectKey (some record.artifactRef.sha256)
      (some record.artifactRef.byteSize)
  /-- An upload has one artifact at most. -/
  single : ∀ session ∈ w.state.store.uploads, ∀ record ∈ w.state.store.artifacts,
    ∀ record' ∈ w.state.store.artifacts, record.objectKey = session.objectKey →
    record'.objectKey = session.objectKey → record = record'

/-- What a step leaves. -/
structure StepKeeps (w w' : ArtifactWorld) : Prop where
  /-- An object that no unfinished upload holds stays with its bytes. -/
  objects : ∀ path file, w.state.files.entry path = some file → Settled (histories w) file →
    w'.state.files.entry path = some file ∧
      w'.state.files.content file = w.state.files.content file
  /-- A session that is marked uploaded stays so, with the digest and size that are recorded. -/
  sessions : ∀ uploadId session, w.state.store.upload uploadId = some session →
    ∃ session', w'.state.store.upload uploadId = some session' ∧ session.Advances session'

theorem objectKey_eq (tenantId uploadId : Str) : objectKey tenantId uploadId
    = ("capability-artifacts/".toList ++ tenantId) ++ '/' :: uploadId := by
  unfold objectKey
  generalize "capability-artifacts/".toList = front
  rw [List.append_assoc]
  rfl

theorem takeWhile_reverse_key (front : Str) (h : ∀ c ∈ uploadId, c ≠ '/') :
    (front ++ '/' :: uploadId).reverse.takeWhile (· ≠ '/') = uploadId.reverse := by
  have hnone : ∀ c ∈ uploadId.reverse, decide (c ≠ '/') = true :=
    fun c hc => decide_eq_true (h c (List.mem_reverse.mp hc))
  rw [List.reverse_append, List.reverse_cons, List.append_assoc, List.takeWhile_append_of_pos hnone]
  simp

theorem UploadSession.Named.uploadId_hex (h : session.Named) :
    ∀ c ∈ session.uploadId, c ≠ '/' := by
  obtain ⟨uuid, hhex, hid, -⟩ := h
  have hprefixed : ∀ c ∈ "upload_".toList, c ≠ '/' := by simp
  intro c hc
  rw [hid, List.mem_append] at hc
  exact hc.elim (hprefixed c) (hhex c)

theorem uploadId_of_objectKey {session session' : UploadSession} (h : session.Named)
    (h' : session'.Named) (hkey : session.objectKey = session'.objectKey) :
    session.uploadId = session'.uploadId := by
  have hsplit : ∀ s : UploadSession, s.Named → s.objectKey
      = ("capability-artifacts/".toList ++ s.tenantId) ++ '/' :: s.uploadId := by
    rintro s ⟨_, _, _, hname⟩
    exact hname.trans (objectKey_eq s.tenantId s.uploadId)
  apply List.reverse_injective
  rw [← takeWhile_reverse_key ("capability-artifacts/".toList ++ session.tenantId) h.uploadId_hex,
    ← takeWhile_reverse_key ("capability-artifacts/".toList ++ session'.tenantId) h'.uploadId_hex,
    ← hsplit session h, ← hsplit session' h', hkey]

theorem WorldSound.kept (h : WorldSound sha256 artifactIdOf w) : PromisesKept sha256 w := by
  have huploads : ∀ session ∈ w.state.store.uploads, session.Promised →
      HasObject sha256 w session.objectKey session.uploadedSha256 session.uploadedByteSize := by
    intro session hmem hpromised
    obtain ⟨es, hes, path, file, hpath, hstored, hsha, hsize⟩ :=
      h.store.marked session hmem hpromised
    have hcontent := h.files.content hes hstored.opened hstored.unfailed
    refine ⟨path, file, hpath, h.files.entry hes hstored.opened hstored.present, ?_, ?_⟩
    · rw [hcontent, hsha]
    · rw [hcontent, hsize]
  refine ⟨huploads, ?_, ?_⟩
  · intro record hmem
    obtain ⟨session, hsession, hcompleted, hof⟩ := h.store.records record hmem
    rw [hof.objectKey, ← hof.sha256, ← hof.byteSize]
    exact huploads session hsession (Or.inr hcompleted)
  · intro session hsession record hrecord record' hrecord' hkey hkey'
    have hid : ∀ r ∈ w.state.store.artifacts, r.objectKey = session.objectKey →
        r.artifactRef.artifactId = artifactIdOf session.uploadId := by
      intro r hr hrkey
      obtain ⟨other, hother, -, hof⟩ := h.store.records r hr
      have hsame : other.uploadId = session.uploadId :=
        uploadId_of_objectKey (h.store.named other hother) (h.store.named session hsession)
          (hof.objectKey.symm.trans hrkey)
      rw [hof.artifactId, hsame]
    have hfound := KeyedRows.lookup_of_mem h.store.artifactKeys hrecord
    have hfound' := KeyedRows.lookup_of_mem h.store.artifactKeys hrecord'
    rw [hid record hrecord hkey] at hfound
    rw [hid record' hrecord' hkey', hfound] at hfound'
    exact Option.some_injective _ hfound'

/-- **Uploaded artifacts keep their objects** in every world that a run reaches in which no upload
removes a path that it has not created, whatever files were there before and whatever fails. -/
theorem promises_kept {files : FileSystem Path UInt8}
    (h : ArtifactRun sha256 artifactIdOf shared env (fun w e => removesOwn w e = true)
      (World.initial { files }) w) :
    PromisesKept sha256 w ∧ ∀ e w', removesOwn w e = true →
      ArtifactStep sha256 artifactIdOf shared env w e w' → StepKeeps w w' := by
  obtain ⟨hsound, hshows⟩ := run_sound h
  refine ⟨hsound.kept, fun e w' hown hs => ⟨?_, fun _ _ hfound => step_advances hs hfound⟩⟩
  intro path file hentry hsettled
  cases step_shape h hs with
  | begins w' hstate _ _ =>
    rw [hstate]
    exact ⟨hentry, rfl⟩
  | fails e w' hfiles _ _ _ =>
    rw [hfiles]
    exact ⟨hentry, rfl⟩
  | answers w' i r a past hi hpast hsends hr _ _ =>
    obtain ⟨htouches, -⟩ := answers_effect hsound hshows hi hpast hsends hown hr
    exact htouches.settled hsound.files hi hentry hsettled

end

/-! ## Two uploads of one session -/

def clearEnvironment : ArtifactEnvironment where
  times := fun n => n
  uuids := fun _ => ['a']
  uuids_hex := fun _ c hc => by simp_all
  faults := fun _ => none

def ann : Requester := { tenantId := ['t'], userId := some ['n'], serviceId := none }

/-- A digest for the runs below, which store a single object. -/
def sameDigest : Bytes → Str := fun _ => List.replicate 64 'a'

def noteUpload : ArtifactCall :=
  .createUpload ann
    { mediaType := "text/plain".toList
      expectedSha256 := List.replicate 64 'a'
      expectedByteSize := 1
      resourceRefs := []
      expiresIn := 60 }

def noteStream : ArtifactCall := .uploadStream "upload_a".toList ann { chunks := [[7]] }

def singleUpload : List (Move ArtifactCall) :=
  .begin noteUpload :: List.replicate 3 (.next 0) ++ .begin noteStream :: List.replicate 9 (.next 1)
    ++ .begin (.finalize "upload_a".toList ann (List.replicate 64 'a')) :: List.replicate 4 (.next 2)

/-- Two uploads look at the pending session; the second opens its path after the first is done. -/
def racingUploads : List (Move ArtifactCall) :=
  .begin noteUpload :: List.replicate 3 (.next 0) ++ .begin noteStream :: .begin noteStream ::
    List.replicate 3 (.next 1) ++ List.replicate 3 (.next 2) ++ List.replicate 6 (.next 1)
    ++ List.replicate 3 (.next 2)

theorem promises_kept_single : ∃ w : ArtifactWorld,
    w.state.store.uploads.map (·.status) = [.completed] ∧ PromisesKept sameDigest w := by
  have hmoves : ((World.initial { files := {} } : ArtifactWorld).movesIf
      (runArtifact sameDigest id fun _ _ => false) (handleArtifact clearEnvironment) removesOwn
      singleUpload).map (fun w => w.state.store.uploads.map (·.status)) = some [.completed] := by
    decide +kernel
  obtain ⟨w, hw, hstatus⟩ := Option.map_eq_some_iff.mp hmoves
  exact ⟨w, hstatus, (promises_kept (World.run_of_movesIf hw)).1⟩

theorem race_breaks_promise : ∃ w : ArtifactWorld,
    FreeRun (runArtifact sameDigest id fun _ _ => false) (handleArtifact clearEnvironment)
      (fun _ _ => False) (World.initial { files := {} }) w ∧ ¬ PromisesKept sameDigest w := by
  have hmoves : ((World.initial { files := {} } : ArtifactWorld).moves
      (runArtifact sameDigest id fun _ _ => false) (handleArtifact clearEnvironment)
      racingUploads).map (fun w => (w.state.store.uploads.map (·.status), w.state.files.entries))
        = some ([.uploaded], []) := by
    decide +kernel
  obtain ⟨w, hw, heq⟩ := Option.map_eq_some_iff.mp hmoves
  obtain ⟨hstatus, hentries⟩ := Prod.mk.inj heq
  refine ⟨w, World.run_of_moves hw, fun hkept => ?_⟩
  obtain ⟨session, hsession, huploaded⟩ := List.map_eq_singleton_iff.mp hstatus
  obtain ⟨path, file, -, hentry, -⟩ :=
    hkept.uploads session (by rw [hsession]; exact List.mem_singleton.mpr rfl) (Or.inl huploaded)
  rw [FileSystem.entry, hentries] at hentry
  cases hentry

end Ai00.Capability.Artifacts
