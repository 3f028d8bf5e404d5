import Ai00.Capability.ArtifactFiles

/-! # What the calls of the artifact service send

`Sends` says, for a call with the history `h`, which requests it may make: it opens one path and
that once, writes only to the file it has opened and not after a close, removes a path only while it
has closed nothing, and marks a session uploaded only after it has stored all the bytes it has
checked. `run_meets` follows from the code of each call.
-/

namespace Ai00.Capability.Artifacts

open Program

variable (sha256 : Bytes → Str) (artifactIdOf : Str → Str)
  (shared : ArtifactRecord → Requester → Bool)

/-! ## What the calls send -/

abbrev History := List (Exchange ArtifactAction.Answer)

def Sends (h : History) : ArtifactAction → Prop
  | .createUpload session => session.status = .pending ∧ ∃ uuid, .drew uuid ∈ events h ∧
      session.uploadId = "upload_".toList ++ uuid ∧
      session.objectKey = objectKey session.tenantId session.uploadId
  | .openNew _ => (∀ p f, .opened p f ∉ events h) ∧ written (events h) = []
  | .write file _ => Writing (events h) file
  | .close file => Writing (events h) file
  | .unlink _ => (∀ f, .closed f ∉ events h) ∧ ∀ p, .unlinked p ∉ events h
  | .markUploaded uploadId sha size => ∃ session path file, .looked uploadId session ∈ events h ∧
      pathFor session.objectKey = .ok path ∧ Stored (events h) path file ∧
      sha = sha256 (written (events h)) ∧ size = (written (events h)).length
  | .finalize uploadId record => ∃ session createdAt, .looked uploadId session ∈ events h ∧
      session.status = .uploaded ∧ record = ArtifactService.recordOf artifactIdOf session createdAt
  | _ => True

theorem events_append (h : History) (x : Exchange ArtifactAction.Answer) :
    events (h ++ [x]) = events h ++ [fileEvent x] := List.map_append

section

variable {es : List FileEvent} {e : FileEvent} {file : Nat} {path : Path}

theorem mem_append_event {e' : FileEvent} : e' ∈ es ++ [e] ↔ e' ∈ es ∨ e' = e := by
  rw [List.mem_append, List.mem_singleton]

theorem Writing.quiet (h : Writing es file) (he : Quiet e) : Writing (es ++ [e]) file where
  opened := h.opened.imp fun _ hp => List.mem_append_left _ hp
  unclosed := fun f hf => (mem_append_event.mp hf).elim (h.unclosed f) (by rintro rfl; exact he)
  unfailed := fun hf => (mem_append_event.mp hf).elim h.unfailed (by rintro rfl; exact he)
  present := fun p hp => (mem_append_event.mp hp).elim (h.present p) (by rintro rfl; exact he)

theorem Writing.wrote (h : Writing es file) (f : Nat) (bytes : Bytes) :
    Writing (es ++ [.wrote f bytes]) file where
  opened := h.opened.imp fun _ hp => List.mem_append_left _ hp
  unclosed := fun f hf => (mem_append_event.mp hf).elim (h.unclosed f) nofun
  unfailed := fun hf => (mem_append_event.mp hf).elim h.unfailed nofun
  present := fun p hp => (mem_append_event.mp hp).elim (h.present p) nofun

theorem Writing.stored (h : Writing es file) (hpath : .opened path file ∈ es) :
    Stored (es ++ [.closed file]) path file where
  opened := List.mem_append_left _ hpath
  closed := List.mem_append_right _ (List.mem_singleton.mpr rfl)
  unfailed := fun hf => (mem_append_event.mp hf).elim h.unfailed nofun
  present := fun p hp => (mem_append_event.mp hp).elim (h.present p) nofun

/-- The upload has closed nothing and removed nothing. -/
structure Unfinished (es : List FileEvent) : Prop where
  unclosed : ∀ f, .closed f ∉ es
  present : ∀ path, .unlinked path ∉ es

theorem Writing.unfinished (h : Writing es file) : Unfinished es := ⟨h.unclosed, h.present⟩

theorem Unfinished.append (h : Unfinished es) (hclosed : ∀ f, e ≠ .closed f)
    (hunlinked : ∀ p, e ≠ .unlinked p) : Unfinished (es ++ [e]) where
  unclosed := fun f hf => (mem_append_event.mp hf).elim (h.unclosed f) fun heq => hclosed f heq.symm
  present := fun p hp => (mem_append_event.mp hp).elim (h.present p) fun heq => hunlinked p heq.symm

theorem written_quiet (he : Quiet e) : written (es ++ [e]) = written es := by
  rw [written_append]
  cases e <;> first | exact he.elim | exact List.append_nil _

end

def Extends (h h' : History) : Prop := ∀ e ∈ events h, e ∈ events h'

theorem Extends.append {h h' : History} (hext : Extends h h') (x : Exchange ArtifactAction.Answer) :
    Extends h (h' ++ [x]) := by
  intro e he
  rw [events_append]
  exact List.mem_append_left _ (hext e he)

theorem Extends.refl (h : History) : Extends h h := fun _ he => he

theorem Extends.trans {h h' h'' : History} (hext : Extends h h') (hext' : Extends h' h'') :
    Extends h h'' := fun e he => hext' e (hext e he)

/-- What the copying loop has done when it returns. -/
def Copied (path : Path) (file : Nat) (before : History) (bytes : Bytes) (after : History) :
    Except FileError Unit → Prop
  | .ok _ => Stored (events after) path file ∧
      written (events after) = written (events before) ++ bytes
  | .error _ => Unfinished (events after)

theorem discard_meets {path : Path} {file : Nat} {before h : History} {bytes : Bytes}
    (hext : Extends before h) (hu : Unfinished (events h)) (e : FileError) :
    ((do let _ ← request (ArtifactAction.discard file)
         return .error e) : ArtifactProgram (Except FileError Unit)).Meets
      (Sends sha256 artifactIdOf)
      (fun h' result => Extends before h' ∧ Copied path file before bytes h' result) h := by
  refine ⟨trivial, fun a => ⟨hext.append _, ?_⟩⟩
  show Unfinished (events _)
  rw [events_append]
  exact hu.append (fun _ => nofun) fun _ => nofun

theorem copy_meets {path : Path} {file : Nat} (ps : List Bytes) {before h : History}
    (done : Bytes) (hext : Extends before h) (hw : Writing (events h) file)
    (hpath : .opened path file ∈ events h)
    (hdone : written (events h) = written (events before) ++ done) :
    (copy file ps).Meets (Sends sha256 artifactIdOf)
      (fun h' result => Extends before h' ∧ Copied path file before (done ++ ps.flatten) h' result) h := by
  induction ps generalizing h done with
  | nil =>
    rw [copy, meets_request_bind]
    refine ⟨trivial, fun a => ?_⟩
    have hread : Writing (events (h ++ [⟨.readVerified, a⟩])) file := by
      rw [events_append]
      exact hw.quiet trivial
    cases a with
    | error e => exact discard_meets _ _ (hext.append _) hread.unfinished e
    | ok u =>
      refine ⟨hread, fun b => ⟨(hext.append _).append _, ?_⟩⟩
      cases b with
      | error e =>
        show Unfinished (events _)
        rw [events_append]
        exact hread.unfinished.append (fun _ => nofun) fun _ => nofun
      | ok u =>
        refine ⟨?_, ?_⟩
        · rw [events_append]
          refine hread.stored ?_
          rw [events_append]
          exact List.mem_append_left _ hpath
        · rw [events_append, written_append, events_append, written_append, hdone]
          simp [written, fileEvent]
  | cons piece rest ih =>
    rw [copy, meets_request_bind]
    refine ⟨trivial, fun a => ?_⟩
    have hread : Writing (events (h ++ [⟨.readVerified, a⟩])) file := by
      rw [events_append]
      exact hw.quiet trivial
    cases a with
    | error e => exact discard_meets _ _ (hext.append _) hread.unfinished e
    | ok u =>
      rw [meets_request_bind]
      refine ⟨hread, fun b => ?_⟩
      cases b with
      | error e =>
        refine discard_meets _ _ ((hext.append _).append _) ?_ e
        rw [events_append]
        exact hread.unfinished.append (fun _ => nofun) fun _ => nofun
      | ok v =>
        have hnext := ih (done ++ piece) ((hext.append _).append ⟨.write file piece, .ok v⟩)
          (by rw [events_append]; exact hread.wrote file piece)
          (by
            rw [events_append, events_append]
            exact List.mem_append_left _ (List.mem_append_left _ hpath))
          (by
            rw [events_append, written_append, events_append, written_append, hdone]
            simp [written, fileEvent])
        simpa [List.append_assoc] using hnext

/-- An upload that has not touched the files yet. -/
structure Untouched (es : List FileEvent) : Prop where
  unopened : ∀ p f, .opened p f ∉ es
  blank : written es = []
  unfailed : .failed ∉ es
  unfinished : Unfinished es

theorem Untouched.append {es : List FileEvent} {e : FileEvent} (h : Untouched es) (he : Quiet e) :
    Untouched (es ++ [e]) where
  unopened := fun p f hf => (mem_append_event.mp hf).elim (h.unopened p f) (by rintro rfl; exact he)
  blank := (written_quiet he).trans h.blank
  unfailed := fun hf => (mem_append_event.mp hf).elim h.unfailed (by rintro rfl; exact he)
  unfinished := h.unfinished.append (by rintro f rfl; exact he) (by rintro p rfl; exact he)

theorem flatten_pieces {n : Nat} (hn : 0 < n) {fuel : Nat} {data : Bytes}
    (hfuel : data.length < fuel) : (pieces n fuel data).flatten = data := by
  induction fuel generalizing data with
  | zero => exact absurd hfuel (Nat.not_lt_zero _)
  | succ fuel ih =>
    rw [pieces]
    split_ifs with hdata
    · exact hdata.symm
    · have hpos : 0 < data.length := List.length_pos_iff.mpr hdata
      have hdrop : (data.drop n).length < fuel := by
        rw [List.length_drop]
        omega
      rw [List.flatten_cons, ih hdrop, List.take_append_drop]

variable {h : History}

theorem writeNew_meets (path : Path) (data : Bytes) (hu : Untouched (events h)) :
    (writeNew path data).Meets (Sends sha256 artifactIdOf)
      (fun h' result => Extends h h' ∧ match result with
        | .ok _ => (∃ file, Stored (events h') path file) ∧ written (events h') = data
        | .error _ => Unfinished (events h')) h := by
  rw [writeNew, meets_request_bind]
  refine ⟨⟨hu.unopened, hu.blank⟩, fun a => ?_⟩
  cases a with
  | error e =>
    refine ⟨(Extends.refl h).append _, ?_⟩
    show Unfinished (events _)
    rw [events_append]
    exact hu.unfinished.append (fun _ => nofun) fun _ => nofun
  | ok file =>
    have hopened : FileEvent.opened path file ∈ events (h ++ [⟨.openNew path, .ok file⟩]) := by
      rw [events_append]
      exact List.mem_append_right _ (List.mem_singleton.mpr rfl)
    have hwriting : Writing (events (h ++ [⟨.openNew path, .ok file⟩])) file := by
      refine ⟨⟨path, hopened⟩, ?_, ?_, ?_⟩ <;> rw [events_append]
      · exact fun f hf => (mem_append_event.mp hf).elim (hu.unfinished.unclosed f) nofun
      · exact fun hf => (mem_append_event.mp hf).elim hu.unfailed nofun
      · exact fun p hp => (mem_append_event.mp hp).elim (hu.unfinished.present p) nofun
    have hcopy := copy_meets sha256 artifactIdOf (pieces 1048576 (data.length + 1) data) []
      ((Extends.refl h).append ⟨.openNew path, .ok file⟩) hwriting hopened (by
        rw [events_append, written_append]
        simp [written, fileEvent])
    refine hcopy.mono (fun _ _ hs => hs) ?_
    rintro h' result ⟨hext, hcopied⟩
    refine ⟨hext, ?_⟩
    cases result with
    | error e => exact hcopied
    | ok u =>
      refine ⟨⟨file, hcopied.1⟩, ?_⟩
      rw [hcopied.2, hu.blank, flatten_pieces (by norm_num) (Nat.lt_succ_self _)]
      rfl

/-- **A stored object is whole**: when `put_stream` returns, the new file holds the data. -/
theorem putStream_meets (objectKey : Str) (data : Bytes) (hu : Untouched (events h)) :
    (putStream objectKey data).Meets (Sends sha256 artifactIdOf)
      (fun h' _ => Extends h h' ∧ written (events h') = data ∧
        ∃ path file, pathFor objectKey = .ok path ∧ Stored (events h') path file) h := by
  unfold putStream
  cases hpath : pathFor objectKey with
  | error e => trivial
  | ok path =>
    rw [lift_ok, ret_bind, meets_request_bind]
    refine ⟨trivial, fun made => ?_⟩
    cases made with
    | error e => trivial
    | ok u =>
      have hu' : Untouched (events (h ++ [⟨.mkdir path.dropLast, .ok u⟩])) := by
        rw [events_append]
        exact hu.append trivial
      refine (writeNew_meets sha256 artifactIdOf path data hu').bind ?_
      rintro h' result ⟨hext, hresult⟩
      cases result with
      | ok u =>
        obtain ⟨⟨file, hstored⟩, hwritten⟩ := hresult
        exact ⟨((Extends.refl h).append _).trans hext, hwritten, path, file, rfl, hstored⟩
      | error e =>
        rw [meets_request_bind]
        refine ⟨trivial, fun found => ?_⟩
        cases found with
        | error e' => trivial
        | ok found =>
          cases found with
          | false => trivial
          | true =>
            have hunfinished : Unfinished (events (h' ++ [⟨.pathExists path, .ok true⟩])) := by
              rw [events_append]
              exact hresult.append (fun _ => nofun) fun _ => nofun
            refine ⟨⟨hunfinished.unclosed, hunfinished.present⟩, fun removed => ?_⟩
            cases removed <;> trivial

theorem untouched_nil : Untouched [] := ⟨nofun, rfl, nofun, nofun, nofun⟩

theorem lift_bind_meets {α β : Type} {x : Except ArtifactError α} {f : α → ArtifactProgram β}
    {Q : History → β → Prop}
    (hf : ∀ a, x = .ok a → (f a).Meets (Sends sha256 artifactIdOf) Q h) :
    (lift x >>= f).Meets (Sends sha256 artifactIdOf) Q h := by
  cases x with
  | ok a => exact hf a rfl
  | error e => trivial

theorem unless_meets {α : Type} {p : Prop} [Decidable p] {e : ArtifactError} {f : ArtifactProgram α}
    {Q : History → α → Prop} (hf : ¬ p → f.Meets (Sends sha256 artifactIdOf) Q h) :
    (if p then raise e else f).Meets (Sends sha256 artifactIdOf) Q h := by
  by_cases hp : p
  · rw [if_pos hp]
    trivial
  · rw [if_neg hp]
    exact hf hp

theorem orRaise_bind_meets {α β : Type} {x : Except FileError α} {f : α → ArtifactProgram β}
    {Q : History → β → Prop}
    (hf : ∀ a, (f a).Meets (Sends sha256 artifactIdOf) Q h) :
    (orRaise x >>= f).Meets (Sends sha256 artifactIdOf) Q h := by
  cases x with
  | ok a => exact hf a
  | error e => trivial

theorem createUpload_meets (requestedBy : Requester) (r : UploadRequest) :
    (ArtifactService.createUpload requestedBy r).Meets (Sends sha256 artifactIdOf)
      (fun _ _ => True) [] := by
  unfold ArtifactService.createUpload
  refine lift_bind_meets _ _ fun _ _ => ⟨trivial, fun uuid => ⟨trivial, fun now => ⟨?_, fun _ => trivial⟩⟩⟩
  exact ⟨rfl, uuid, List.mem_cons_self, rfl, rfl⟩

theorem uploadStream_meets (uploadId : Str) (requestedBy : Requester) (stream : ClientStream) :
    (ArtifactService.uploadStream sha256 uploadId requestedBy stream).Meets
      (Sends sha256 artifactIdOf) (fun _ _ => True) [] := by
  unfold ArtifactService.uploadStream
  rw [meets_request_bind]
  refine ⟨trivial, fun session => lift_bind_meets _ _ fun _ _ => unless_meets _ _ fun _ => ?_⟩
  rw [meets_request_bind]
  refine ⟨trivial, fun now => unless_meets _ _ fun _ => lift_bind_meets _ _ fun data _ =>
    unless_meets _ _ fun _ => unless_meets _ _ fun _ => ?_⟩
  have hu : Untouched (events [⟨.getUpload uploadId, session⟩, ⟨.now, now⟩]) :=
    (untouched_nil.append (e := .looked uploadId session) trivial).append (e := .other) trivial
  refine (putStream_meets sha256 artifactIdOf session.objectKey data hu).bind ?_
  rintro h' _ ⟨hext, hwritten, path, file, hpath, hstored⟩
  rw [meets_request_bind]
  refine ⟨⟨session, path, file, hext _ List.mem_cons_self, hpath, hstored, ?_, ?_⟩, fun _ => trivial⟩
  · rw [hwritten]
  · rw [hwritten]

theorem finalize_meets (uploadId : Str) (requestedBy : Requester) (reportedSha256 : Str) :
    (ArtifactService.finalize artifactIdOf uploadId requestedBy reportedSha256).Meets
      (Sends sha256 artifactIdOf) (fun _ _ => True) [] := by
  unfold ArtifactService.finalize
  rw [meets_request_bind]
  refine ⟨trivial, fun session => lift_bind_meets _ _ fun _ _ => ?_⟩
  by_cases hcompleted : session.status = .completed ∧ session.artifactId.getD [] ≠ []
  · rw [if_pos hcompleted]
    exact ⟨trivial, fun _ => trivial⟩
  · rw [if_neg hcompleted, meets_request_bind]
    refine ⟨trivial, fun now => unless_meets _ _ fun _ => unless_meets _ _ fun _ =>
      unless_meets _ _ fun hstatus => unless_meets _ _ fun _ => unless_meets _ _ fun _ => ?_⟩
    refine ⟨trivial, fun createdAt => ⟨?_, fun _ => trivial⟩⟩
    exact ⟨session, createdAt, List.mem_cons_self, not_not.mp hstatus, rfl⟩

theorem read_meets (ref : ArtifactRef) (requestedBy : Requester) (maximum : Int)
    (granted : List Str) :
    (ArtifactService.read sha256 shared ref requestedBy maximum granted).Meets
      (Sends sha256 artifactIdOf) (fun _ _ => True) [] := by
  have hread : ∀ (record : ArtifactRecord) (h : History),
      (if record.artifactRef ≠ ref ∨ maximum < ref.byteSize then
          raise (.integrityError "artifact reference or size limit mismatch")
        else do
          let data ← readObject record.objectKey maximum
          if (data.length : Int) ≠ ref.byteSize ∨ sha256 data ≠ ref.sha256 then
            raise (.integrityError "artifact content integrity mismatch")
          else return data : ArtifactProgram Bytes).Meets (Sends sha256 artifactIdOf)
        (fun _ _ => True) h := by
    refine fun record h => unless_meets _ _ fun _ => Meets.bind (Q := fun _ _ => True) ?_
      fun _ _ _ => unless_meets _ _ fun _ => trivial
    unfold readObject
    refine lift_bind_meets _ _ fun path _ => ⟨trivial, fun opened => orRaise_bind_meets _ _ fun file =>
      ⟨trivial, fun data => orRaise_bind_meets _ _ fun bytes => unless_meets _ _ fun _ => trivial⟩⟩
  unfold ArtifactService.read ArtifactService.authorizeDownload
  refine Meets.bind (Q := fun _ _ => True) ⟨trivial, fun record => ?_⟩ fun h' record _ => hread record h'
  simp only [Program.bind]
  cases authorize record.tenantId record.actorId record.resourceRefs requestedBy granted with
  | ok u => trivial
  | error e =>
    dsimp only
    split_ifs <;> trivial

/-- **What the calls send, they may send.** -/
theorem run_meets (c : ArtifactCall) :
    (runArtifact sha256 artifactIdOf shared c).Meets (Sends sha256 artifactIdOf)
      (fun _ _ => True) [] := by
  cases c with
  | createUpload requestedBy r =>
    exact (createUpload_meets _ _ requestedBy r).bind fun _ _ _ => trivial
  | uploadStream uploadId requestedBy stream =>
    exact (uploadStream_meets _ _ uploadId requestedBy stream).bind fun _ _ _ => trivial
  | getUpload uploadId requestedBy =>
    refine Meets.bind (Q := fun _ _ => True) ?_ fun _ _ _ => trivial
    unfold ArtifactService.getUpload
    rw [meets_request_bind]
    exact ⟨trivial, fun session => lift_bind_meets _ _ fun _ _ => trivial⟩
  | finalize uploadId requestedBy reportedSha256 =>
    exact (finalize_meets _ _ uploadId requestedBy reportedSha256).bind fun _ _ _ => trivial
  | read ref requestedBy maximum granted =>
    exact (read_meets _ _ _ ref requestedBy maximum granted).bind fun _ _ _ => trivial

end Ai00.Capability.Artifacts
