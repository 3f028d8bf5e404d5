import Ai00.Capability.Artifacts

/-! # Files of uploads in flight

What an upload has done to the files is read off its history (`FileEvent`). `Touches` says what one
answered request of a call can do to the files, given the history of the call; from it
`FilesSound` follows along a run: a file has one upload that opened it, the path of that upload
names it until the upload unlinks it, and it holds what the upload has written. Files that no
unfinished upload holds are left alone (`Touches.settled`).
-/

namespace Ai00.Capability.Artifacts

open Program

/-! ## Histories -/

inductive FileEvent where
  | opened (path : Path) (file : Nat)
  | wrote (file : Nat) (bytes : Bytes)
  | closed (file : Nat)
  /-- A write or a close that failed. -/
  | failed
  | unlinked (path : Path)
  | looked (uploadId : Str) (session : UploadSession)
  | drew (uuid : Str)
  | other

def fileEvent : Exchange ArtifactAction.Answer → FileEvent
  | ⟨.openNew path, .ok file⟩ => .opened path file
  | ⟨.write file bytes, .ok _⟩ => .wrote file bytes
  | ⟨.write .., .error _⟩ => .failed
  | ⟨.close file, .ok _⟩ => .closed file
  | ⟨.close _, .error _⟩ => .failed
  | ⟨.unlink path, _⟩ => .unlinked path
  | ⟨.getUpload uploadId, session⟩ => .looked uploadId session
  | ⟨.uuid, uuid⟩ => .drew uuid
  | _ => .other

abbrev events (h : List (Exchange ArtifactAction.Answer)) : List FileEvent := h.map fileEvent

def written (es : List FileEvent) : Bytes :=
  es.flatMap fun e =>
    match e with
    | .wrote _ bytes => bytes
    | _ => []

theorem written_append (es es' : List FileEvent) : written (es ++ es') = written es ++ written es' :=
  List.flatMap_append

/-- The upload has `file` open for writing. -/
structure Writing (es : List FileEvent) (file : Nat) : Prop where
  opened : ∃ path, .opened path file ∈ es
  unclosed : ∀ f, .closed f ∉ es
  unfailed : .failed ∉ es
  present : ∀ path, .unlinked path ∉ es

/-- The upload has stored `file` under `path`. -/
structure Stored (es : List FileEvent) (path : Path) (file : Nat) : Prop where
  opened : .opened path file ∈ es
  closed : .closed file ∈ es
  unfailed : .failed ∉ es
  present : ∀ path, .unlinked path ∉ es

/-- Events that say nothing about files. -/
def Quiet : FileEvent → Prop
  | .looked .. => True
  | .drew _ => True
  | .other => True
  | _ => False

/-! ## What a request does to the files -/

inductive Touches (files : FileSystem Path UInt8) (es : List FileEvent) :
    FileEvent → FileSystem Path UInt8 → Prop
  | quiet (e : FileEvent) (h : Quiet e) : Touches files es e files
  | opened (path : Path) (hnew : files.entry path = none) (hfirst : ∀ p f, .opened p f ∉ es)
      (hblank : written es = []) :
      Touches files es (.opened path files.contents.length) (files.create path)
  | wrote (file : Nat) (bytes : Bytes) (h : Writing es file) :
      Touches files es (.wrote file bytes) (files.setContent file (files.content file ++ bytes))
  | spoiled (file : Nat) (bytes : Bytes) (h : Writing es file) :
      Touches files es .failed (files.setContent file bytes)
  | closed (file : Nat) (h : Writing es file) : Touches files es (.closed file) files
  | kept (path : Path) (hopen : ∀ f, .closed f ∉ es) : Touches files es (.unlinked path) files
  | removed (path : Path) (file : Nat) (hown : .opened path file ∈ es)
      (hopen : ∀ f, .closed f ∉ es) (hpresent : ∀ p, .unlinked p ∉ es) :
      Touches files es (.unlinked path) (files.remove path)

/-- The histories `hs` of the calls against the files. -/
structure FilesSound (files : FileSystem Path UInt8) (hs : List (List FileEvent)) : Prop where
  fresh : ∀ {es path file}, es ∈ hs → .opened path file ∈ es → file < files.contents.length
  single : ∀ {es path file path' file'}, es ∈ hs → .opened path file ∈ es →
    .opened path' file' ∈ es → path = path' ∧ file = file'
  apart : ∀ {i j : Nat} {es es' : List FileEvent} {path path' file}, hs[i]? = some es →
    hs[j]? = some es' → .opened path file ∈ es → .opened path' file ∈ es' → i = j
  entry : ∀ {es path file}, es ∈ hs → .opened path file ∈ es → (∀ p, .unlinked p ∉ es) →
    files.entry path = some file
  content : ∀ {es path file}, es ∈ hs → .opened path file ∈ es → .failed ∉ es →
    files.content file = written es

/-- No upload that has not closed the file has opened it. -/
def Settled (hs : List (List FileEvent)) (file : Nat) : Prop :=
  ∀ es ∈ hs, ∀ path, .opened path file ∈ es → .closed file ∈ es

section

variable {files files' : FileSystem Path UInt8} {hs : List (List FileEvent)}
  {es : List FileEvent} {e : FileEvent} {i : Nat} {path : Path} {file : Nat}

theorem FilesSound.begin (h : FilesSound files hs) : FilesSound files (hs ++ [[]]) := by
  have hold : ∀ {es : List FileEvent} {path file}, es ∈ hs ++ [[]] → .opened path file ∈ es →
      es ∈ hs := by
    intro es path file hes hopened
    rcases List.mem_append.mp hes with hes | hes
    · exact hes
    · rw [List.mem_singleton.mp hes] at hopened
      cases hopened
  have hat : ∀ {i : Nat} {es : List FileEvent} {path file}, (hs ++ [[]])[i]? = some es →
      .opened path file ∈ es → hs[i]? = some es := by
    intro i es path file hi hopened
    rw [List.getElem?_append] at hi
    split_ifs at hi with hlt
    · exact hi
    · have hes := List.mem_of_getElem? hi
      rw [List.mem_singleton.mp hes] at hopened
      cases hopened
  exact
    { fresh := fun hes hopened => h.fresh (hold hes hopened) hopened
      single := fun hes hopened => h.single (hold hes hopened) hopened
      apart := fun hi hj hopened hopened' => h.apart (hat hi hopened) (hat hj hopened') hopened hopened'
      entry := fun hes hopened => h.entry (hold hes hopened) hopened
      content := fun hes hopened => h.content (hold hes hopened) hopened }

/-- A history after one more event of one call is the new one or that of another call. -/
theorem getElem?_set_cases {es' new : List FileEvent} {j : Nat} (h : (hs.set i new)[j]? = some es') :
    (j = i ∧ es' = new) ∨ (j ≠ i ∧ hs[j]? = some es') := by
  rw [List.getElem?_set] at h
  split_ifs at h with hij hlen
  · exact Or.inl ⟨hij.symm, (Option.some_injective _ h).symm⟩
  · exact Or.inr ⟨Ne.symm hij, h⟩

theorem mem_set_cases' {es' new : List FileEvent} (h : es' ∈ hs.set i new) :
    es' = new ∨ ∃ j, j ≠ i ∧ hs[j]? = some es' := by
  obtain ⟨j, hj⟩ := List.mem_iff_getElem?.mp h
  rcases getElem?_set_cases hj with ⟨-, heq⟩ | ⟨hne, hj⟩
  · exact Or.inl heq
  · exact Or.inr ⟨j, hne, hj⟩

theorem FilesSound.writes_own (h : FilesSound files hs) (hi : hs[i]? = some es)
    (hwriting : Writing es file) {j : Nat} {es' : List FileEvent} {file' : Nat}
    (hj : hs[j]? = some es') (hopened : .opened path file' ∈ es') (hne : i ≠ j) : file ≠ file' := by
  obtain ⟨own, hown⟩ := hwriting.opened
  rintro rfl
  exact hne (h.apart hi hj hown hopened)

theorem opened_append {es : List FileEvent} (he : ∀ p f, e ≠ .opened p f)
    (h : .opened path file ∈ es ++ [e]) : .opened path file ∈ es := by
  rcases List.mem_append.mp h with h | h
  · exact h
  · exact absurd (List.mem_singleton.mp h).symm (he path file)

theorem FilesSound.append (h : FilesSound files hs) (hi : hs[i]? = some es)
    (he : ∀ p f, e ≠ .opened p f) (hlength : files'.contents.length = files.contents.length)
    (hentry : ∀ {j : Nat} {es' path file}, hs[j]? = some es' → .opened path file ∈ es' →
      (∀ p, .unlinked p ∉ es') → (j = i → ∀ p, e ≠ .unlinked p) → files'.entry path = some file)
    (hothers : ∀ {j : Nat} {es' path file}, j ≠ i → hs[j]? = some es' → .opened path file ∈ es' →
      files'.content file = files.content file)
    (hown : ∀ {path file}, .opened path file ∈ es → .failed ∉ es ++ [e] →
      files'.content file = written (es ++ [e])) :
    FilesSound files' (hs.set i (es ++ [e])) where
  fresh := by
    intro es' path file hes hopened
    rw [hlength]
    rcases mem_set_cases' hes with rfl | ⟨j, -, hj⟩
    · exact h.fresh (List.mem_of_getElem? hi) (opened_append he hopened)
    · exact h.fresh (List.mem_of_getElem? hj) hopened
  single := by
    intro es' path file path' file' hes hopened hopened'
    rcases mem_set_cases' hes with rfl | ⟨j, -, hj⟩
    · exact h.single (List.mem_of_getElem? hi) (opened_append he hopened) (opened_append he hopened')
    · exact h.single (List.mem_of_getElem? hj) hopened hopened'
  apart := by
    intro j k es' es'' path path' file hj hk hopened hopened'
    rcases getElem?_set_cases hj with ⟨rfl, rfl⟩ | ⟨-, hj'⟩ <;>
      rcases getElem?_set_cases hk with ⟨rfl, rfl⟩ | ⟨-, hk'⟩
    · rfl
    · exact h.apart hi hk' (opened_append he hopened) hopened'
    · exact h.apart hj' hi hopened (opened_append he hopened')
    · exact h.apart hj' hk' hopened hopened'
  entry := by
    intro es' path file hes hopened hpresent
    rcases mem_set_cases' hes with rfl | ⟨j, hne, hj⟩
    · refine hentry hi (opened_append he hopened)
        (fun p hp => hpresent p (List.mem_append_left _ hp)) fun _ p hp => ?_
      exact hpresent p (List.mem_append_right _ (List.mem_singleton.mpr hp.symm))
    · exact hentry hj hopened hpresent fun heq => absurd heq hne
  content := by
    intro es' path file hes hopened hunfailed
    rcases mem_set_cases' hes with rfl | ⟨j, hne, hj⟩
    · exact hown (opened_append he hopened) hunfailed
    · rw [hothers hne hj hopened]
      exact h.content (List.mem_of_getElem? hj) hopened hunfailed

theorem FilesSound.create (h : FilesSound files hs) (hi : hs[i]? = some es)
    (hnew : files.entry path = none) (hfirst : ∀ p f, .opened p f ∉ es) (hblank : written es = []) :
    FilesSound (files.create path)
      (hs.set i (es ++ [.opened path files.contents.length])) := by
  have hopens : ∀ {path' file'}, FileEvent.opened path' file' ∈ es ++ [.opened path files.contents.length] →
      path' = path ∧ file' = files.contents.length := by
    intro path' file' hopened
    rcases List.mem_append.mp hopened with hopened | hopened
    · exact absurd hopened (hfirst path' file')
    · cases List.mem_singleton.mp hopened
      exact ⟨rfl, rfl⟩
  refine ⟨?_, ?_, ?_, ?_, ?_⟩
  · intro es' path' file' hes hopened
    rw [FileSystem.length_create]
    rcases mem_set_cases' hes with rfl | ⟨j, -, hj⟩
    · rw [(hopens hopened).2]
      exact Nat.lt_succ_self _
    · exact Nat.lt_succ_of_lt (h.fresh (List.mem_of_getElem? hj) hopened)
  · intro es' path₁ file₁ path₂ file₂ hes hopened₁ hopened₂
    rcases mem_set_cases' hes with rfl | ⟨j, -, hj⟩
    · obtain ⟨rfl, rfl⟩ := hopens hopened₁
      obtain ⟨rfl, rfl⟩ := hopens hopened₂
      exact ⟨rfl, rfl⟩
    · exact h.single (List.mem_of_getElem? hj) hopened₁ hopened₂
  · intro j k es' es'' path' path'' file hj hk hopened hopened'
    rcases getElem?_set_cases hj with ⟨rfl, rfl⟩ | ⟨-, hj'⟩ <;>
      rcases getElem?_set_cases hk with ⟨rfl, rfl⟩ | ⟨-, hk'⟩
    · rfl
    · exact absurd (hopens hopened).2 (h.fresh (List.mem_of_getElem? hk') hopened').ne
    · exact absurd (hopens hopened').2 (h.fresh (List.mem_of_getElem? hj') hopened).ne
    · exact h.apart hj' hk' hopened hopened'
  · intro es' path' file' hes hopened hpresent
    rw [FileSystem.entry_create]
    rcases mem_set_cases' hes with rfl | ⟨j, -, hj⟩
    · obtain ⟨rfl, rfl⟩ := hopens hopened
      exact if_pos rfl
    · have hold := h.entry (List.mem_of_getElem? hj) hopened hpresent
      rw [if_neg]
      · exact hold
      · rintro rfl
        rw [hnew] at hold
        cases hold
  · intro es' path' file' hes hopened hunfailed
    rw [FileSystem.content_create]
    rcases mem_set_cases' hes with rfl | ⟨j, -, hj⟩
    · rw [(hopens hopened).2, FileSystem.content_next, written_append, hblank]
      rfl
    · exact h.content (List.mem_of_getElem? hj) hopened hunfailed

/-- **An answered request of any call keeps files and histories sound.** -/
theorem FilesSound.step (h : FilesSound files hs) (hi : hs[i]? = some es)
    (ht : Touches files es e files') : FilesSound files' (hs.set i (es ++ [e])) := by
  cases ht with
  | quiet e he =>
    refine h.append hi (fun p f heq => by rw [heq] at he; exact he) rfl
      (fun hj hopened hpresent _ => h.entry (List.mem_of_getElem? hj) hopened hpresent)
      (fun _ _ _ => rfl) fun hopened hunfailed => ?_
    rw [h.content (List.mem_of_getElem? hi) hopened
      (fun hf => hunfailed (List.mem_append_left _ hf)), written_append]
    cases e <;> first | exact he.elim | exact (List.append_nil _).symm
  | opened path hnew hfirst hblank => exact h.create hi hnew hfirst hblank
  | wrote file bytes hwriting =>
    obtain ⟨own, hown⟩ := hwriting.opened
    refine h.append hi (fun _ _ => nofun) FileSystem.length_setContent
      (fun hj hopened hpresent _ => h.entry (List.mem_of_getElem? hj) hopened hpresent)
      (fun hne hj hopened =>
        FileSystem.content_setContent_ne (h.writes_own hi hwriting hj hopened hne.symm))
      fun hopened hunfailed => ?_
    obtain rfl := (h.single (List.mem_of_getElem? hi) hown hopened).2
    rw [FileSystem.content_setContent_self (h.fresh (List.mem_of_getElem? hi) hown),
      h.content (List.mem_of_getElem? hi) hopened hwriting.unfailed, written_append]
    exact congrArg _ (List.append_nil bytes).symm
  | spoiled file bytes hwriting =>
    refine h.append hi (fun _ _ => nofun) FileSystem.length_setContent
      (fun hj hopened hpresent _ => h.entry (List.mem_of_getElem? hj) hopened hpresent)
      (fun hne hj hopened =>
        FileSystem.content_setContent_ne (h.writes_own hi hwriting hj hopened hne.symm))
      fun hopened hunfailed => ?_
    exact absurd (List.mem_append_right _ (List.mem_singleton.mpr rfl)) hunfailed
  | closed file hwriting =>
    refine h.append hi (fun _ _ => nofun) rfl
      (fun hj hopened hpresent _ => h.entry (List.mem_of_getElem? hj) hopened hpresent)
      (fun _ _ _ => rfl) fun hopened _ => ?_
    rw [h.content (List.mem_of_getElem? hi) hopened hwriting.unfailed, written_append]
    exact (List.append_nil _).symm
  | kept path _ =>
    refine h.append hi (fun _ _ => nofun) rfl
      (fun hj hopened hpresent _ => h.entry (List.mem_of_getElem? hj) hopened hpresent)
      (fun _ _ _ => rfl) fun hopened hunfailed => ?_
    rw [h.content (List.mem_of_getElem? hi) hopened
      (fun hf => hunfailed (List.mem_append_left _ hf)), written_append]
    exact (List.append_nil _).symm
  | removed path file hown _ hpresent =>
    have hentry := h.entry (List.mem_of_getElem? hi) hown hpresent
    refine h.append hi (fun _ _ => nofun) rfl (fun {j es' path' file'} hj hopened hpresent' hlast => ?_)
      (fun _ _ _ => rfl) fun hopened hunfailed => ?_
    · have hentry' := h.entry (List.mem_of_getElem? hj) hopened hpresent'
      rw [FileSystem.entry_remove, if_neg]
      · exact hentry'
      · rintro rfl
        obtain rfl := Option.some_injective _ (hentry.symm.trans hentry')
        exact hlast (h.apart hj hi hopened hown) path rfl
    · rw [FileSystem.content_remove, h.content (List.mem_of_getElem? hi) hopened
        (fun hf => hunfailed (List.mem_append_left _ hf)), written_append]
      exact (List.append_nil _).symm

/-- **What no unfinished upload holds stays**: its path names it, and its bytes are the same. -/
theorem Touches.settled (ht : Touches files es e files') (h : FilesSound files hs)
    (hi : hs[i]? = some es) (hentry : files.entry path = some file) (hsettled : Settled hs file) :
    files'.entry path = some file ∧ files'.content file = files.content file := by
  have hwriting_ne : ∀ {f}, Writing es f → f ≠ file := by
    rintro f hwriting rfl
    obtain ⟨own, hown⟩ := hwriting.opened
    exact hwriting.unclosed f (hsettled es (List.mem_of_getElem? hi) own hown)
  cases ht with
  | quiet => exact ⟨hentry, rfl⟩
  | opened path' hnew =>
    refine ⟨?_, FileSystem.content_create⟩
    rw [FileSystem.entry_create, if_neg]
    · exact hentry
    · rintro rfl
      rw [hnew] at hentry
      cases hentry
  | wrote f bytes hwriting =>
    exact ⟨hentry, FileSystem.content_setContent_ne (hwriting_ne hwriting)⟩
  | spoiled f bytes hwriting =>
    exact ⟨hentry, FileSystem.content_setContent_ne (hwriting_ne hwriting)⟩
  | closed => exact ⟨hentry, rfl⟩
  | kept => exact ⟨hentry, rfl⟩
  | removed path' f hown hopen hpresent =>
    refine ⟨?_, rfl⟩
    rw [FileSystem.entry_remove, if_neg]
    · exact hentry
    · rintro rfl
      have hsame := h.entry (List.mem_of_getElem? hi) hown hpresent
      obtain rfl := Option.some_injective _ (hsame.symm.trans hentry)
      exact hopen f (hsettled es (List.mem_of_getElem? hi) _ hown)

end

end Ai00.Capability.Artifacts
