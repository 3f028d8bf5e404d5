import Ai00.Basic.KeyedRows

/-! # Files under paths

A directory entry names a file, and a file keeps its bytes whether or not an entry names it:
removing an entry leaves the file to whoever has it open. Files are numbered in the order of their
creation and never reused.
-/

namespace Ai00

structure FileSystem (κ β : Type) where
  entries : List (κ × Nat) := []
  contents : List (List β) := []

namespace FileSystem

variable {κ β : Type} [DecidableEq κ] (fs : FileSystem κ β)

/-- The file that a path names. -/
def entry (path : κ) : Option Nat := (KeyedRows.lookup Prod.fst path fs.entries).map Prod.snd

def content (file : Nat) : List β := fs.contents.getD file []

/-- A new file under `path`. -/
def create (path : κ) : FileSystem κ β where
  entries := KeyedRows.upsert Prod.fst (path, fs.contents.length) fs.entries
  contents := fs.contents ++ [[]]

def setContent (file : Nat) (bytes : List β) : FileSystem κ β :=
  { fs with contents := fs.contents.set file bytes }

def remove (path : κ) : FileSystem κ β :=
  { fs with entries := fs.entries.filter (fun e => e.1 ≠ path) }

variable {fs} {path path' : κ} {file file' : Nat} {bytes : List β}

/-! ## What an operation leaves -/

theorem entry_create :
    (fs.create path).entry path' = if path = path' then some fs.contents.length else fs.entry path' := by
  unfold entry create
  rw [KeyedRows.lookup_upsert]
  split_ifs <;> rfl

@[simp] theorem entry_setContent : (fs.setContent file bytes).entry path = fs.entry path := rfl

theorem entry_remove :
    (fs.remove path).entry path' = if path = path' then none else fs.entry path' := by
  unfold entry remove
  induction fs.entries with
  | nil => simp
  | cons e entries ih =>
    by_cases he : e.1 = path
    · rw [List.filter_cons_of_neg (by simp [he]), ih, KeyedRows.lookup_cons]
      by_cases hpath : path = path' <;> simp [he, hpath]
    · rw [List.filter_cons_of_pos (by simp [he]), KeyedRows.lookup_cons, KeyedRows.lookup_cons]
      by_cases hpath' : e.1 = path'
      · have hne : path ≠ path' := fun h => he (hpath'.trans h.symm)
        rw [if_pos hpath', if_pos hpath', if_neg hne]
      · rw [if_neg hpath', if_neg hpath', ih]

theorem content_create : (fs.create path).content file = fs.content file := by
  unfold content create
  rcases Nat.lt_trichotomy file fs.contents.length with h | rfl | h
  · simp [List.getD, List.getElem?_append_left h]
  · simp [List.getD]
  · simp [List.getD, List.getElem?_append_right h.le, List.getElem?_eq_none h.le, Nat.sub_ne_zero_of_lt h]

omit [DecidableEq κ] in
theorem content_next : fs.content fs.contents.length = [] := by
  simp [content, List.getD]

@[simp] theorem content_remove : (fs.remove path).content file = fs.content file := rfl

omit [DecidableEq κ] in
theorem content_setContent_self (h : file < fs.contents.length) :
    (fs.setContent file bytes).content file = bytes := by
  simp [content, setContent, List.getD, h]

omit [DecidableEq κ] in
theorem content_setContent_ne (h : file ≠ file') :
    (fs.setContent file bytes).content file' = fs.content file' := by
  simp [content, setContent, List.getD, h]

@[simp] theorem length_create : (fs.create path).contents.length = fs.contents.length + 1 := by
  simp [create]

omit [DecidableEq κ] in
@[simp] theorem length_setContent :
    (fs.setContent file bytes).contents.length = fs.contents.length := by
  simp [setContent]

@[simp] theorem length_remove : (fs.remove path).contents.length = fs.contents.length := rfl

end FileSystem

end Ai00
