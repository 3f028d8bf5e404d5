import Ai00.Basic.Python

/-! # Paths in normal form

`posixpath.normpath`: empty and `.` parts of a path are dropped, and `..` takes back the part before it.
What comes out is in normal form (`normpath_normpath`). Case folding, which leaves the characters `/` and
`.` and makes no other one into them, folds a path in normal form into one (`normpath_casefold`).
-/

namespace Ai00.PosixPath

/-! ## `normpath` -/

def dot : Str := ['.']

def dotdot : Str := ['.', '.']

def joinParts (parts : List Str) : Str := ['/'].intercalate parts

/-- One round of the loop over the parts. -/
def addPart (rooted : Bool) (parts : List Str) (part : Str) : List Str :=
  if part = [] ∨ part = dot then parts
  else if part ≠ dotdot ∨ (rooted = false ∧ parts = []) ∨ parts.getLast? = some dotdot then parts ++ [part]
  else parts.dropLast

/-- `new_comps`. -/
def normalParts (rooted : Bool) (parts : List Str) : List Str := parts.foldl (addPart rooted) []

/-- `initial_slashes`: three and more count as one. -/
def slashes : Str → ℕ
  | '/' :: '/' :: '/' :: _ => 1
  | '/' :: '/' :: _ => 2
  | '/' :: _ => 1
  | _ => 0

def normpath (path : Str) : Str :=
  let normal := List.replicate (slashes path) '/'
    ++ joinParts (normalParts (0 < slashes path) (splitOn '/' path))
  if normal = [] then dot else normal

/-! ## Parts in normal form -/

/-- A part that stays where it is. -/
structure Proper (part : Str) : Prop where
  ne_nil : part ≠ []
  ne_dot : part ≠ dot
  ne_dotdot : part ≠ dotdot
  noSlash : '/' ∉ part

/-- Some `..`, none in a rooted path, and proper parts. -/
def NormalParts (rooted : Bool) (parts : List Str) : Prop :=
  ∃ n rest, parts = List.replicate n dotdot ++ rest ∧ (∀ part ∈ rest, Proper part) ∧ (rooted = true → n = 0)

variable {rooted : Bool} {parts : List Str} {part path : Str}

theorem NormalParts.addPart (h : NormalParts rooted parts) (hpart : '/' ∉ part) :
    NormalParts rooted (addPart rooted parts part) := by
  obtain ⟨n, rest, rfl, hrest, hroot⟩ := h
  rw [PosixPath.addPart]
  split_ifs with hempty hadds
  · exact ⟨n, rest, rfl, hrest, hroot⟩
  · obtain ⟨hnil, hdot⟩ := not_or.mp hempty
    by_cases hup : part = dotdot
    · subst hup
      rcases hadds with hne | ⟨hfalse, hparts⟩ | hlast
      · exact absurd rfl hne
      · refine ⟨1, [], ?_, by simp, fun htrue => ?_⟩
        · rw [hparts]
          rfl
        · rw [hfalse] at htrue
          cases htrue
      · -- the last part is a `..`, so that no proper part is there
        cases hlist : rest.getLast? with
        | none =>
          rw [List.getLast?_eq_none_iff] at hlist
          subst hlist
          refine ⟨n + 1, [], ?_, by simp, fun htrue => ?_⟩
          · rw [List.append_nil, List.append_nil, List.replicate_succ']
          · rw [hroot htrue] at hlast
            cases hlast
        | some last =>
          rw [List.getLast?_append, hlist] at hlast
          cases hlast
          exact absurd rfl (hrest _ (List.mem_of_getLast? hlist)).ne_dotdot
    · refine ⟨n, rest ++ [part], by rw [List.append_assoc], fun other hother => ?_, hroot⟩
      rcases List.mem_append.mp hother with hother | hother
      · exact hrest other hother
      · rw [List.mem_singleton.mp hother]
        exact ⟨hnil, hdot, hup, hpart⟩
  · cases hlist : rest with
    | nil =>
      subst hlist
      refine ⟨n - 1, [], ?_, by simp, fun htrue => by rw [hroot htrue]⟩
      rw [List.append_nil, List.append_nil, List.dropLast_replicate]
    | cons first others =>
      refine ⟨n, (first :: others).dropLast, ?_, fun other hother => ?_, hroot⟩
      · rw [List.dropLast_append_of_ne_nil (List.cons_ne_nil _ _)]
      · exact hrest other (hlist ▸ List.mem_of_mem_dropLast hother)

theorem normalParts_normal (hparts : ∀ part ∈ parts, '/' ∉ part) : NormalParts rooted (normalParts rooted parts) := by
  have hloop : ∀ start, NormalParts rooted start → NormalParts rooted (parts.foldl (addPart rooted) start) := by
    induction parts with
    | nil => exact fun _ h => h
    | cons part parts ih =>
      intro start h
      obtain ⟨hpart, hparts⟩ := List.forall_mem_cons.mp hparts
      exact ih hparts _ (h.addPart hpart)
  exact hloop [] ⟨0, [], rfl, by simp, fun _ => rfl⟩

theorem foldl_addPart_ups (hroot : rooted = false) (n : ℕ) :
    (List.replicate n dotdot).foldl (addPart rooted) [] = List.replicate n dotdot := by
  induction n with
  | zero => rfl
  | succ n ih =>
    rw [List.replicate_succ', List.foldl_concat, ih, addPart, if_neg (by decide), if_pos]
    cases n with
    | zero => exact Or.inr (Or.inl ⟨hroot, rfl⟩)
    | succ n => exact Or.inr (Or.inr (by simp [List.getLast?_replicate]))

theorem foldl_addPart_proper (hparts : ∀ part ∈ parts, Proper part) (start : List Str) :
    parts.foldl (addPart rooted) start = start ++ parts := by
  induction parts generalizing start with
  | nil => exact (List.append_nil start).symm
  | cons part parts ih =>
    obtain ⟨hpart, hparts⟩ := List.forall_mem_cons.mp hparts
    rw [List.foldl_cons, addPart, if_neg (not_or.mpr ⟨hpart.ne_nil, hpart.ne_dot⟩),
      if_pos (Or.inl hpart.ne_dotdot), ih hparts, List.append_assoc, List.singleton_append]

theorem NormalParts.normalParts (h : NormalParts rooted parts) : normalParts rooted parts = parts := by
  obtain ⟨n, rest, rfl, hrest, hroot⟩ := h
  have hups : (List.replicate n dotdot).foldl (PosixPath.addPart rooted) [] = List.replicate n dotdot := by
    cases hrooted : rooted with
    | false => exact foldl_addPart_ups rfl n
    | true =>
      rw [hroot hrooted]
      rfl
  rw [PosixPath.normalParts, List.foldl_append, hups, foldl_addPart_proper hrest]

theorem NormalParts.mem (h : NormalParts rooted parts) (hpart : part ∈ parts) : part ≠ [] ∧ '/' ∉ part := by
  obtain ⟨n, rest, rfl, hrest, -⟩ := h
  rcases List.mem_append.mp hpart with hpart | hpart
  · rw [List.eq_of_mem_replicate hpart]
    decide
  · exact ⟨(hrest part hpart).ne_nil, (hrest part hpart).noSlash⟩

/-! ## Splitting and joining -/

theorem noSlash_of_splitOn (path : Str) : ∀ part ∈ splitOn '/' path, '/' ∉ part := by
  induction path with
  | nil => simp [splitOn]
  | cons c path ih =>
    rw [splitOn]
    split_ifs with hc
    · simpa using ih
    · cases hsplit : splitOn '/' path with
      | nil => simpa using Ne.symm hc
      | cons first rest =>
        rw [hsplit] at ih
        obtain ⟨hfirst, hrest⟩ := List.forall_mem_cons.mp ih
        refine List.forall_mem_cons.mpr ⟨?_, hrest⟩
        rw [List.mem_cons, not_or]
        exact ⟨Ne.symm hc, hfirst⟩

theorem splitOn_joinParts (hne : parts ≠ []) (hparts : ∀ part ∈ parts, '/' ∉ part) :
    splitOn '/' (joinParts parts) = parts := by
  induction parts with
  | nil => exact absurd rfl hne
  | cons part rest ih =>
    obtain ⟨hpart, hrest⟩ := List.forall_mem_cons.mp hparts
    cases rest with
    | nil =>
      have hjoin : joinParts [part] = part := by simp [joinParts]
      rw [hjoin, splitOn_of_not_mem hpart]
    | cons next others =>
      have hjoin : joinParts (part :: next :: others) = part ++ '/' :: joinParts (next :: others) := by
        simp [joinParts, List.intercalate]
      rw [hjoin, splitOn_append hpart, ih (List.cons_ne_nil _ _) hrest]

theorem splitOn_slashes (n : ℕ) (path : Str) :
    splitOn '/' (List.replicate n '/' ++ path) = List.replicate n [] ++ splitOn '/' path := by
  induction n with
  | zero => rfl
  | succ n ih => rw [List.replicate_succ, List.cons_append, splitOn, if_pos rfl, ih, List.replicate_succ, List.cons_append]

theorem normalParts_empties (n : ℕ) (parts : List Str) :
    normalParts rooted (List.replicate n [] ++ parts) = normalParts rooted parts := by
  induction n with
  | zero => rfl
  | succ n ih =>
    rw [List.replicate_succ, List.cons_append, normalParts, List.foldl_cons]
    exact ih

theorem slashes_le (path : Str) : slashes path ≤ 2 := by
  unfold slashes
  split <;> omega

theorem slashes_replicate {n : ℕ} (hn : n ≤ 2) (hpath : path.head? ≠ some '/') :
    slashes (List.replicate n '/' ++ path) = n := by
  have hcases : n = 0 ∨ n = 1 ∨ n = 2 := by omega
  cases path with
  | nil => rcases hcases with rfl | rfl | rfl <;> rfl
  | cons c path =>
    have hc : c ≠ '/' := fun heq => hpath (congrArg some heq)
    rcases hcases with rfl | rfl | rfl <;> simp [slashes, hc, List.replicate]

theorem slashes_many {n : ℕ} (hn : 2 < n) (path : Str) : slashes (List.replicate n '/' ++ path) = 1 := by
  obtain ⟨k, rfl⟩ := Nat.exists_eq_add_of_le' hn
  rfl

theorem exists_slashes (path : Str) : ∃ n rest, path = List.replicate n '/' ++ rest ∧ rest.head? ≠ some '/' := by
  induction path with
  | nil => exact ⟨0, [], rfl, nofun⟩
  | cons c path ih =>
    by_cases hc : c = '/'
    · obtain ⟨n, rest, rfl, hrest⟩ := ih
      exact ⟨n + 1, rest, by rw [hc, List.replicate_succ, List.cons_append], hrest⟩
    · exact ⟨0, c :: path, rfl, fun heq => hc (Option.some.inj heq)⟩

/-! ## Normal paths -/

theorem head?_joinParts (h : NormalParts rooted parts) : (joinParts parts).head? ≠ some '/' := by
  cases parts with
  | nil => exact nofun
  | cons part rest =>
    obtain ⟨hne, hslash⟩ := h.mem List.mem_cons_self
    cases part with
    | nil => exact absurd rfl hne
    | cons c part =>
      have hhead : (joinParts ((c :: part) :: rest)).head? = some c := by
        cases rest <;> simp [joinParts, List.intercalate]
      rw [hhead]
      intro heq
      exact hslash (Option.some.inj heq ▸ List.mem_cons_self)

theorem normpath_normal {n : ℕ} (hn : n ≤ 2) (h : NormalParts (0 < n) parts)
    (hne : List.replicate n '/' ++ joinParts parts ≠ []) :
    normpath (List.replicate n '/' ++ joinParts parts) = List.replicate n '/' ++ joinParts parts := by
  have hparts : normalParts (0 < n) (splitOn '/' (joinParts parts)) = parts := by
    by_cases hnil : parts = []
    · subst hnil
      rfl
    · rw [splitOn_joinParts hnil fun part hpart => (h.mem hpart).2, h.normalParts]
  rw [normpath, slashes_replicate hn (head?_joinParts h), splitOn_slashes, normalParts_empties, hparts, if_neg hne]

/-- **A path in normal form is left alone.** -/
theorem normpath_normpath (path : Str) : normpath (normpath path) = normpath path := by
  have hnormal : NormalParts (0 < slashes path) (normalParts (0 < slashes path) (splitOn '/' path)) :=
    normalParts_normal (noSlash_of_splitOn path)
  by_cases hempty : List.replicate (slashes path) '/'
      ++ joinParts (normalParts (0 < slashes path) (splitOn '/' path)) = []
  · have hdot : normpath path = dot := if_pos hempty
    rw [hdot]
    rfl
  · have hpath : normpath path = _ := if_neg hempty
    rw [hpath, normpath_normal (slashes_le path) hnormal hempty]

theorem mem_normalParts (h : part ∈ normalParts rooted parts) : part ∈ parts := by
  have hloop : ∀ start, part ∈ parts.foldl (addPart rooted) start → part ∈ start ∨ part ∈ parts := by
    clear h
    induction parts with
    | nil => exact fun _ h => Or.inl h
    | cons first parts ih =>
      intro start h
      rcases ih _ h with h | h
      · rw [addPart] at h
        split_ifs at h
        · exact Or.inl h
        · rcases List.mem_append.mp h with h | h
          · exact Or.inl h
          · exact Or.inr (List.mem_singleton.mp h ▸ List.mem_cons_self)
        · exact Or.inl (List.mem_of_mem_dropLast h)
      · exact Or.inr (List.mem_cons_of_mem _ h)
  exact (hloop [] h).resolve_left List.not_mem_nil

variable {c : Char}

theorem mem_splitOn (hpart : part ∈ splitOn '/' path) (hc : c ∈ part) : c ∈ path := by
  induction path generalizing part with
  | nil =>
    rw [splitOn, List.mem_singleton] at hpart
    rw [hpart] at hc
    cases hc
  | cons d path ih =>
    rw [splitOn] at hpart
    split_ifs at hpart
    · rcases List.mem_cons.mp hpart with rfl | hpart
      · cases hc
      · exact List.mem_cons_of_mem _ (ih hpart hc)
    · cases hsplit : splitOn '/' path with
      | nil => exact absurd hsplit (splitOn_ne_nil _ _)
      | cons first rest =>
        rw [hsplit] at hpart ih
        rcases List.mem_cons.mp hpart with rfl | hpart
        · rcases List.mem_cons.mp hc with rfl | hc
          · exact List.mem_cons_self
          · exact List.mem_cons_of_mem _ (ih List.mem_cons_self hc)
        · exact List.mem_cons_of_mem _ (ih (List.mem_cons_of_mem _ hpart) hc)

theorem mem_joinParts (hc : c ∈ joinParts parts) : c = '/' ∨ ∃ part ∈ parts, c ∈ part := by
  induction parts with
  | nil => cases hc
  | cons part rest ih =>
    cases rest with
    | nil =>
      have hjoin : joinParts [part] = part := by simp [joinParts]
      exact Or.inr ⟨part, List.mem_cons_self, hjoin ▸ hc⟩
    | cons next others =>
      have hjoin : joinParts (part :: next :: others) = part ++ '/' :: joinParts (next :: others) := by
        simp [joinParts, List.intercalate]
      rw [hjoin, List.mem_append, List.mem_cons] at hc
      rcases hc with hc | hc | hc
      · exact Or.inr ⟨part, List.mem_cons_self, hc⟩
      · exact Or.inl hc
      · rcases ih hc with hc | ⟨other, hother, hc⟩
        · exact Or.inl hc
        · exact Or.inr ⟨other, List.mem_cons_of_mem _ hother, hc⟩

theorem mem_normpath (hc : c ∈ normpath path) : c ∈ path ∨ c = '/' ∨ c = '.' := by
  rw [normpath] at hc
  split_ifs at hc
  · exact Or.inr (Or.inr (List.mem_singleton.mp hc))
  · rcases List.mem_append.mp hc with hc | hc
    · exact Or.inr (Or.inl (List.eq_of_mem_replicate hc))
    · rcases mem_joinParts hc with hc | ⟨part, hpart, hc⟩
      · exact Or.inr (Or.inl hc)
      · exact Or.inl (mem_splitOn (mem_normalParts hpart) hc)

/-! ## Case folding -/

/-- Case folding, character by character. -/
structure CaseFolding where
  fold : Char → Str
  folded : ∀ c, (fold c).flatMap fold = fold c
  slash : fold '/' = ['/']
  dot : fold '.' = ['.']
  others : ∀ c, c ≠ '/' → c ≠ '.' → c ≠ '\\' → fold c ≠ [] ∧ '/' ∉ fold c ∧ '.' ∉ fold c ∧ '\\' ∉ fold c

namespace CaseFolding

variable (folding : CaseFolding) {s t : Str}

/-- `s.casefold()`. -/
def casefold (s : Str) : Str := s.flatMap folding.fold

theorem casefold_casefold (s : Str) : folding.casefold (folding.casefold s) = folding.casefold s := by
  rw [casefold, casefold, List.flatMap_assoc]
  exact congrArg (List.flatMap · s) (funext folding.folded)

theorem casefold_append (s t : Str) : folding.casefold (s ++ t) = folding.casefold s ++ folding.casefold t :=
  List.flatMap_append

theorem casefold_replicate (hc : folding.fold c = [c]) (n : ℕ) :
    folding.casefold (List.replicate n c) = List.replicate n c := by
  induction n with
  | zero => rfl
  | succ n ih =>
    rw [List.replicate_succ, ← List.singleton_append, casefold_append, ih]
    simp [casefold, hc]

/-- Folding makes no slash, dot or backslash. -/
theorem mem_casefold (hc : c ∈ ['/', '.', '\\']) (hs : '\\' ∉ s) :
    c ∈ folding.casefold s ↔ c ∈ s := by
  rw [casefold, List.mem_flatMap]
  constructor
  · rintro ⟨d, hd, hin⟩
    by_cases hslash : d = '/'
    · rw [hslash, folding.slash, List.mem_singleton] at hin
      rwa [hin, ← hslash]
    · by_cases hdot : d = '.'
      · rw [hdot, folding.dot, List.mem_singleton] at hin
        rwa [hin, ← hdot]
      · have hback : d ≠ '\\' := fun heq => hs (heq ▸ hd)
        obtain ⟨-, h1, h2, h3⟩ := folding.others d hslash hdot hback
        simp only [List.mem_cons, List.not_mem_nil, or_false] at hc
        rcases hc with rfl | rfl | rfl
        · exact absurd hin h1
        · exact absurd hin h2
        · exact absurd hin h3
  · intro hin
    simp only [List.mem_cons, List.not_mem_nil, or_false] at hc
    rcases hc with rfl | rfl | rfl
    · exact ⟨_, hin, by simp [folding.slash]⟩
    · exact ⟨_, hin, by simp [folding.dot]⟩
    · exact absurd hin hs

theorem casefold_eq_nil (hs : '\\' ∉ s) : folding.casefold s = [] ↔ s = [] := by
  cases s with
  | nil => exact iff_of_true rfl rfl
  | cons c s =>
    refine iff_of_false (fun heq => ?_) (List.cons_ne_nil _ _)
    have hnil : folding.fold c = [] := (List.append_eq_nil_iff.mp heq).1
    by_cases hslash : c = '/'
    · rw [hslash, folding.slash] at hnil
      cases hnil
    · by_cases hdot : c = '.'
      · rw [hdot, folding.dot] at hnil
        cases hnil
      · exact (folding.others c hslash hdot fun heq => hs (heq ▸ List.mem_cons_self)).1 hnil

theorem casefold_eq_dots (hs : '\\' ∉ s) (hslash : '/' ∉ s) (n : ℕ) :
    folding.casefold s = List.replicate n '.' ↔ s = List.replicate n '.' := by
  constructor
  · intro h
    induction s generalizing n with
    | nil => exact h
    | cons c s ih =>
      rw [List.mem_cons, not_or] at hs hslash
      have hc : c = '.' := by
        by_contra hdot
        obtain ⟨hne, -, hnodot, -⟩ := folding.others c (Ne.symm hslash.1) hdot (Ne.symm hs.1)
        obtain ⟨d, hd⟩ := List.exists_mem_of_ne_nil _ hne
        have hin : d ∈ List.replicate n '.' := h ▸ List.mem_flatMap.mpr ⟨c, List.mem_cons_self, hd⟩
        exact hnodot (List.eq_of_mem_replicate hin ▸ hd)
      subst hc
      rw [← List.singleton_append, casefold_append] at h
      have hfirst : folding.casefold ['.'] = ['.'] := by simp [casefold, folding.dot]
      rw [hfirst] at h
      cases n with
      | zero => cases h
      | succ n =>
        rw [List.replicate_succ] at h ⊢
        rw [ih hs.2 hslash.2 n (List.cons.inj h).2]
  · rintro rfl
    exact folding.casefold_replicate folding.dot n

theorem splitOn_casefold (hs : '\\' ∉ s) :
    splitOn '/' (folding.casefold s) = (splitOn '/' s).map folding.casefold := by
  have hprefix : ∀ {w : Str}, '/' ∉ w → ∀ t : Str, splitOn '/' (w ++ t)
      = (splitOn '/' t).modifyHead (w ++ ·) := by
    intro w hw t
    induction w with
    | nil =>
      cases hsplit : splitOn '/' t with
      | nil => exact absurd hsplit (splitOn_ne_nil _ _)
      | cons first rest => exact hsplit
    | cons c w ih =>
      rw [List.mem_cons, not_or] at hw
      rw [List.cons_append, splitOn, if_neg (Ne.symm hw.1), ih hw.2]
      cases hsplit : splitOn '/' t with
      | nil => exact absurd hsplit (splitOn_ne_nil _ _)
      | cons first rest => rfl
  induction s with
  | nil => rfl
  | cons c s ih =>
    rw [List.mem_cons, not_or] at hs
    have hcons : folding.casefold (c :: s) = folding.fold c ++ folding.casefold s := rfl
    by_cases hslash : c = '/'
    · subst hslash
      rw [hcons, folding.slash, List.singleton_append, splitOn, if_pos rfl, ih hs.2, splitOn, if_pos rfl]
      rfl
    · have hfree : '/' ∉ folding.fold c := by
        by_cases hdot : c = '.'
        · rw [hdot, folding.dot]
          decide
        · exact (folding.others c hslash hdot (Ne.symm hs.1)).2.1
      rw [hcons, hprefix hfree, ih hs.2, splitOn, if_neg hslash]
      cases hsplit : splitOn '/' s with
      | nil => exact absurd hsplit (splitOn_ne_nil _ _)
      | cons first rest => rfl

theorem addPart_casefold (hpart : '\\' ∉ part ∧ '/' ∉ part) (hparts : ∀ p ∈ parts, '\\' ∉ p ∧ '/' ∉ p) :
    addPart rooted (parts.map folding.casefold) (folding.casefold part)
      = (addPart rooted parts part).map folding.casefold := by
  have hnil : ∀ {p : Str}, '\\' ∉ p ∧ '/' ∉ p → (folding.casefold p = [] ↔ p = []) := fun hp =>
    folding.casefold_eq_dots hp.1 hp.2 0
  have hdot : ∀ {p : Str}, '\\' ∉ p ∧ '/' ∉ p → (folding.casefold p = PosixPath.dot ↔ p = PosixPath.dot) :=
    fun hp => folding.casefold_eq_dots hp.1 hp.2 1
  have hdotdot : ∀ {p : Str}, '\\' ∉ p ∧ '/' ∉ p → (folding.casefold p = dotdot ↔ p = dotdot) :=
    fun hp => folding.casefold_eq_dots hp.1 hp.2 2
  have hlast : (parts.map folding.casefold).getLast? = some dotdot ↔ parts.getLast? = some dotdot := by
    rw [List.getLast?_map]
    cases hget : parts.getLast? with
    | none => simp
    | some last => simpa using hdotdot (hparts last (List.mem_of_getLast? hget))
  rw [addPart, addPart, if_congr (or_congr (hnil hpart) (hdot hpart)) rfl
    (if_congr (or_congr (not_congr (hdotdot hpart)) (or_congr (and_congr_right fun _ => List.map_eq_nil_iff) hlast))
      rfl rfl)]
  split_ifs
  · rfl
  · rw [List.map_append, List.map_singleton]
  · exact List.map_dropLast.symm

theorem normalParts_casefold (hparts : ∀ p ∈ parts, '\\' ∉ p ∧ '/' ∉ p) :
    normalParts rooted (parts.map folding.casefold) = (normalParts rooted parts).map folding.casefold := by
  have hloop : ∀ start : List Str, (∀ p ∈ start, '\\' ∉ p ∧ '/' ∉ p) →
      (parts.map folding.casefold).foldl (addPart rooted) (start.map folding.casefold)
        = (parts.foldl (addPart rooted) start).map folding.casefold := by
    induction parts with
    | nil => exact fun _ _ => rfl
    | cons part parts ih =>
      intro start hstart
      obtain ⟨hpart, hparts⟩ := List.forall_mem_cons.mp hparts
      rw [List.map_cons, List.foldl_cons, List.foldl_cons, folding.addPart_casefold hpart hstart]
      refine ih hparts _ fun p hp => ?_
      rw [addPart] at hp
      split_ifs at hp
      · exact hstart p hp
      · rcases List.mem_append.mp hp with hp | hp
        · exact hstart p hp
        · exact List.mem_singleton.mp hp ▸ hpart
      · exact hstart p (List.mem_of_mem_dropLast hp)
  exact hloop [] (by simp)

theorem joinParts_casefold (parts : List Str) :
    joinParts (parts.map folding.casefold) = folding.casefold (joinParts parts) := by
  induction parts with
  | nil => rfl
  | cons part rest ih =>
    cases rest with
    | nil => simp [joinParts]
    | cons next others =>
      have hjoin : ∀ part next : Str, ∀ others : List Str,
          joinParts (part :: next :: others) = part ++ '/' :: joinParts (next :: others) := by
        intro part next others
        simp [joinParts, List.intercalate]
      rw [List.map_cons, List.map_cons, hjoin, hjoin, ← List.map_cons, ih, casefold_append]
      show _ = folding.casefold part ++ (folding.fold '/' ++ folding.casefold (joinParts (next :: others)))
      rw [folding.slash]
      rfl

theorem slashes_casefold (hs : '\\' ∉ s) : slashes (folding.casefold s) = slashes s := by
  -- a text without a slash in front is folded into one without
  have hhead : ∀ {t : Str}, '\\' ∉ t → t.head? ≠ some '/' → (folding.casefold t).head? ≠ some '/' := by
    intro t ht hhead
    cases t with
    | nil => exact nofun
    | cons c t =>
      rw [List.mem_cons, not_or] at ht
      have hslash : c ≠ '/' := fun heq => hhead (congrArg some heq)
      have hfold : folding.fold c ≠ [] ∧ '/' ∉ folding.fold c := by
        by_cases hdot : c = '.'
        · rw [hdot, folding.dot]
          decide
        · obtain ⟨hne, hfree, -⟩ := folding.others c hslash hdot (Ne.symm ht.1)
          exact ⟨hne, hfree⟩
      obtain ⟨d, rest, hd⟩ := List.exists_cons_of_ne_nil hfold.1
      have hcons : folding.casefold (c :: t) = folding.fold c ++ folding.casefold t := rfl
      rw [hcons, hd]
      intro heq
      exact hfold.2 (hd ▸ Option.some.inj heq ▸ List.mem_cons_self)
  obtain ⟨n, rest, rfl, hrest⟩ := exists_slashes s
  have hfree : '\\' ∉ rest := fun hin => hs (List.mem_append_right _ hin)
  rw [casefold_append, folding.casefold_replicate folding.slash]
  by_cases hn : n ≤ 2
  · rw [slashes_replicate hn (hhead hfree hrest), slashes_replicate hn hrest]
  · rw [slashes_many (by omega), slashes_many (by omega)]

/-- **Folding a normal path**: the normal path of the folded text. -/
theorem normpath_casefold (hs : '\\' ∉ s) : normpath (folding.casefold s) = folding.casefold (normpath s) := by
  have hparts : ∀ part ∈ splitOn '/' s, '\\' ∉ part ∧ '/' ∉ part := fun part hpart =>
    ⟨fun hin => hs (mem_splitOn hpart hin), noSlash_of_splitOn s part hpart⟩
  have hnormal : List.replicate (slashes s) '/'
      ++ joinParts ((normalParts (0 < slashes s) (splitOn '/' s)).map folding.casefold)
        = folding.casefold (List.replicate (slashes s) '/'
          ++ joinParts (normalParts (0 < slashes s) (splitOn '/' s))) := by
    rw [casefold_append, folding.casefold_replicate folding.slash, joinParts_casefold]
  rw [normpath, normpath, folding.slashes_casefold hs, folding.splitOn_casefold hs, folding.normalParts_casefold hparts,
    hnormal]
  have hback : '\\' ∉ List.replicate (slashes s) '/'
      ++ joinParts (normalParts (0 < slashes s) (splitOn '/' s)) := by
    intro hin
    rcases List.mem_append.mp hin with hin | hin
    · exact absurd (List.eq_of_mem_replicate hin) (by decide)
    · rcases mem_joinParts hin with hin | ⟨part, hpart, hin⟩
      · exact absurd hin (by decide)
      · exact hs (mem_splitOn (mem_normalParts hpart) hin)
  rw [if_congr (folding.casefold_eq_nil hback) rfl rfl, apply_ite folding.casefold]
  exact if_congr Iff.rfl (folding.casefold_replicate folding.dot 1).symm rfl

end CaseFolding

end Ai00.PosixPath
