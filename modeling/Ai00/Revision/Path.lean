import Ai00.Revision.Diff

/-! # Paths of keys

A change stores its place as text: every key escaped and preceded by a slash. `renderPath` is
that text and `segments` reads it back, for every list of keys but one: the list with only the
empty key is written `/`, which is also the path of the root (`segments_renderPath`,
`segments_root`).
-/

namespace Ai00.Revision

def renderPath (ks : List Str) : Str := ks.flatMap (fun k => '/' :: escape k)

@[simp] theorem renderPath_nil : renderPath [] = [] := rfl

theorem renderPath_cons (k : Str) (ks : List Str) :
    renderPath (k :: ks) = '/' :: (escape k ++ renderPath ks) := by
  simp [renderPath]

theorem renderPath_ne_nil {ks : List Str} (h : ks ≠ []) : renderPath ks ≠ [] := by
  cases ks with
  | nil => exact absurd rfl h
  | cons k ks => simp [renderPath_cons]

/-! ## Escaping -/

theorem replaceChar_cons (c : Char) (r : Str) (x : Char) (s : Str) :
    replaceChar c r (x :: s) = (if x = c then r else [x]) ++ replaceChar c r s := by
  simp [replaceChar]

theorem replacePair_cons_of_ne {a x : Char} (b : Char) (r s : Str) (h : x ≠ a) :
    replacePair a b r (x :: s) = x :: replacePair a b r s := by
  cases s with
  | nil => simp [replacePair]
  | cons y s => simp [replacePair, h]

theorem replacePair_pair (a b : Char) (r s : Str) :
    replacePair a b r (a :: b :: s) = r ++ replacePair a b r s := by
  simp [replacePair]

theorem replacePair_pair_of_ne {a b y : Char} (r s : Str) (h : y ≠ b) (hy : y ≠ a) :
    replacePair a b r (a :: y :: s) = a :: y :: replacePair a b r s := by
  rw [replacePair, if_neg (fun hab => h hab.2), replacePair_cons_of_ne b r s hy]

theorem escape_cons (x : Char) (s : Str) : escape (x :: s)
      = (if x = '~' then ['~', '0'] else if x = '/' then ['~', '1'] else [x]) ++ escape s := by
  unfold escape
  rw [replaceChar_cons]
  split_ifs with h1 h2
  · simp [replaceChar]
  · simp [replaceChar, h2]
  · simp [replaceChar, h2]

theorem slash_not_mem_escape (s : Str) : '/' ∉ escape s := by
  induction s with
  | nil => simp [escape, replaceChar]
  | cons x s ih =>
    rw [escape_cons, List.mem_append, not_or]
    refine ⟨?_, ih⟩
    split_ifs with h1 h2
    · decide
    · decide
    · simpa [eq_comm] using h2

theorem replacePair_escape (s : Str) :
    replacePair '~' '1' ['/'] (escape s) = replaceChar '~' ['~', '0'] s := by
  induction s with
  | nil => rfl
  | cons x s ih =>
    rw [escape_cons, replaceChar_cons]
    split_ifs with h1 h2
    · show replacePair '~' '1' ['/'] ('~' :: '0' :: escape s) = _
      rw [replacePair_pair_of_ne _ _ (by decide) (by decide), ih]
      rfl
    · show replacePair '~' '1' ['/'] ('~' :: '1' :: escape s) = _
      rw [replacePair_pair, ih, h2]
    · show replacePair '~' '1' ['/'] (x :: escape s) = _
      rw [replacePair_cons_of_ne _ _ _ h1, ih]
      rfl

theorem replacePair_replaceChar (s : Str) :
    replacePair '~' '0' ['~'] (replaceChar '~' ['~', '0'] s) = s := by
  induction s with
  | nil => rfl
  | cons x s ih =>
    rw [replaceChar_cons]
    split_ifs with h1
    · show replacePair '~' '0' ['~'] ('~' :: '0' :: replaceChar '~' ['~', '0'] s) = _
      rw [replacePair_pair, ih, h1]
      rfl
    · show replacePair '~' '0' ['~'] (x :: replaceChar '~' ['~', '0'] s) = _
      rw [replacePair_cons_of_ne _ _ _ h1, ih]

/-- The two passes of `unescape` undo the two passes of `escape`, last one first. -/
theorem unescape_escape (s : Str) : unescape (escape s) = s := by
  unfold unescape
  rw [replacePair_escape, replacePair_replaceChar]

/-! ## Splitting -/

theorem map_unescape_splitOn (k : Str) (ks : List Str) :
    (splitOn '/' (escape k ++ renderPath ks)).map unescape = k :: ks := by
  induction ks generalizing k with
  | nil =>
    rw [renderPath_nil, List.append_nil, splitOn_of_not_mem (slash_not_mem_escape k)]
    simp [unescape_escape]
  | cons q ks ih =>
    rw [renderPath_cons, splitOn_append (slash_not_mem_escape k), List.map_cons, ih, unescape_escape]

theorem segments_root : segments ['/'] = [] := rfl

/-- **A rendered path is read back**, unless it is the path of the empty key alone. -/
theorem segments_renderPath {ks : List Str} (hne : ks ≠ []) (hempty : ks ≠ [[]]) :
    segments (renderPath ks) = ks := by
  cases ks with
  | nil => exact absurd rfl hne
  | cons k ks =>
    have hroot : renderPath (k :: ks) ≠ ['/'] := by
      rw [renderPath_cons]
      intro h
      have hnil := List.append_eq_nil_iff.mp (List.cons.inj h).2
      have hks : ks = [] := by
        by_contra hks
        exact renderPath_ne_nil hks hnil.2
      have hk : k = [] := by
        rw [← unescape_escape k, hnil.1]
        rfl
      exact hempty (by rw [hk, hks])
    unfold segments
    rw [if_neg hroot, renderPath_cons]
    exact map_unescape_splitOn k ks

/-! ## Paths a change can carry -/

theorem newline_mem_escape (s : Str) : '\n' ∈ escape s ↔ '\n' ∈ s := by
  induction s with
  | nil => simp [escape, replaceChar]
  | cons x s ih =>
    rw [escape_cons, List.mem_append, List.mem_cons, ih]
    refine or_congr_left ?_
    split_ifs with h1 h2
    · simp [h1]
    · simp [h2]
    · simp [eq_comm]

theorem newline_mem_renderPath (ks : List Str) :
    '\n' ∈ renderPath ks ↔ ∃ k ∈ ks, '\n' ∈ k := by
  induction ks with
  | nil => simp
  | cons k ks ih =>
    rw [renderPath_cons, List.mem_cons, List.mem_append, newline_mem_escape, ih]
    simp

theorem isPath_renderPath {ks : List Str} (h : ks ≠ []) : isPath (renderPath ks) = true ↔ ∀ k ∈ ks, '\n' ∉ k := by
  cases ks with
  | nil => exact absurd rfl h
  | cons k ks =>
    have hmem := newline_mem_renderPath (k :: ks)
    rw [renderPath_cons, List.mem_cons] at hmem
    rw [renderPath_cons, isPath, decide_eq_true_iff]
    constructor
    · intro hno q hq hn
      rcases hmem.mpr ⟨q, hq, hn⟩ with hslash | hin
      · exact absurd hslash (by decide)
      · exact hno hin
    · intro hno hin
      obtain ⟨q, hq, hn⟩ := hmem.mp (Or.inr hin)
      exact hno q hq hn

end Ai00.Revision
