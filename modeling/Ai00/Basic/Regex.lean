import Ai00.Basic.Python

/-! # Regular expressions

The part of Python's `re` the repository uses. `Regex.run` lists the ways an expression matches
at a position, in the order a backtracking matcher tries them; the first one is the match. A
repetition is one of characters of a class, as in every pattern here. `tokens` reads a whole
text from left to right into single characters and matches; `sub`, `split` and `findall` are
read off it. Only patterns that match no empty text are read this way, and their tokens are the
whole text (`tokensText_tokens`).
-/

namespace Ai00

/-- A position in a text: what was read, last character first, and what is left. -/
structure Cursor where
  before : Str
  after : Str
  groups : List (Nat × Str)

inductive Regex where
  | empty
  /-- One character of a class. -/
  | one (p : Char → Bool)
  /-- At least `lo` characters of a class, as many as possible or, if `lazy`, as few. -/
  | many (p : Char → Bool) (lo : Nat) (lazy : Bool)
  | seq (a b : Regex)
  | alt (a b : Regex)
  /-- A zero-width test of what was read and what is left. -/
  | test (f : Str → Str → Bool)
  /-- `(?=a)`. -/
  | ahead (a : Regex)
  | group (n : Nat) (a : Regex)

/-- A match: its text and the texts of its groups. -/
structure Match where
  text : Str
  groups : List (Nat × Str)

def Match.group (m : Match) (n : Nat) : Str := (m.groups.lookup n).getD []

namespace Regex

/-! ## Matching -/

/-- The positions after 0, 1, 2, … characters of a class. -/
def advance (p : Char → Bool) (groups : List (Nat × Str)) : Str → Str → List Cursor
  | before, [] => [⟨before, [], groups⟩]
  | before, c :: after =>
    ⟨before, c :: after, groups⟩ :: if p c then advance p groups (c :: before) after else []

/-- The text between two positions. -/
def taken (start stop : Cursor) : Str :=
  start.after.take (start.after.length - stop.after.length)

def run : Regex → Cursor → List Cursor
  | .empty, c => [c]
  | .one p, c =>
    match c.after with
    | [] => []
    | x :: rest => if p x then [⟨x :: c.before, rest, c.groups⟩] else []
  | .many p lo lazy, c =>
    let ends := (advance p c.groups c.before c.after).drop lo
    if lazy then ends else ends.reverse
  | .seq a b, c => (run a c).flatMap (run b)
  | .alt a b, c => run a c ++ run b c
  | .test f, c => if f c.before c.after then [c] else []
  | .ahead a, c => if (run a c).isEmpty then [] else [c]
  | .group n a, c => (run a c).map (fun d => { d with groups := d.groups ++ [(n, taken c d)] })

section

variable {c : Cursor}

theorem run_empty : run .empty c = [c] := rfl

theorem run_one {p : Char → Bool} : run (.one p) c = match c.after with
    | [] => []
    | x :: rest => if p x then [⟨x :: c.before, rest, c.groups⟩] else [] := rfl

theorem run_many {p : Char → Bool} {lo : Nat} {lazy : Bool} : run (.many p lo lazy) c
    = if lazy then (advance p c.groups c.before c.after).drop lo
      else ((advance p c.groups c.before c.after).drop lo).reverse := rfl

theorem run_test {f : Str → Str → Bool} : run (.test f) c = if f c.before c.after then [c] else [] := rfl

theorem run_ahead {a : Regex} : run (.ahead a) c = if (run a c).isEmpty then [] else [c] := rfl

end

def matchAt (r : Regex) (before after : Str) : Option Match :=
  (run r ⟨before, after, []⟩).head?.map (fun d => ⟨taken ⟨before, after, []⟩ d, d.groups⟩)

/-- `re.match`. -/
def pyMatch (r : Regex) (s : Str) : Option Match := matchAt r [] s

/-- `re.fullmatch`: the first way that reads everything. -/
def fullmatch (r : Regex) (s : Str) : Option Match :=
  ((run r ⟨[], s, []⟩).find? (fun d => d.after.isEmpty)).map (fun d => ⟨s, d.groups⟩)

/-- The text as characters and matches, from left to right; `skip` characters belong to the
last match. -/
def tokensFrom (r : Regex) : Nat → Str → Str → List (Char ⊕ Match)
  | _, _, [] => []
  | skip + 1, before, c :: after => tokensFrom r skip (c :: before) after
  | 0, before, c :: after =>
    match matchAt r before (c :: after) with
    | none => .inl c :: tokensFrom r 0 (c :: before) after
    | some m => .inr m :: tokensFrom r (m.text.length - 1) (c :: before) after

def tokens (r : Regex) (s : Str) : List (Char ⊕ Match) := tokensFrom r 0 [] s

/-- `re.search`. -/
def search (r : Regex) (s : Str) : Option Match := (tokens r s).findSome? Sum.getRight?

/-- `re.findall`, as matches. -/
def findall (r : Regex) (s : Str) : List Match := (tokens r s).filterMap Sum.getRight?

/-- `re.subn`. -/
def subn (r : Regex) (replacement : Match → Str) (s : Str) : Str × Nat :=
  ((tokens r s).flatMap (Sum.elim (fun c => [c]) replacement), (findall r s).length)

/-- `re.sub`. -/
def sub (r : Regex) (replacement : Match → Str) (s : Str) : Str := (subn r replacement s).1

def between : List (Char ⊕ Match) → List Str
  | [] => [[]]
  | .inl c :: rest =>
    match between rest with
    | [] => [[c]]
    | piece :: pieces => (c :: piece) :: pieces
  | .inr _ :: rest => [] :: between rest

/-- `re.split`. -/
def split (r : Regex) (s : Str) : List Str := between (tokens r s)

/-! ## What a match reads -/

variable {before after : Str} {p : Char → Bool}

theorem advance_reads {groups : List (Nat × Str)}
    {d : Cursor} (h : d ∈ advance p groups before after) : ∃ x, (∀ c ∈ x, p c = true)
      ∧ after = x ++ d.after ∧ d.before = x.reverse ++ before ∧ d.groups = groups := by
  induction after generalizing before with
  | nil =>
    rw [advance, List.mem_singleton] at h
    exact ⟨[], by simp, by simp [h]⟩
  | cons c after ih =>
    rw [advance, List.mem_cons] at h
    rcases h with rfl | h
    · exact ⟨[], by simp⟩
    · by_cases hc : p c = true
      · rw [if_pos hc] at h
        obtain ⟨x, hx, hafter, hbefore, hgroups⟩ := ih h
        exact ⟨c :: x, List.forall_mem_cons.mpr ⟨hc, hx⟩, by rw [hafter, List.cons_append],
          by simp [hbefore], hgroups⟩
      · rw [if_neg hc] at h
        exact absurd h List.not_mem_nil

theorem mem_run_test {f : Str → Str → Bool} {c d : Cursor} :
    d ∈ run (.test f) c ↔ f c.before c.after = true ∧ d = c := by
  rw [run_test]
  by_cases hf : f c.before c.after = true
  · rw [if_pos hf, List.mem_singleton]
    exact ⟨fun h => ⟨hf, h⟩, fun h => h.2⟩
  · rw [if_neg hf]
    exact ⟨fun h => absurd h List.not_mem_nil, fun h => absurd h.1 hf⟩

theorem mem_run_ahead {a : Regex} {c d : Cursor} (h : d ∈ run (.ahead a) c) : d = c := by
  rw [run_ahead] at h
  by_cases ha : (run a c).isEmpty = true
  · simp [ha] at h
  · rw [if_neg ha, List.mem_singleton] at h
    exact h

theorem mem_run_group {n : Nat} {a : Regex} {c d : Cursor} (h : d ∈ run (.group n a) c) :
    ∃ e ∈ run a c, d.after = e.after ∧ d.groups = e.groups ++ [(n, taken c e)] := by
  obtain ⟨e, he, rfl⟩ := List.mem_map.mp h
  exact ⟨e, he, rfl, rfl⟩

variable {r : Regex}

/-- A matcher moves over a part of the text. -/
theorem run_reads {c d : Cursor} (h : d ∈ run r c) :
    ∃ x, c.after = x ++ d.after ∧ d.before = x.reverse ++ c.before := by
  induction r generalizing c d with
  | empty =>
    rw [run_empty, List.mem_singleton] at h
    exact ⟨[], by simp [h]⟩
  | one p =>
    rw [run_one] at h
    cases hc : c.after with
    | nil => simp [hc] at h
    | cons x rest =>
      simp only [hc] at h
      by_cases hx : p x = true
      · rw [if_pos hx, List.mem_singleton] at h
        exact ⟨[x], by simp [h]⟩
      · simp [hx] at h
  | many p lo lazy =>
    have hmem : d ∈ advance p c.groups c.before c.after := by
      rw [run_many] at h
      cases lazy with
      | true => exact List.mem_of_mem_drop h
      | false => exact List.mem_of_mem_drop (List.mem_reverse.mp h)
    obtain ⟨x, -, hafter, hbefore, -⟩ := advance_reads hmem
    exact ⟨x, hafter, hbefore⟩
  | seq a b iha ihb =>
    obtain ⟨e, he, hd⟩ := List.mem_flatMap.mp h
    obtain ⟨x, hx, hx'⟩ := iha he
    obtain ⟨y, hy, hy'⟩ := ihb hd
    exact ⟨x ++ y, by rw [hx, hy, List.append_assoc], by simp [hy', hx']⟩
  | alt a b iha ihb => exact (List.mem_append.mp h).elim iha ihb
  | test f => exact ⟨[], by simp [(mem_run_test.mp h).2]⟩
  | ahead a => exact ⟨[], by simp [mem_run_ahead h]⟩
  | group n a ih =>
    obtain ⟨e, he, rfl⟩ := List.mem_map.mp h
    obtain ⟨x, hafter, hbefore⟩ := ih he
    exact ⟨x, hafter, hbefore⟩

theorem taken_of_reads {c d : Cursor} {x : Str} (h : c.after = x ++ d.after) : taken c d = x := by
  rw [taken, h, List.length_append, Nat.add_sub_cancel, List.take_left]

/-- An expression that begins with a character of a class reads one. -/
theorem run_one_seq {c d : Cursor} (h : d ∈ run (.seq (.one p) r) c) :
    ∃ x e, p x = true ∧ e ∈ run (.one p) c ∧ c.after = x :: e.after ∧ d ∈ run r e := by
  obtain ⟨e, he, hd⟩ := List.mem_flatMap.mp h
  have hone := he
  rw [run_one] at hone
  cases hc : c.after with
  | nil => simp [hc] at hone
  | cons x rest =>
    simp only [hc] at hone
    by_cases hx : p x = true
    · rw [if_pos hx, List.mem_singleton] at hone
      exact ⟨x, e, hx, he, by simp [hone], hd⟩
    · simp [hx] at hone

theorem matchAt_eq_some {m : Match}
    (h : matchAt r before after = some m) : ∃ d ∈ run r ⟨before, after, []⟩,
      after = m.text ++ d.after ∧ m.groups = d.groups := by
  rw [matchAt, Option.map_eq_some_iff] at h
  obtain ⟨d, hd, rfl⟩ := h
  have hmem := List.mem_of_mem_head? hd
  obtain ⟨x, hx, -⟩ := run_reads hmem
  refine ⟨d, hmem, ?_, rfl⟩
  rw [taken_of_reads hx]
  exact hx

def groupFree : Regex → Bool
  | .seq a b | .alt a b => groupFree a && groupFree b
  | .ahead a => groupFree a
  | .group _ _ => false
  | _ => true

theorem run_groups (hr : r.groupFree = true) {c d : Cursor} (h : d ∈ run r c) :
    d.groups = c.groups := by
  induction r generalizing c d with
  | empty =>
    rw [run_empty, List.mem_singleton] at h
    rw [h]
  | one p =>
    rw [run_one] at h
    cases hc : c.after with
    | nil => simp [hc] at h
    | cons x rest =>
      simp only [hc] at h
      by_cases hx : p x = true
      · rw [if_pos hx, List.mem_singleton] at h
        rw [h]
      · simp [hx] at h
  | many p lo lazy =>
    have hmem : d ∈ advance p c.groups c.before c.after := by
      rw [run_many] at h
      cases lazy with
      | true => exact List.mem_of_mem_drop h
      | false => exact List.mem_of_mem_drop (List.mem_reverse.mp h)
    obtain ⟨-, -, -, -, hgroups⟩ := advance_reads hmem
    exact hgroups
  | seq a b iha ihb =>
    obtain ⟨ha, hb⟩ := Bool.and_eq_true_iff.mp hr
    obtain ⟨e, he, hd⟩ := List.mem_flatMap.mp h
    rw [ihb hb hd, iha ha he]
  | alt a b iha ihb =>
    obtain ⟨ha, hb⟩ := Bool.and_eq_true_iff.mp hr
    exact (List.mem_append.mp h).elim (iha ha) (ihb hb)
  | test f => rw [(mem_run_test.mp h).2]
  | ahead a => rw [mem_run_ahead h]
  | group n a => cases hr

/-- All positions but the first are behind a character of the class. -/
theorem mem_advance_drop {groups : List (Nat × Str)}
    {d : Cursor} (h : d ∈ (advance p groups before after).drop 1) :
    ∃ x rest, after = x :: rest ∧ p x = true ∧ d ∈ advance p groups (x :: before) rest := by
  cases after with
  | nil => simp [advance] at h
  | cons x rest =>
    rw [advance, List.drop_succ_cons, List.drop_zero] at h
    by_cases hx : p x = true
    · rw [if_pos hx] at h
      exact ⟨x, rest, rfl, hx, h⟩
    · rw [if_neg hx] at h
      exact absurd h List.not_mem_nil

/-- A repetition at the end of an expression reads characters of its class. -/
theorem run_seq_plus {c d : Cursor}
    (h : d ∈ run (.seq r (.many p 1 false)) c) : ∃ front w, (∀ x ∈ w, p x = true) ∧ w ≠ []
      ∧ c.after = front ++ w ++ d.after := by
  obtain ⟨e, he, hd⟩ := List.mem_flatMap.mp h
  obtain ⟨front, hfront, -⟩ := run_reads he
  rw [run_many] at hd
  obtain ⟨x, rest, hrest, hx, hmem⟩ := mem_advance_drop (List.mem_reverse.mp hd)
  obtain ⟨w, hw, hafter, -, -⟩ := advance_reads hmem
  refine ⟨front, x :: w, List.forall_mem_cons.mpr ⟨hx, hw⟩, by simp, ?_⟩
  rw [hfront, hrest, hafter]
  simp

def tokensText (tokens : List (Char ⊕ Match)) : Str :=
  tokens.flatMap (Sum.elim (fun c => [c]) Match.text)

theorem tokensText_tokensFrom (hr : ∀ before after m, matchAt r before after = some m → m.text ≠ [])
    (skip : Nat) (before after : Str) :
    tokensText (tokensFrom r skip before after) = after.drop skip := by
  induction after generalizing skip before with
  | nil => simp [tokensFrom, tokensText]
  | cons c after ih =>
    cases skip with
    | succ skip => rw [tokensFrom, ih, List.drop_succ_cons]
    | zero =>
      rw [tokensFrom]
      cases hm : matchAt r before (c :: after) with
      | none =>
        show c :: tokensText (tokensFrom r 0 (c :: before) after) = c :: after
        rw [ih, List.drop_zero]
      | some m =>
        obtain ⟨d, -, htext, -⟩ := matchAt_eq_some hm
        obtain ⟨x, text, hmtext⟩ := List.exists_cons_of_ne_nil (hr _ _ _ hm)
        rw [hmtext, List.cons_append, List.cons.injEq] at htext
        show m.text ++ tokensText (tokensFrom r (m.text.length - 1) (c :: before) after) = _
        rw [ih, hmtext, htext.2, List.length_cons, Nat.add_sub_cancel, List.drop_left, htext.1]
        rfl

theorem tokensText_tokens (hr : ∀ before after m, matchAt r before after = some m → m.text ≠ []) (s : Str) :
    tokensText (tokens r s) = s := tokensText_tokensFrom hr 0 [] s

theorem matchAt_of_mem_tokensFrom {m : Match} {skip : Nat}
    (h : .inr m ∈ tokensFrom r skip before after) :
    ∃ before after, matchAt r before after = some m := by
  induction after generalizing skip before with
  | nil => simp [tokensFrom] at h
  | cons c after ih =>
    cases skip with
    | succ skip => exact ih h
    | zero =>
      rw [tokensFrom] at h
      cases hm : matchAt r before (c :: after) with
      | none =>
        rw [hm] at h
        exact ih (by simpa using h)
      | some m' =>
        rw [hm] at h
        rcases List.mem_cons.mp h with h | h
        · exact ⟨before, c :: after, by rw [hm, Sum.inr.inj h]⟩
        · exact ih h

/-! ## Notation of patterns -/

def seqs (parts : List Regex) : Regex := parts.foldr .seq .empty

/-- Alternatives, the first one first. -/
def alts : List Regex → Regex
  | [] => .test (fun _ _ => false)
  | [a] => a
  | a :: rest => .alt a (alts rest)

/-- `a?`. -/
def opt (a : Regex) : Regex := .alt a .empty

/-- `p*` and `p+`. -/
def star (p : Char → Bool) : Regex := .many p 0 false

def plus (p : Char → Bool) : Regex := .many p 1 false

def text (s : String) : Regex := seqs (s.toList.map (fun c => .one (fun x => x = c)))

/-- `x` without its case: the four letters beyond ASCII that `re.IGNORECASE` takes for an ASCII
letter count as that letter. -/
def foldCase (c : Char) : Char :=
  if c.toNat = 0x130 ∨ c.toNat = 0x131 then 'i'
  else if c.toNat = 0x17F then 's'
  else if c.toNat = 0x212A then 'k'
  else c.toLower

/-- A class under `re.IGNORECASE`, given by its lower-case letters. -/
def nocase (p : Char → Bool) (c : Char) : Bool := p (foldCase c)

/-- The characters of a lower-case text under `re.IGNORECASE`. -/
def textI (s : String) : Regex := seqs (s.toList.map (fun c => .one (nocase (fun x => x = c))))

/-- The beginning of the text. -/
def start : Regex := .test (fun before _ => before.isEmpty)

/-- `$`: the end, or a line feed that ends the text. -/
def dollar : Regex := .test (fun _ after => after = [] ∨ after = ['\n'])

/-- `\b`, over the letters and digits of Unicode. -/
def wordBoundary (isAlnum : Char → Bool) : Regex :=
  let isWord : Option Char → Bool := fun c => c.any (fun x => isAlnum x || x = '_')
  .test (fun before after => isWord before.head? != isWord after.head?)

end Regex

/-- `str.isalnum` on one code point. -/
structure Alphabet where
  isAlnum : Char → Bool
  ascii : ∀ c : Char, c.toNat < 128 → isAlnum c = c.isAlphanum

/-- No letters or digits but those of ASCII. -/
def Alphabet.asciiOnly : Alphabet := ⟨Char.isAlphanum, fun _ _ => rfl⟩

/-- `\b`. -/
def Alphabet.boundary (a : Alphabet) : Regex := Regex.wordBoundary a.isAlnum

end Ai00
