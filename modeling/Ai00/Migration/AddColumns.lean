import Ai00.Migration.SqlText

/-! # One `ADD COLUMN` an `ALTER`

`_split_multi_add_column_alters` of `capability_v2/domain_migrations.py`. It splits a text into
statements, rewrites those that add several columns, and joins everything with `;` again; later
the joined text is split once more. What that should give is `singleColumnAlters` of every
statement, and it does exactly when every statement is `Kept` (`splitsAlters_iff`): a statement
that ends in an open line comment takes the `;` behind it into the comment, a `, ADD COLUMN` in
quotes or parentheses is no boundary, and a single `ADD COLUMN` loses its comments.
-/

namespace Ai00.Migration

open Regex

/-- The text of a migration, with its line ends made canonical. -/
structure MigrationSql where
  text : Str
  canonical : '\r' ∉ text

/-! ## `_split_multi_add_column_alters` -/

section

variable (alphabet : Alphabet)

/-- `[A-Z0-9_]` under `re.I`. -/
def isNameChar : Char → Bool := nocase (fun c => c.isLower || c.isDigit || c = '_')

/-- `\s*ALTER\s+TABLE\s+[A-Z0-9_]+\s+`, where the name may have backquotes. -/
def alterHead : Regex :=
  .seq (seqs [star isSpace, textI "alter", plus isSpace, textI "table", plus isSpace,
    opt (.one (fun c => c = '`')), plus isNameChar, opt (.one (fun c => c = '`'))]) (plus isSpace)

/-- `ADD\s+COLUMN\s+.+`. -/
def alterBody : Regex :=
  seqs [textI "add", plus isSpace, textI "column", plus isSpace, plus (fun _ => true)]

def alterPattern : Regex := seqs [start, .group 1 alterHead, .group 2 alterBody, dollar]

/-- `,\s*(?=ADD\s+COLUMN\b)`. -/
def boundary : Regex :=
  .seq (.one (fun c => c = ','))
    (.seq (star isSpace)
      (.ahead (seqs [textI "add", plus isSpace, textI "column", alphabet.boundary])))

/-- One round of the loop. -/
def expand (statement : Str) : List Str :=
  match pyMatch alterPattern (stripSqlComments statement) with
  | none => [statement]
  | some m => (split (boundary alphabet) (m.group 2)).map (m.group 1 ++ ·)

def joined (expanded : List Str) : Str :=
  ";\n".toList.intercalate expanded ++ if expanded = [] then [] else [';']

def splitMultiAddColumnAlters (sql : Str) : Except MigrationError Str := do
  let statements ← splitSql sql
  return joined (statements.flatMap (expand alphabet))

end

/-! ## What it is for -/

/-- How deep in parentheses a text ends, those in quotes and comments apart. -/
def nesting (place : Place) (depth : Nat) : Str → Option Char → Nat
  | [], _ => depth
  | c :: rest, follow =>
    let inner :=
      if place ≠ .start then depth
      else if c = '(' then depth + 1
      else if c = ')' then depth - 1
      else depth
    nesting (place.step isFeed c (rest.head?.or follow)) inner rest follow

/-- A text that ends outside quotes, comments and parentheses, before a comma. -/
def TopLevel (before : Str) : Prop :=
  scan .start before (some ',') = .start ∧ nesting .start 0 before (some ',') = 0

instance (before : Str) : Decidable (TopLevel before) :=
  inferInstanceAs (Decidable
    (scan .start before (some ',') = .start ∧ nesting .start 0 before (some ',') = 0))

/-- The tokens with the matches inside quotes or parentheses taken for plain text. -/
def topTokens (before : Str) : List (Char ⊕ Match) → List (Char ⊕ Match)
  | [] => []
  | .inl c :: rest => .inl c :: topTokens (before ++ [c]) rest
  | .inr m :: rest =>
    (if TopLevel before then [.inr m] else m.text.map .inl) ++ topTokens (before ++ m.text) rest

section

variable (alphabet : Alphabet)

/-- The statements that a statement stands for: one `ALTER` for each of its columns, if it adds
several, and itself otherwise. -/
def singleColumnAlters (statement : Str) : List Str :=
  match pyMatch alterPattern (stripSqlComments statement) with
  | none => [statement]
  | some m =>
    let clauses := between (topTokens (m.group 1) (tokens (boundary alphabet) (m.group 2)))
    if scan .start (m.group 1) none = .start ∧ 1 < clauses.length then
      clauses.map fun clause => strip (m.group 1 ++ clause)
    else [statement]

/-- Splitting the rewritten text gives the statements that the statements stand for. -/
def SplitsAlters (sql : MigrationSql) : Prop :=
  ∀ statements, splitSql sql.text = .ok statements →
    (splitMultiAddColumnAlters alphabet sql.text >>= splitSql)
      = .ok (statements.flatMap (singleColumnAlters alphabet))

def AllTop (before : Str) : List (Char ⊕ Match) → Prop
  | [] => True
  | .inl c :: rest => AllTop (before ++ [c]) rest
  | .inr m :: rest => TopLevel before ∧ AllTop (before ++ m.text) rest

/-- A statement that comes through: it does not end in a line comment; if it adds one column it
has no comment, and if it adds several no `, ADD COLUMN` is in quotes or parentheses. -/
def Kept (statement : Str) : Prop :=
  match pyMatch alterPattern (stripSqlComments statement) with
  | none => scan .start statement none = .start
  | some m =>
    if findall (boundary alphabet) (m.group 2) = [] then stripSqlComments statement = statement
    else scan .start (m.group 1) none = .start
      ∧ AllTop (m.group 1) (tokens (boundary alphabet) (m.group 2))

end

/-! ## What the patterns read -/

theorem not_isSpace_last {x : Str} {c : Char} (h : strip (x ++ [c]) = x ++ [c]) :
    isSpace c = false := by
  have hreverse : c :: x.reverse = ((x ++ [c]).dropWhile isSpace).reverse.dropWhile isSpace := by
    have := congrArg List.reverse h
    rw [strip, List.reverse_reverse] at this
    simpa using this.symm
  exact head?_dropWhile _ c (by rw [← hreverse]; rfl)

/-- A statement that matches is a head, which ends in a blank, and a body. -/
theorem pyMatch_alterPattern {s : Str} {m : Match} (h : pyMatch alterPattern s = some m)
    (hs : strip s = s) : s = m.group 1 ++ m.group 2
      ∧ ∃ front w, (∀ c ∈ w, isSpace c = true) ∧ w ≠ [] ∧ m.group 1 = front ++ w := by
  obtain ⟨d, hd, -, hgroups⟩ := matchAt_eq_some h
  obtain ⟨c₀, h₀, hd⟩ := List.mem_flatMap.mp hd
  obtain rfl := (mem_run_test.mp h₀).2
  obtain ⟨c₁, h₁, hd⟩ := List.mem_flatMap.mp hd
  obtain ⟨c₂, h₂, hd⟩ := List.mem_flatMap.mp hd
  obtain ⟨c₃, h₃, hd⟩ := List.mem_flatMap.mp hd
  obtain rfl : d = c₃ := by simpa [run] using hd
  obtain ⟨hdollar, rfl⟩ := mem_run_test.mp h₃
  obtain ⟨e₁, he₁, hafter₁, hgroups₁⟩ := mem_run_group h₁
  obtain ⟨e₂, he₂, hafter₂, hgroups₂⟩ := mem_run_group h₂
  obtain ⟨front, w, hw, hne, hhead⟩ := run_seq_plus he₁
  obtain ⟨body, hbody, -⟩ := run_reads he₂
  rw [hafter₁] at hbody
  -- a text that is stripped does not end in a line feed, so the match goes to the end
  have hall : d.after = [] := by
    have hdollar : d.after = [] ∨ d.after = ['\n'] := by simpa using hdollar
    refine hdollar.resolve_right fun hfeed => ?_
    have hsplit : s = front ++ w ++ body ++ ['\n'] := by
      rw [← hfeed, hafter₂, List.append_assoc, ← hbody]
      exact hhead
    exact absurd (not_isSpace_last (hsplit ▸ hs)) (by decide)
  have htext : s = front ++ w ++ body := by
    have hend : e₂.after = [] := by rw [← hafter₂, hall]
    rw [hend, List.append_nil] at hbody
    rw [← hbody]
    exact hhead
  have htaken₁ : taken ⟨[], s, []⟩ e₁ = front ++ w := taken_of_reads hhead
  have htaken₂ : taken c₁ e₂ = body := taken_of_reads (by rw [hafter₁, hbody])
  have hlookup : m.groups = [(1, front ++ w), (2, body)] := by
    have hfree₁ : e₁.groups = [] := run_groups (by rfl) he₁
    have hfree₂ : e₂.groups = c₁.groups := run_groups (by rfl) he₂
    rw [hgroups, hgroups₂, hfree₂, hgroups₁, hfree₁, htaken₁, htaken₂]
    rfl
  have hone : m.group 1 = front ++ w := by rw [Match.group, hlookup]; rfl
  have htwo : m.group 2 = body := by rw [Match.group, hlookup]; rfl
  rw [hone, htwo]
  exact ⟨htext, front, w, hw, hne, rfl⟩

theorem matchAt_boundary {alphabet : Alphabet} {before after : Str} {m : Match}
    (h : matchAt (boundary alphabet) before after = some m) :
    ∃ w, m.text = ',' :: w ∧ ∀ c ∈ w, isSpace c = true := by
  obtain ⟨d, hd, htext, -⟩ := matchAt_eq_some h
  obtain ⟨x, e, hx, -, hafter, hd⟩ := run_one_seq hd
  obtain rfl : x = ',' := by simpa using hx
  obtain ⟨f, hf, hd⟩ := List.mem_flatMap.mp hd
  obtain rfl := mem_run_ahead hd
  have hmem : d ∈ advance isSpace e.groups e.before e.after :=
    List.mem_of_mem_drop (List.mem_reverse.mp hf)
  obtain ⟨w, hw, hrest, -, -⟩ := advance_reads hmem
  refine ⟨w, ?_, hw⟩
  have hafter : after = ',' :: e.after := hafter
  rw [hafter, hrest, ← List.cons_append] at htext
  exact (List.append_cancel_right htext).symm

theorem tokensText_boundary (alphabet : Alphabet) (body : Str) :
    tokensText (tokens (boundary alphabet) body) = body := by
  refine tokensText_tokens (fun before after m h => ?_) body
  obtain ⟨w, htext, -⟩ := matchAt_boundary h
  simp [htext]

theorem mem_tokens_boundary {alphabet : Alphabet} {body : Str} {m : Match}
    (h : .inr m ∈ tokens (boundary alphabet) body) :
    ∃ w, m.text = ',' :: w ∧ ∀ c ∈ w, isSpace c = true := by
  obtain ⟨before, after, hm⟩ := matchAt_of_mem_tokensFrom h
  exact matchAt_boundary hm

/-! ## Pieces of a text -/

/-- The pieces between the matches, after `current`. -/
def pieces (current : Str) : List (Char ⊕ Match) → List Str
  | [] => [current]
  | .inl c :: rest => pieces (current ++ [c]) rest
  | .inr _ :: rest => current :: pieces [] rest

theorem pieces_eq (current : Str) (tokens : List (Char ⊕ Match)) :
    ∃ piece rest, between tokens = piece :: rest ∧ pieces current tokens = (current ++ piece) :: rest := by
  induction tokens generalizing current with
  | nil => exact ⟨[], [], rfl, by rw [pieces, List.append_nil]⟩
  | cons token tokens ih =>
    cases token with
    | inl c =>
      obtain ⟨piece, rest, hbetween, hpieces⟩ := ih (current ++ [c])
      exact ⟨c :: piece, rest, by rw [between, hbetween], by rw [pieces, hpieces]; simp⟩
    | inr m =>
      obtain ⟨piece, rest, hbetween, hpieces⟩ := ih []
      refine ⟨[], piece :: rest, by rw [between, hbetween], ?_⟩
      rw [pieces, hpieces, List.nil_append, List.append_nil]

theorem between_eq_pieces (tokens : List (Char ⊕ Match)) : between tokens = pieces [] tokens := by
  obtain ⟨piece, rest, hbetween, hpieces⟩ := pieces_eq [] tokens
  rw [hbetween, hpieces, List.nil_append]

theorem pieces_plain (current s : Str) (tokens : List (Char ⊕ Match)) :
    pieces current (s.map .inl ++ tokens) = pieces (current ++ s) tokens := by
  induction s generalizing current with
  | nil => rw [List.map_nil, List.nil_append, List.append_nil]
  | cons c s ih => rw [List.map_cons, List.cons_append, pieces, ih]; simp

/-! ## Splitting what was joined -/

theorem joined_cons (piece : Str) (rest : List Str) :
    joined (piece :: rest) = piece ++ ';' :: if rest = [] then [] else '\n' :: joined rest := by
  cases rest with
  | nil => simp [joined, List.intercalate]
  | cons next rest =>
    rw [joined, List.intercalate_cons_cons, joined]
    simp

theorem splitFrom_feed (rest : Str) : splitFrom .start [] ('\n' :: rest) = splitFrom .start [] rest := by
  rw [splitFrom_cons, if_neg (by simp)]
  exact splitFrom_space (w := ['\n']) (by simp [isSpace]) .start [] rest

theorem splitSql_joined {piece : Str} (hne : strip piece ≠ [])
    (hunbroken : Unbroken .start piece (some ';')) (hscan : scan .start piece (some ';') = .start)
    (rest : List Str) : splitSql (joined (piece :: rest)) = do
      let statements ← splitSql (joined rest)
      return strip piece :: statements := by
  rw [joined_cons, splitSql, splitFrom_statement hunbroken hscan, statementOf, if_neg hne]
  cases rest with
  | nil => rfl
  | cons next rest =>
    rw [if_neg (by simp), splitFrom_feed]
    rfl

theorem bind_return_cons {ε α : Type} {x : Except ε (List α)} {a b : α} {l : List α} :
    (do let tail ← x; return a :: tail) = .ok (b :: l) ↔ a = b ∧ x = .ok l := by
  cases x with
  | error e => exact iff_of_false nofun nofun
  | ok tail =>
    show Except.ok (a :: tail) = .ok (b :: l) ↔ _
    simp

theorem comma_not_space : isSpace ',' = false := rfl

theorem semicolon_not_space : isSpace ';' = false := rfl

/-- The comma of a boundary, outside quotes, is code. -/
theorem scan_comma {w : Str} (hw : ∀ c ∈ w, isSpace c = true) (follow : Option Char) :
    scan .start (',' :: w) follow = .start := by
  have hstep : ∀ nxt, Place.start.step isFeed ',' nxt = .start := fun nxt => by
    have hskip : Place.start.step isFeed ',' nxt = Lexing.next isFeed .code ',' nxt := rfl
    rw [hskip]
    simp [Lexing.next, Quote.ofChar?, Place.start]
  rw [scan_cons, hstep, (scan_space hw follow).1]

/-- What a piece becomes is not a text that goes on with a comma. -/
theorem splitSql_ne_longer {a : Char} {s rest : Str} {statements : List Str} (ha : isSpace a = false)
    (hunbroken : Unbroken .start (a :: s) (some ';'))
    (h : splitSql (a :: s ++ ';' :: rest) = .ok statements) (z : Str) :
    statements.head? ≠ some (strip (a :: s ++ ',' :: z)) := by
  obtain ⟨z', hz'⟩ := strip_append_cons ha comma_not_space s z
  rw [hz']
  rcases splitFrom_piece ha hunbroken h with ⟨-, hhead⟩ | ⟨-, z'', hhead⟩
  · -- the piece is closed, and shorter
    rw [hhead]
    intro heq
    have hlength := congrArg List.length (Option.some.inj heq)
    have hshort := (strip_isInfix (a :: s)).length_le
    simp only [List.length_append, List.length_cons] at hlength hshort
    omega
  · rw [hhead]
    intro heq
    have hsuffix := List.append_cancel_left (Option.some.inj heq)
    cases hsuffix

theorem splitSql_ne_statement {a : Char} {s rest statement u : Str} {statements : List Str}
    (ha : isSpace a = false) (hbare : Bare .start (a :: s) (some ','))
    (hstatement : stripSqlComments statement = a :: s ++ ',' :: u)
    (h : splitSql (a :: s ++ ';' :: rest) = .ok statements) : statements.head? ≠ some statement := by
  have hbare' : Bare .start (a :: s) (some ';') := bare_neutral neutral_comma neutral_semicolon hbare
  rcases splitFrom_piece ha hbare'.unbroken h with ⟨-, hhead⟩ | ⟨hopen, z, hhead⟩
  · rw [hhead]
    intro heq
    have hlength := length_stripSqlComments statement
    have hshort := (strip_isInfix (a :: s)).length_le
    rw [hstatement, ← Option.some.inj heq] at hlength
    simp only [List.length_append, List.length_cons] at hlength hshort
    omega
  · rw [hhead]
    intro heq
    -- an open piece is in quotes, so the `;` is kept where the comma should be
    obtain ⟨quote, hquote⟩ : ∃ quote, (scan .start (a :: s) (some ';')).state = .quoted quote :=
      (scan_outside (Or.inl rfl) hbare').resolve_left hopen
    have hkept : uncommented .start (a :: s ++ ';' :: z)
        = a :: s ++ uncommented (scan .start (a :: s) (some ';')) (';' :: z) :=
      uncommented_commentFree (Or.inl rfl) hbare'.commentFree
    obtain ⟨z', hz'⟩ : ∃ z', uncommented (scan .start (a :: s) (some ';')) (';' :: z) = ';' :: z' := by
      rw [uncommented_cons]
      exact ⟨_, by simp only [emitted, hquote]; rfl⟩
    obtain ⟨z'', hz''⟩ := strip_append_cons ha semicolon_not_space s z'
    rw [← Option.some.inj heq, stripSqlComments, hkept, hz', hz''] at hstatement
    have hsuffix := List.append_cancel_left hstatement
    cases hsuffix

/-! ## Clause by clause -/

section

variable {head head' : Str} {a : Char} (hcons : head = a :: head') (ha : isSpace a = false)
  (hhead : ∀ follow, scan .start head follow = .start)
  (hunbrokenHead : ∀ follow, Unbroken .start head follow)
include hcons ha hhead hunbrokenHead

theorem splitSql_clause {clause : Str} (hunbroken : Unbroken .start clause (some ';'))
    (hscan : scan .start clause (some ';') = .start) (rest : List Str) (first : Str)
    (statements : List Str) :
    splitSql (joined ((head ++ clause) :: rest)) = .ok (first :: statements)
      ↔ strip (head ++ clause) = first ∧ splitSql (joined rest) = .ok statements := by
  rw [splitSql_joined, bind_return_cons]
  · exact strip_ne_nil ⟨a, by rw [hcons]; simp, ha⟩
  · rw [Unbroken, along_append, hhead]
    exact ⟨hunbrokenHead _, hunbroken⟩
  · rw [scan_append, hhead, hscan]

/-- **The clauses come out as they should when every boundary is at top level.** -/
theorem clauses_iff {tokens : List (Char ⊕ Match)}
    (hcommas : ∀ m, .inr m ∈ tokens → ∃ w, m.text = ',' :: w ∧ ∀ c ∈ w, isSpace c = true)
    {base current : Str} (hbase : ∀ follow, scan .start base follow = .start)
    (hunbroken : Unbroken .start (current ++ tokensText tokens) none)
    (hscan : scan .start (current ++ tokensText tokens) none = .start)
    (rest statements : List Str) :
    splitSql (joined ((pieces current tokens).map (head ++ ·) ++ rest))
        = .ok ((pieces current (topTokens (base ++ current) tokens)).map
          (fun clause => strip (head ++ clause)) ++ statements)
      ↔ AllTop (base ++ current) tokens ∧ splitSql (joined rest) = .ok statements := by
  induction tokens generalizing base current with
  | nil =>
    rw [tokensText, List.flatMap_nil, List.append_nil] at hunbroken hscan
    have hsettled : (scan .start current none).Settled := by
      rw [hscan]
      exact ⟨rfl, Or.inl rfl⟩
    have hclosed : scan .start current (some ';') = .start := by
      rw [scan_settled neutral_none neutral_semicolon hsettled, hscan]
    show splitSql (joined ((head ++ current) :: rest)) = .ok (strip (head ++ current) :: statements) ↔ True ∧ _
    rw [splitSql_clause hcons ha hhead hunbrokenHead (unbroken_follow hunbroken _) hclosed]
    simp
  | cons token tokens ih =>
    cases token with
    | inl c =>
      have htext : current ++ tokensText (.inl c :: tokens) = current ++ [c] ++ tokensText tokens := by
        simp [tokensText]
      rw [htext] at hunbroken hscan
      have := ih (fun m hm => hcommas m (List.mem_cons_of_mem _ hm)) hbase hunbroken hscan
      rw [← List.append_assoc] at this
      exact this
    | inr m =>
      obtain ⟨w, hm, hw⟩ := hcommas m List.mem_cons_self
      have htext : current ++ tokensText (.inr m :: tokens) = current ++ (',' :: w) ++ tokensText tokens := by
        simp [tokensText, hm]
      rw [htext] at hunbroken hscan
      obtain ⟨hfront, hrest⟩ := (along_append _ _ _ _).mp hunbroken
      have hcurrent : Unbroken .start current (some ';') :=
        unbroken_follow ((along_append _ _ _ _).mp hfront).1 _
      by_cases htop : TopLevel (base ++ current)
      · have hclosed : scan .start current (some ',') = .start := by
          have := htop.1
          rwa [scan_append, hbase] at this
        have hclosed' : scan .start current (some ';') = .start := by
          rw [scan_neutral neutral_semicolon neutral_comma rfl, hclosed]
        have hcomma : ∀ follow, scan .start (current ++ ',' :: w) follow = .start := fun follow => by
          rw [scan_append, List.head?_cons, Option.some_or, hclosed, scan_comma hw]
        have hbase' : ∀ follow, scan .start (base ++ current ++ m.text) follow = .start :=
          fun follow => by
            rw [hm, List.append_assoc, scan_append, hbase, hcomma]
        rw [hcomma] at hrest
        rw [scan_append, hcomma] at hscan
        have htail := @ih (fun m hm => hcommas m (List.mem_cons_of_mem _ hm)) _ [] hbase' hrest hscan
        rw [List.append_nil] at htail
        rw [topTokens, if_pos htop, AllTop, and_assoc, ← htail]
        show splitSql (joined ((head ++ current) :: _)) = .ok (strip (head ++ current) :: _) ↔ _
        rw [splitSql_clause hcons ha hhead hunbrokenHead hcurrent hclosed']
        simp [htop]
      · refine iff_of_false (fun h => ?_) fun h => htop h.1.1
        rw [topTokens, if_neg htop, pieces_plain] at h
        obtain ⟨piece, more, -, hpieces⟩ := pieces_eq (current ++ m.text)
          (topTokens (base ++ current ++ m.text) tokens)
        rw [hpieces] at h
        obtain ⟨tail, hwhole⟩ : ∃ tail, joined ((pieces current (.inr m :: tokens)).map (head ++ ·) ++ rest)
              = a :: (head' ++ current) ++ ';' :: tail := by
          rw [pieces, List.map_cons, List.cons_append, joined_cons, hcons]
          exact ⟨_, rfl⟩
        have hunbrokenPiece : Unbroken .start (a :: (head' ++ current)) (some ';') := by
          rw [← List.cons_append, ← hcons, Unbroken, along_append, hhead]
          exact ⟨hunbrokenHead _, hcurrent⟩
        rw [hwhole] at h
        refine splitSql_ne_longer ha hunbrokenPiece h (w ++ piece) ?_
        rw [hm, hcons]
        simp

end

/-! ## Statement by statement -/

variable {tokens : List (Char ⊕ Match)}

/-- Where every match is at top level, it stays a match. -/
theorem topTokens_of_allTop {before : Str} (h : AllTop before tokens) :
    topTokens before tokens = tokens := by
  induction tokens generalizing before with
  | nil => rfl
  | cons token tokens ih =>
    cases token with
    | inl c => rw [topTokens, ih h]
    | inr m => rw [topTokens, if_pos h.1, ih h.2, List.singleton_append]

theorem exists_first_match (h : tokens.filterMap Sum.getRight? ≠ [])
    (current : Str) : ∃ front m rest, .inr m ∈ tokens
      ∧ current ++ tokensText tokens = current ++ front ++ m.text ++ tokensText rest
      ∧ pieces current tokens = (current ++ front) :: pieces [] rest := by
  induction tokens generalizing current with
  | nil => exact absurd rfl h
  | cons token tokens ih =>
    cases token with
    | inl c =>
      obtain ⟨front, m, rest, hm, htext, hpieces⟩ := ih h (current ++ [c])
      refine ⟨c :: front, m, rest, List.mem_cons_of_mem _ hm, ?_, ?_⟩
      · simpa [tokensText] using htext
      · rw [pieces, hpieces]
        simp
    | inr m => exact ⟨[], m, tokens, List.mem_cons_self, by simp [tokensText], by simp [pieces]⟩

theorem allTop_of_no_match (h : tokens.filterMap Sum.getRight? = [])
    (before : Str) : AllTop before tokens := by
  induction tokens generalizing before with
  | nil => trivial
  | cons token tokens ih =>
    cases token with
    | inl c => exact ih h _
    | inr m => cases h

theorem pieces_of_no_match (h : tokens.filterMap Sum.getRight? = [])
    (current : Str) : pieces current tokens = [current ++ tokensText tokens] := by
  induction tokens generalizing current with
  | nil => simp [pieces, tokensText]
  | cons token tokens ih =>
    cases token with
    | inl c =>
      rw [pieces, ih h]
      simp [tokensText]
    | inr m => cases h

section

variable (alphabet : Alphabet)

/-- A statement that is not rewritten comes through when it ends outside comments. -/
theorem plain_iff {s : Str} (hs : IsStatement s) (rest statements : List Str) :
    splitSql (joined (s :: rest)) = .ok (s :: statements)
      ↔ scan .start s none = .start ∧ splitSql (joined rest) = .ok statements := by
  obtain ⟨a, s', rfl⟩ := List.exists_cons_of_ne_nil hs.ne_nil
  have ha := not_isSpace_of_strip hs.stripped
  have hsame : scan .start (a :: s') none = scan .start (a :: s') (some ';') :=
    scan_settled neutral_semicolon neutral_none hs.settled
  rw [hsame]
  by_cases hclosed : scan .start (a :: s') (some ';') = .start
  · rw [splitSql_joined (by rw [hs.stripped]; exact hs.ne_nil) hs.unbroken hclosed, bind_return_cons, hs.stripped]
    simp [hclosed]
  · refine iff_of_false (fun h => ?_) fun h => hclosed h.1
    rw [joined_cons] at h
    rcases splitFrom_piece ha hs.unbroken h with ⟨hscan, -⟩ | ⟨-, z, hhead⟩
    · exact hclosed hscan
    · have hlength := congrArg List.length (Option.some.inj hhead)
      simp only [List.length_append, List.length_cons] at hlength
      omega

theorem single_iff {s : Str} (hs : IsStatement s) (hr : '\r' ∉ s) (hne : stripSqlComments s ≠ [])
    (rest statements : List Str) :
    splitSql (joined (stripSqlComments s :: rest)) = .ok (s :: statements)
      ↔ stripSqlComments s = s ∧ splitSql (joined rest) = .ok statements := by
  obtain ⟨hbare, hclosed⟩ := hs.stripSqlComments_bare hr
  have hstripped : strip (stripSqlComments s) = stripSqlComments s := strip_strip _
  have hsettled : (scan .start (stripSqlComments s) none).Settled := by
    rw [hclosed]
    exact ⟨rfl, Or.inl rfl⟩
  rw [splitSql_joined, bind_return_cons, hstripped]
  · rwa [hstripped]
  · exact unbroken_follow hbare.unbroken _
  · rw [scan_settled neutral_none neutral_semicolon hsettled, hclosed]

/-- **A statement comes through exactly when it is `Kept`.** -/
theorem statement_iff {s : Str} (hs : IsStatement s) (hr : '\r' ∉ s) (rest statements : List Str) :
    splitSql (joined (expand alphabet s ++ rest)) = .ok (singleColumnAlters alphabet s ++ statements)
      ↔ Kept alphabet s ∧ splitSql (joined rest) = .ok statements := by
  obtain ⟨hbare, hclosed⟩ := hs.stripSqlComments_bare hr
  have hstripped : strip (stripSqlComments s) = stripSqlComments s := strip_strip _
  cases hmatch : pyMatch alterPattern (stripSqlComments s) with
  | none =>
    simp only [expand, singleColumnAlters, Kept, hmatch]
    exact plain_iff hs rest statements
  | some m =>
    obtain ⟨htext, front, w, hw, hne, hheadText⟩ := pyMatch_alterPattern hmatch hstripped
    obtain ⟨a, head', hcons⟩ : ∃ a head', m.group 1 = a :: head' :=
      List.exists_cons_of_ne_nil (by rw [hheadText]; simp [hne])
    have ha : isSpace a = false := by
      have hself := hstripped
      conv at hself => rhs; rw [htext, hcons, List.cons_append]
      exact not_isSpace_of_strip hself
    have hbody := tokensText_boundary alphabet (m.group 2)
    simp only [expand, singleColumnAlters, Kept, hmatch, split, between_eq_pieces]
    by_cases hmatches : findall (boundary alphabet) (m.group 2) = []
    · have hone : pieces [] (tokens (boundary alphabet) (m.group 2)) = [m.group 2] := by
        rw [pieces_of_no_match hmatches, hbody, List.nil_append]
      rw [if_pos hmatches, topTokens_of_allTop (allTop_of_no_match hmatches _), hone,
        if_neg (by simp), List.map_singleton, ← htext]
      refine single_iff hs hr ?_ rest statements
      rw [htext, hcons]
      simp
    · rw [if_neg hmatches]
      obtain ⟨cut, m', more, hm', hcut, hpieces⟩ := exists_first_match hmatches []
      obtain ⟨w', hw', -⟩ := mem_tokens_boundary hm'
      rw [hbody, List.nil_append, List.nil_append, hw'] at hcut
      have hwhole : stripSqlComments s = a :: (head' ++ cut) ++ ',' :: (w' ++ tokensText more) := by
        rw [htext, hcons, hcut]
        simp
      -- where the statement should stay whole, cutting it at the first match is wrong
      have hcutWrong : splitSql (joined
          ((pieces [] (tokens (boundary alphabet) (m.group 2))).map (m.group 1 ++ ·) ++ rest))
            ≠ .ok (s :: statements) := by
        intro h
        have hbarePiece : Bare .start (a :: (head' ++ cut)) (some ',') := by
          rw [hwhole] at hbare
          exact ((along_append _ _ _ _).mp hbare).1
        obtain ⟨tail, htail⟩ : ∃ tail, joined
            ((pieces [] (tokens (boundary alphabet) (m.group 2))).map (m.group 1 ++ ·) ++ rest)
              = a :: (head' ++ cut) ++ ';' :: tail := by
          rw [hpieces, List.map_cons, List.cons_append, joined_cons, hcons]
          exact ⟨_, rfl⟩
        rw [htail] at h
        exact splitSql_ne_statement ha hbarePiece hwhole h rfl
      by_cases hhead : scan .start (m.group 1) none = .start
      · have hheadAny : ∀ follow, scan .start (m.group 1) follow = .start := fun follow => by
          have hsame := scan_blank_end hw hne .start front follow none
          rw [← hheadText] at hsame
          rw [hsame, hhead]
        by_cases hseveral :
            1 < (pieces [] (topTokens (m.group 1) (tokens (boundary alphabet) (m.group 2)))).length
        · rw [if_pos ⟨hhead, hseveral⟩]
          have hunbroken : Unbroken .start (stripSqlComments s) none := hbare.unbroken
          rw [htext, Unbroken, along_append] at hunbroken
          have hclosedBody := hclosed
          rw [htext, scan_append, hheadAny] at hclosedBody
          rw [hheadAny] at hunbroken
          have hclauses := @clauses_iff _ head' a hcons ha hheadAny
            (fun follow => unbroken_follow hunbroken.1 follow)
            (tokens (boundary alphabet) (m.group 2)) (fun m hm => mem_tokens_boundary hm)
            (m.group 1) [] hheadAny (by rw [hbody]; exact hunbroken.2)
            (by rw [hbody]; exact hclosedBody) rest statements
          rw [List.append_nil] at hclauses
          rw [hclauses]
          simp [hhead]
        · rw [if_neg fun h => hseveral h.2]
          refine iff_of_false hcutWrong fun h => hseveral ?_
          rw [topTokens_of_allTop h.1.2, hpieces, List.length_cons]
          obtain ⟨piece, pieces', -, hmore⟩ := pieces_eq [] more
          rw [hmore, List.length_cons]
          omega
      · rw [if_neg fun h => hhead h.1]
        exact iff_of_false hcutWrong fun h => hhead h.1.1

/-- **Splitting the rewritten text gives the statements meant, if and only if every statement is
`Kept`.** -/
theorem splitsAlters_iff (sql : MigrationSql) :
    SplitsAlters alphabet sql
      ↔ ∀ statements, splitSql sql.text = .ok statements → ∀ s ∈ statements, Kept alphabet s := by
  have hlist : ∀ statements : List Str, (∀ s ∈ statements, IsStatement s ∧ '\r' ∉ s) →
      (splitSql (joined (statements.flatMap (expand alphabet)))
          = .ok (statements.flatMap (singleColumnAlters alphabet))
        ↔ ∀ s ∈ statements, Kept alphabet s) := by
    intro statements
    induction statements with
    | nil => exact fun _ => iff_of_true rfl fun s hs => absurd hs List.not_mem_nil
    | cons s statements ih =>
      intro h
      obtain ⟨⟨hs, hr⟩, hrest⟩ := List.forall_mem_cons.mp h
      rw [List.flatMap_cons, List.flatMap_cons, statement_iff alphabet hs hr, ih hrest,
        List.forall_mem_cons]
  refine forall_congr' fun statements => imp_congr_right fun h => ?_
  have hrewritten : splitMultiAddColumnAlters alphabet sql.text
      = .ok (joined (statements.flatMap (expand alphabet))) := by
    rw [splitMultiAddColumnAlters, h]
    rfl
  rw [hrewritten]
  refine hlist statements fun s hs => ⟨splitSql_isStatement h s hs, fun hc => ?_⟩
  exact sql.canonical (by simpa using splitFrom_mem h hs hc)

end

/-- A first statement with a note at its end takes the next one into the note. -/
theorem note_swallows_statement : ¬ SplitsAlters Alphabet.asciiOnly
    ⟨"CREATE TABLE t (a INT) -- note\n;\nCREATE TABLE u (b INT);".toList, by decide⟩ := by
  intro h
  have hsplit := h ["CREATE TABLE t (a INT) -- note".toList, "CREATE TABLE u (b INT)".toList]
    (by decide +kernel)
  exact absurd hsplit (by decide +kernel)

end Ai00.Migration
