import Ai00.Basic.Regex

/-! # Texts of SQL statements

`split_sql` and `strip_sql_comments` of `db/versioned_migrations.py`. Both loops go over a text
with the same few states (`Lexing`) and look one character ahead. `scan` is where such a loop is
after a part of the text; with `scan_append` a text is read part by part.
-/

namespace Ai00.Migration

structure MigrationError where
  message : String
  deriving DecidableEq

/-! ## The states of the loops -/

inductive Quote where
  | single
  | double
  | back
  deriving DecidableEq

def Quote.char : Quote → Char
  | .single => '\''
  | .double => '"'
  | .back => '`'

def Quote.ofChar? (c : Char) : Option Quote :=
  if c = '\'' then some .single
  else if c = '"' then some .double
  else if c = '`' then some .back
  else none

/-- `quote`, `line_comment` and `block_comment`. -/
inductive Lexing where
  | code
  | line
  | block
  | quoted (quote : Quote)
  deriving DecidableEq

/-- Where a loop is; with `skip`, the next character was taken together with the last one. -/
structure Place where
  state : Lexing
  skip : Bool
  deriving DecidableEq

def Place.start : Place := ⟨.code, false⟩

/-- One pass of a loop; `newline` says what ends a line comment. -/
def Lexing.next (newline : Char → Bool) (state : Lexing) (c : Char) (nxt : Option Char) : Place :=
  match state with
  | .line => ⟨if newline c then .code else .line, false⟩
  | .block => if c = '*' ∧ nxt = some '/' then ⟨.code, true⟩ else ⟨.block, false⟩
  | .quoted quote =>
    if c = '\\' ∧ nxt.isSome then ⟨.quoted quote, true⟩
    else if c = quote.char then
      if nxt = some quote.char then ⟨.quoted quote, true⟩ else ⟨.code, false⟩
    else ⟨.quoted quote, false⟩
  | .code =>
    match Quote.ofChar? c with
    | some quote => ⟨.quoted quote, false⟩
    | none =>
      if c = '-' ∧ nxt = some '-' then ⟨.line, true⟩
      else if c = '#' then ⟨.line, false⟩
      else if c = '/' ∧ nxt = some '*' then ⟨.block, true⟩
      else ⟨.code, false⟩

def Place.step (newline : Char → Bool) (place : Place) (c : Char) (nxt : Option Char) : Place :=
  if place.skip then ⟨place.state, false⟩ else place.state.next newline c nxt

/-! ## `split_sql` -/

/-- What ends a line comment for `split_sql`. -/
def isFeed (c : Char) : Bool := c = '\n'

/-- `"".join(current).strip()`, unless it is empty. -/
def statementOf (current : Str) : List Str :=
  if strip current = [] then [] else [strip current]

def splitFrom (place : Place) (current : Str) : Str → Except MigrationError (List Str)
  | [] =>
    match place.state with
    | .quoted _ | .block => .error ⟨"unterminated SQL quote or block comment"⟩
    | _ => .ok (statementOf current)
  | c :: rest =>
    if place = .start ∧ c = ';' then do
      let statements ← splitFrom .start [] rest
      return statementOf current ++ statements
    else splitFrom (place.step isFeed c rest.head?) (current ++ [c]) rest

theorem splitFrom_nil (place : Place) (current : Str) : splitFrom place current [] =
    match place.state with
    | .quoted _ | .block => .error ⟨"unterminated SQL quote or block comment"⟩
    | _ => .ok (statementOf current) := rfl

theorem splitFrom_cons (place : Place) (current : Str) (c : Char) (rest : Str) :
    splitFrom place current (c :: rest) = if place = .start ∧ c = ';' then do
        let statements ← splitFrom .start [] rest
        return statementOf current ++ statements
      else splitFrom (place.step isFeed c rest.head?) (current ++ [c]) rest := rfl

def splitSql (sql : Str) : Except MigrationError (List Str) := splitFrom .start [] sql

/-! ## `strip_sql_comments` -/

/-- What ends a line comment for `strip_sql_comments`. -/
def isNewline (c : Char) : Bool := c = '\r' ∨ c = '\n'

/-- What one pass appends to `result`; a comment leaves a blank where it begins and, in a block,
one where it ends. -/
def emitted (place next : Place) (c : Char) : Str :=
  match place.state, place.skip, next.state with
  | .quoted _, _, _ => [c]
  | _, true, _ => []
  | .code, false, .line => [' ']
  | .code, false, .block => [' ']
  | .code, false, _ => [c]
  | .line, false, .code => [c]
  | .line, false, _ => []
  | .block, false, .code => [' ']
  | .block, false, _ => []

def uncommented (place : Place) : Str → Str
  | [] => []
  | c :: rest =>
    let next := place.step isNewline c rest.head?
    emitted place next c ++ uncommented next rest

theorem uncommented_nil (place : Place) : uncommented place [] = [] := rfl

theorem uncommented_cons (place : Place) (c : Char) (rest : Str) :
    uncommented place (c :: rest) = emitted place (place.step isNewline c rest.head?) c
      ++ uncommented (place.step isNewline c rest.head?) rest := rfl

def stripSqlComments (statement : Str) : Str := strip (uncommented .start statement)

/-! ## Reading part by part -/

/-- The place after a part of a text; `follow` is the character behind it. -/
def scan (place : Place) : Str → Option Char → Place
  | [], _ => place
  | c :: rest, follow => scan (place.step isFeed c (rest.head?.or follow)) rest follow

/-- What every pass over a part of a text does. -/
def Along (P : Place → Char → Place → Prop) (place : Place) : Str → Option Char → Prop
  | [], _ => True
  | c :: rest, follow =>
    let next := place.step isFeed c (rest.head?.or follow)
    P place c next ∧ Along P next rest follow

theorem scan_nil (place : Place) (follow : Option Char) : scan place [] follow = place := rfl

theorem scan_cons (place : Place) (c : Char) (rest : Str) (follow : Option Char) :
    scan place (c :: rest) follow = scan (place.step isFeed c (rest.head?.or follow)) rest follow := rfl

theorem along_cons (P : Place → Char → Place → Prop) (place : Place) (c : Char) (rest : Str)
    (follow : Option Char) : Along P place (c :: rest) follow
      ↔ P place c (place.step isFeed c (rest.head?.or follow))
        ∧ Along P (place.step isFeed c (rest.head?.or follow)) rest follow := Iff.rfl

/-- No statement ends within the text. -/
def Unbroken : Place → Str → Option Char → Prop := Along fun place c _ => ¬ (place = .start ∧ c = ';')

/-- No comment begins in the text. -/
def CommentFree : Place → Str → Option Char → Prop :=
  Along fun _ _ next => next.state ≠ .line ∧ next.state ≠ .block

/-- No statement ends in it, and no comment begins. -/
def Bare : Place → Str → Option Char → Prop :=
  Along fun place c next => ¬ (place = .start ∧ c = ';') ∧ next.state ≠ .line ∧ next.state ≠ .block

section

variable {P Q : Place → Char → Place → Prop}

theorem scan_append (place : Place) (s t : Str) (follow : Option Char) :
    scan place (s ++ t) follow = scan (scan place s (t.head?.or follow)) t follow := by
  induction s generalizing place with
  | nil => rfl
  | cons c s ih => rw [List.cons_append, scan_cons, ih, scan_cons, List.head?_append, Option.or_assoc]

theorem along_append (place : Place) (s t : Str) (follow : Option Char) : Along P place (s ++ t) follow
      ↔ Along P place s (t.head?.or follow) ∧ Along P (scan place s (t.head?.or follow)) t follow := by
  induction s generalizing place with
  | nil => exact (iff_of_eq (true_and _)).symm
  | cons c s ih =>
    rw [List.cons_append, along_cons, along_cons, scan_cons, ih, List.head?_append, Option.or_assoc, and_assoc]

theorem Along.mono (hPQ : ∀ place c next, P place c next → Q place c next) {place : Place} {s : Str}
    {follow : Option Char} (h : Along P place s follow) : Along Q place s follow := by
  induction s generalizing place with
  | nil => trivial
  | cons c s ih => exact ⟨hPQ _ _ _ h.1, ih h.2⟩

end

variable {place : Place} {s : Str} {follow : Option Char}

theorem Bare.unbroken (h : Bare place s follow) :
    Unbroken place s follow := Along.mono (fun _ _ _ h => h.1) h

theorem Bare.commentFree (h : Bare place s follow) :
    CommentFree place s follow := Along.mono (fun _ _ _ h => h.2) h

theorem CommentFree.bare (h : CommentFree place s follow)
    (hunbroken : Unbroken place s follow) : Bare place s follow := by
  induction s generalizing place with
  | nil => trivial
  | cons c s ih => exact ⟨⟨hunbroken.1, h.1⟩, ih h.2 hunbroken.2⟩

theorem unbroken_follow {f : Option Char} (h : Unbroken place s f)
    (g : Option Char) : Unbroken place s g := by
  induction s generalizing place with
  | nil => trivial
  | cons c s ih =>
    cases s with
    | nil => exact ⟨h.1, trivial⟩
    | cons d s => exact ⟨h.1, ih h.2⟩

theorem splitFrom_append {s rest : Str} (h : Unbroken place s rest.head?)
    (current : Str) : splitFrom place current (s ++ rest)
      = splitFrom (scan place s rest.head?) (current ++ s) rest := by
  induction s generalizing place current with
  | nil => rw [List.nil_append, List.append_nil, scan_nil]
  | cons c s ih =>
    obtain ⟨hc, hs⟩ := h
    rw [List.cons_append, splitFrom_cons, if_neg hc, scan_cons, List.head?_append, ih hs,
      List.append_assoc, List.singleton_append]

/-! ## What the next character can change -/

/-- The characters that can mean something together with the one before. -/
def marks : List Char := ['-', '*', '/', '\'', '"', '`']

theorem quote_mem_marks (quote : Quote) : quote.char ∈ marks := by
  cases quote <;> decide

/-- A character, or the end of a text, that means nothing together with what is before. -/
def Neutral (follow : Option Char) : Prop := ∀ c ∈ marks, follow ≠ some c

variable {c : Char}

theorem neutral_of_isSpace (h : isSpace c = true) : Neutral (some c) := by
  have hmarks : ∀ d ∈ marks, isSpace d = false := by simp [marks, isSpace]
  rintro d hd hcd
  rw [Option.some.inj hcd, hmarks d hd] at h
  cases h

theorem neutral_none : Neutral none := by simp [Neutral]

theorem neutral_semicolon : Neutral (some ';') := by simp [Neutral, marks]

theorem neutral_comma : Neutral (some ',') := by simp [Neutral, marks]

variable {w : Str}

theorem neutral_head (hw : ∀ c ∈ w, isSpace c = true)
    (hfollow : Neutral follow) : Neutral (w.head?.or follow) := by
  cases w with
  | nil => exact hfollow
  | cons c w => exact neutral_of_isSpace (hw c List.mem_cons_self)

/-- A place outside quotes and blocks, where a text may end. -/
def Place.Settled (place : Place) : Prop :=
  place.skip = false ∧ (place.state = .code ∨ place.state = .line)

theorem step_quoted (newline : Char → Bool) (place : Place) (c : Char) (nxt : Option Char) :
    ((place.step newline c nxt).state ≠ .line ∧ (place.step newline c nxt).state ≠ .block)
      ∨ ∀ quote, place.state ≠ .quoted quote := by
  cases hstate : place.state with
  | quoted quote =>
    refine Or.inl ?_
    rw [Place.step, hstate]
    by_cases hskip : place.skip = true
    · simp [hskip]
    · rw [if_neg hskip]
      simp only [Lexing.next]
      split_ifs <;> simp
  | _ => exact Or.inr (by simp)

section

variable {f g : Option Char} (hf : Neutral f) (hg : Neutral g)
include hf hg

/-- Two neutral characters are alike, and so is the end of a text but behind a backslash. -/
theorem step_neutral (h : f.isSome = g.isSome ∨ ∀ quote, place.state ≠ .quoted quote) (c : Char) :
    place.step isFeed c f = place.step isFeed c g := by
  have hne : ∀ x ∈ marks, f ≠ some x ∧ g ≠ some x := fun x hx => ⟨hf x hx, hg x hx⟩
  rw [Place.step, Place.step]
  by_cases hskip : place.skip = true
  · rw [if_pos hskip, if_pos hskip]
  · rw [if_neg hskip, if_neg hskip]
    cases hstate : place.state with
    | line => rfl
    | code => simp [Lexing.next, hne '-' (by decide), hne '*' (by decide)]
    | block => simp [Lexing.next, hne '/' (by decide)]
    | quoted quote =>
      have hsome : f.isSome = g.isSome := h.resolve_right fun h => h quote hstate
      simp [Lexing.next, hsome, hne quote.char (quote_mem_marks quote)]

theorem scan_neutral (hsome : f.isSome = g.isSome) (place : Place) (s : Str) :
    scan place s f = scan place s g := by
  induction s generalizing place with
  | nil => rfl
  | cons c s ih =>
    cases s with
    | nil =>
      show place.step isFeed c f = place.step isFeed c g
      exact step_neutral hf hg (Or.inl hsome) c
    | cons d s => exact ih _

theorem commentFree_neutral (h : CommentFree place s f) : CommentFree place s g := by
  induction s generalizing place with
  | nil => trivial
  | cons c s ih =>
    cases s with
    | nil =>
      refine ⟨?_, trivial⟩
      show (place.step isFeed c g).state ≠ .line ∧ (place.step isFeed c g).state ≠ .block
      rcases step_quoted isFeed place c g with hquoted | hquoted
      · exact hquoted
      · rw [← step_neutral hf hg (Or.inr hquoted) c]
        exact h.1
    | cons d s => exact ⟨h.1, ih h.2⟩

theorem bare_neutral (h : Bare place s f) : Bare place s g :=
  (commentFree_neutral hf hg h.commentFree).bare (unbroken_follow h.unbroken g)

theorem step_settled (h : (place.step isFeed c f).Settled) :
    place.step isFeed c g = place.step isFeed c f := by
  have hne : ∀ x ∈ marks, f ≠ some x ∧ g ≠ some x := fun x hx => ⟨hf x hx, hg x hx⟩
  rw [Place.step] at h ⊢
  rw [Place.step]
  by_cases hskip : place.skip = true
  · rw [if_pos hskip, if_pos hskip]
  · rw [if_neg hskip] at h ⊢
    rw [if_neg hskip]
    cases hstate : place.state with
    | line => rfl
    | code => simp [Lexing.next, hne '-' (by decide), hne '*' (by decide)]
    | block => simp [Lexing.next, hne '/' (by decide)]
    | quoted quote =>
      rw [hstate] at h
      have hquote := hne quote.char (quote_mem_marks quote)
      -- a backslash does not settle a text, whether it escapes something or not
      have hback : c ≠ '\\' := by
        rintro rfl
        have hself : '\\' ≠ quote.char := by cases quote <;> decide
        rcases h with ⟨hskip', hstate'⟩
        cases f <;> simp [Lexing.next, hself] at hskip' hstate'
      simp [Lexing.next, hback, hquote.1, hquote.2]

theorem scan_settled (h : (scan place s f).Settled) :
    scan place s g = scan place s f := by
  induction s generalizing place with
  | nil => rfl
  | cons c s ih =>
    cases s with
    | nil =>
      show place.step isFeed c g = place.step isFeed c f
      exact step_settled hf hg h
    | cons d s => exact ih h

end

/-! ## Blank space -/

theorem Quote.ofChar?_of_not_mem (h : c ∉ marks) : Quote.ofChar? c = none := by
  simp only [marks, List.mem_cons, List.not_mem_nil, or_false, not_or] at h
  simp [Quote.ofChar?, h]

/-- Outside quotes and comments, a blank changes nothing. -/
theorem scan_space (hw : ∀ c ∈ w, isSpace c = true) (follow : Option Char) :
    scan .start w follow = .start ∧ Bare .start w follow := by
  induction w with
  | nil => exact ⟨rfl, trivial⟩
  | cons c w ih =>
    obtain ⟨hc, hw⟩ := List.forall_mem_cons.mp hw
    have hspace : ∀ d, isSpace d = false → c ≠ d := fun d hd hcd => by
      rw [hcd, hd] at hc
      cases hc
    have hmarks : c ∉ marks := fun h => (neutral_of_isSpace hc) c h rfl
    have hdash := hspace '-' rfl
    have hhash := hspace '#' rfl
    have hslash := hspace '/' rfl
    have hsemi := hspace ';' rfl
    have hstep : ∀ nxt, Place.start.step isFeed c nxt = .start := fun nxt => by
      simp [Place.step, Place.start, Lexing.next, Quote.ofChar?_of_not_mem hmarks, hdash, hhash, hslash]
    rw [scan_cons, Bare, along_cons, hstep]
    obtain ⟨hscan, hbare⟩ := ih hw
    exact ⟨hscan, ⟨fun h => hsemi h.2, by simp [Place.start], by simp [Place.start]⟩, hbare⟩

/-- Behind a blank, the next character does not matter. -/
theorem scan_blank_end (hw : ∀ c ∈ w, isSpace c = true) (hne : w ≠ []) (place : Place)
    (front : Str) (f g : Option Char) :
    scan place (front ++ w) f = scan place (front ++ w) g := by
  obtain ⟨w', c, rfl⟩ := List.eq_nil_or_concat w |>.resolve_left hne
  rw [List.concat_eq_append] at hw
  have hc : isSpace c = true := hw c (by simp)
  have hspace : ∀ d, isSpace d = false → c ≠ d := fun d hd hcd => by
    rw [hcd, hd] at hc
    cases hc
  have hdash := hspace '-' rfl
  have hslash := hspace '/' rfl
  have hstar := hspace '*' rfl
  have hback := hspace '\\' rfl
  have hquote : ∀ quote : Quote, c ≠ quote.char := fun quote =>
    hspace _ (by cases quote <;> rfl)
  have hstep : ∀ place : Place, place.step isFeed c f = place.step isFeed c g := by
    rintro ⟨state, skip⟩
    cases skip with
    | true => rfl
    | false => cases state <;> simp [Place.step, Lexing.next, hdash, hslash, hstar, hback, hquote]
  rw [List.concat_eq_append, ← List.append_assoc, scan_append, scan_append _ _ _ g]
  exact hstep (scan place (front ++ w') (some c))

theorem settled_of_scan_space (hw : ∀ c ∈ w, isSpace c = true)
    (hplace : place.skip = true → ∃ quote, place.state = .quoted quote)
    (h : (scan place w follow).Settled) : place.Settled := by
  induction w generalizing place with
  | nil => exact h
  | cons c w ih =>
    obtain ⟨hc, hw⟩ := List.forall_mem_cons.mp hw
    have hspace : ∀ d, isSpace d = false → c ≠ d := fun d hd hcd => by
      rw [hcd, hd] at hc
      cases hc
    have hstar := hspace '*' rfl
    have hback := hspace '\\' rfl
    have hquote : ∀ quote : Quote, c ≠ quote.char := fun quote =>
      hspace _ (by cases quote <;> rfl)
    obtain ⟨state, skip⟩ := place
    cases state with
    | code =>
      cases skip with
      | true => exact absurd (hplace rfl) (by simp)
      | false => exact ⟨rfl, Or.inl rfl⟩
    | line =>
      cases skip with
      | true => exact absurd (hplace rfl) (by simp)
      | false => exact ⟨rfl, Or.inr rfl⟩
    | block =>
      have hstep : ∀ nxt, Place.step isFeed ⟨.block, skip⟩ c nxt = ⟨.block, false⟩ := fun nxt => by
        cases skip <;> simp [Place.step, Lexing.next, hstar]
      rw [scan_cons, hstep] at h
      exact absurd (ih hw (by simp) h).2 (by simp)
    | quoted quote =>
      have hstep : ∀ nxt, Place.step isFeed ⟨.quoted quote, skip⟩ c nxt = ⟨.quoted quote, false⟩ :=
        fun nxt => by cases skip <;> simp [Place.step, Lexing.next, hback, hquote quote]
      rw [scan_cons, hstep] at h
      exact absurd (ih hw (by simp) h).2 (by simp)

theorem skip_quoted (hfollow : Neutral follow)
    (hplace : place.skip = false) (h : (scan place s follow).skip = true) :
    ∃ quote, (scan place s follow).state = .quoted quote := by
  rcases List.eq_nil_or_concat s with rfl | ⟨front, c, rfl⟩
  · rw [scan_nil, hplace] at h
    cases h
  · rw [List.concat_eq_append, scan_append] at h ⊢
    have hlast : ∀ place : Place, (place.step isFeed c follow).skip = true →
        ∃ quote, (place.step isFeed c follow).state = .quoted quote := by
      intro place h
      rw [Place.step] at h ⊢
      by_cases hskip : place.skip = true
      · rw [if_pos hskip] at h
        cases h
      · rw [if_neg hskip] at h ⊢
        have hne := fun x hx => hfollow x hx
        cases hstate : place.state with
        | line => simp [hstate, Lexing.next] at h
        | code =>
          rw [hstate] at h
          cases hquote : Quote.ofChar? c with
          | some quote => simp [Lexing.next, hquote] at h
          | none =>
            by_cases hhash : c = '#'
            · subst hhash
              simp [Lexing.next, hne '-' (by decide), Quote.ofChar?] at h
            · simp [Lexing.next, hquote, hne '-' (by decide), hne '*' (by decide), hhash] at h
        | block => simp [hstate, Lexing.next, hne '/' (by decide)] at h
        | quoted quote =>
          refine ⟨quote, ?_⟩
          rw [hstate] at h
          simp only [Lexing.next, hne quote.char (quote_mem_marks quote)] at h ⊢
          split_ifs at h ⊢ <;> rfl
    exact hlast _ h

/-! ## Statements -/

/-- Stripping a text that ends settled gives a text that ends settled. -/
theorem strip_settled {f : Option Char} (hf : Neutral f)
    (h : (scan .start s f).Settled) (g : Option Char) (hg : Neutral g) :
    (scan .start (strip s) g).Settled := by
  obtain ⟨w₁, w₂, hw₁, hw₂, hs⟩ := exists_strip s
  have hneutral := neutral_head hw₂ hf
  rw [hs, scan_append, scan_append, (scan_space hw₁ _).1] at h
  have hmiddle := settled_of_scan_space hw₂ (skip_quoted hneutral rfl) h
  rw [scan_settled hneutral hg hmiddle]
  exact hmiddle

theorem strip_unbroken {f : Option Char} (h : Unbroken .start s f) (g : Option Char) :
    Unbroken .start (strip s) g := by
  obtain ⟨w₁, w₂, hw₁, -, hs⟩ := exists_strip s
  rw [hs, Unbroken, along_append, along_append, (scan_space hw₁ _).1] at h
  exact unbroken_follow h.1.2 g

theorem strip_commentFree {f : Option Char} (hf : Neutral f) (h : CommentFree .start s f)
    (g : Option Char) (hg : Neutral g) : CommentFree .start (strip s) g := by
  obtain ⟨w₁, w₂, hw₁, hw₂, hs⟩ := exists_strip s
  rw [hs, CommentFree, along_append, along_append, (scan_space hw₁ _).1] at h
  exact commentFree_neutral (neutral_head hw₂ hf) hg h.1.2

theorem strip_bare {f : Option Char} (hf : Neutral f) (h : Bare .start s f)
    (g : Option Char) (hg : Neutral g) : Bare .start (strip s) g :=
  (strip_commentFree hf h.commentFree g hg).bare (strip_unbroken h.unbroken g)

/-- What `split_sql` returns: a text without space around it, not empty, in which no statement
ends, and which ends outside quotes and blocks. -/
structure IsStatement (s : Str) : Prop where
  stripped : strip s = s
  ne_nil : s ≠ []
  unbroken : Unbroken .start s (some ';')
  settled : (scan .start s (some ';')).Settled

theorem isStatement_of_mem {current s : Str} {f : Option Char} (hf : Neutral f)
    (hunbroken : Unbroken .start current f) (hsettled : (scan .start current f).Settled)
    (h : s ∈ statementOf current) : IsStatement s := by
  rw [statementOf] at h
  by_cases hempty : strip current = []
  · rw [if_pos hempty] at h
    exact absurd h List.not_mem_nil
  · rw [if_neg hempty, List.mem_singleton] at h
    subst h
    exact ⟨strip_strip current, hempty, strip_unbroken hunbroken _, strip_settled hf hsettled _ neutral_semicolon⟩

variable {statements : List Str}

variable {current rest : Str}

theorem splitFrom_isStatement (hunbroken : Unbroken .start current rest.head?)
    (hscan : scan .start current rest.head? = place)
    (h : splitFrom place current rest = .ok statements) : ∀ s ∈ statements, IsStatement s := by
  induction rest generalizing place current statements with
  | nil =>
    rw [splitFrom_nil] at h
    have hskip : (scan .start current none).skip = true → _ := skip_quoted neutral_none rfl
    rw [List.head?_nil] at hscan
    rw [hscan] at hskip
    have hsettled : place.Settled ∧ statements = statementOf current := by
      obtain ⟨state, skip⟩ := place
      cases state with
      | quoted quote => cases h
      | block => cases h
      | code =>
        cases h
        cases skip with
        | true => exact absurd (hskip rfl) (by simp)
        | false => exact ⟨⟨rfl, Or.inl rfl⟩, rfl⟩
      | line =>
        cases h
        cases skip with
        | true => exact absurd (hskip rfl) (by simp)
        | false => exact ⟨⟨rfl, Or.inr rfl⟩, rfl⟩
    intro s hs
    rw [hsettled.2] at hs
    exact isStatement_of_mem neutral_none hunbroken (hscan ▸ hsettled.1) hs
  | cons c rest ih =>
    rw [List.head?_cons] at hscan hunbroken
    rw [splitFrom_cons] at h
    by_cases hend : place = .start ∧ c = ';'
    · rw [if_pos hend] at h
      obtain ⟨tail, htail, h⟩ := bind_eq_ok.mp h
      cases h
      intro s hs
      rcases List.mem_append.mp hs with hs | hs
      · obtain ⟨rfl, rfl⟩ := hend
        exact isStatement_of_mem neutral_semicolon hunbroken
          (by rw [hscan]; exact ⟨rfl, Or.inl rfl⟩) hs
      · exact ih (show Unbroken .start [] _ from trivial) rfl htail s hs
    · rw [if_neg hend] at h
      refine ih ?_ ?_ h
      · rw [Unbroken, along_append, List.head?_cons, Option.some_or, hscan]
        exact ⟨hunbroken, hend, trivial⟩
      · rw [scan_append, List.head?_cons, Option.some_or, hscan]
        rfl

theorem splitSql_isStatement {sql : Str} (h : splitSql sql = .ok statements) :
    ∀ s ∈ statements, IsStatement s :=
  splitFrom_isStatement (show Unbroken .start [] _ from trivial) rfl h

theorem splitFrom_mem (h : splitFrom place current rest = .ok statements) (hs : s ∈ statements)
    (hc : c ∈ s) : c ∈ current ++ rest := by
  have hof : ∀ current : Str, ∀ s ∈ statementOf current, ∀ c ∈ s, c ∈ current := by
    intro current s hs c hc
    rw [statementOf] at hs
    by_cases hempty : strip current = []
    · rw [if_pos hempty] at hs
      exact absurd hs List.not_mem_nil
    · rw [if_neg hempty, List.mem_singleton] at hs
      exact (strip_isInfix current).subset (hs ▸ hc)
  induction rest generalizing place current statements with
  | nil =>
    rw [splitFrom_nil] at h
    have hstatements : statements = statementOf current := by
      cases hstate : place.state <;> simp only [hstate] at h <;> cases h <;> rfl
    rw [hstatements] at hs
    exact List.mem_append_left _ (hof current s hs c hc)
  | cons d rest ih =>
    rw [splitFrom_cons] at h
    by_cases hend : place = .start ∧ d = ';'
    · rw [if_pos hend] at h
      obtain ⟨tail, htail, h⟩ := bind_eq_ok.mp h
      cases h
      rcases List.mem_append.mp hs with hs | hs
      · exact List.mem_append_left _ (hof current s hs c hc)
      · have := ih htail hs
        simp only [List.nil_append] at this
        exact List.mem_append_right _ (List.mem_cons_of_mem _ this)
    · rw [if_neg hend] at h
      have := ih h hs
      simpa using this

/-! ## One statement at a time -/

/-- Blanks in front of a statement do not count. -/
theorem splitFrom_space (hw : ∀ c ∈ w, isSpace c = true) (place : Place)
    (current rest : Str) : splitFrom place (w ++ current) rest = splitFrom place current rest := by
  have hof : ∀ current : Str, statementOf (w ++ current) = statementOf current := fun current => by
    rw [statementOf, strip_append_left hw, ← statementOf]
  induction rest generalizing place current with
  | nil => rw [splitFrom_nil, splitFrom_nil, hof]
  | cons c rest ih =>
    rw [splitFrom_cons, splitFrom_cons, hof, List.append_assoc, ih]

/-- A statement that ends outside everything is split off. -/
theorem splitFrom_statement (hunbroken : Unbroken .start s (some ';'))
    (hscan : scan .start s (some ';') = .start) (rest : Str) :
    splitFrom .start [] (s ++ ';' :: rest) = do
      let statements ← splitFrom .start [] rest
      return statementOf s ++ statements := by
  rw [splitFrom_append hunbroken, List.head?_cons, hscan, List.nil_append, splitFrom_cons, if_pos ⟨rfl, rfl⟩]

theorem splitFrom_begun (hcurrent : ∃ c ∈ current, isSpace c = false)
    (h : splitFrom place current rest = .ok statements) :
    ∃ z, statements.head? = some (strip (current ++ z)) := by
  induction rest generalizing place current statements with
  | nil =>
    rw [splitFrom_nil] at h
    refine ⟨[], ?_⟩
    have hstatements : statements = statementOf current := by
      cases hstate : place.state <;> simp only [hstate] at h <;> cases h <;> rfl
    rw [hstatements, statementOf, if_neg (strip_ne_nil hcurrent), List.append_nil, List.head?_cons]
  | cons c rest ih =>
    rw [splitFrom_cons] at h
    by_cases hend : place = .start ∧ c = ';'
    · rw [if_pos hend] at h
      obtain ⟨tail, -, h⟩ := bind_eq_ok.mp h
      cases h
      refine ⟨[], ?_⟩
      rw [statementOf, if_neg (strip_ne_nil hcurrent), List.append_nil, List.singleton_append, List.head?_cons]
    · rw [if_neg hend] at h
      obtain ⟨d, hd, hspace⟩ := hcurrent
      obtain ⟨z, hz⟩ := ih ⟨d, List.mem_append_left _ hd, hspace⟩ h
      exact ⟨c :: z, by rw [hz, List.append_assoc, List.singleton_append]⟩

/-- **What a text before a `;` becomes**: a statement, or, where it is open, part of a longer
one that goes on with the `;`. -/
theorem splitFrom_piece {a : Char} {s rest : Str}
    (ha : isSpace a = false) (hunbroken : Unbroken .start (a :: s) (some ';'))
    (h : splitFrom .start [] (a :: s ++ ';' :: rest) = .ok statements) :
    (scan .start (a :: s) (some ';') = .start ∧ statements.head? = some (strip (a :: s)))
      ∨ (scan .start (a :: s) (some ';') ≠ .start ∧ ∃ z, statements.head? = some (a :: s ++ ';' :: z)) := by
  have hne : ∃ c ∈ a :: s, isSpace c = false := ⟨a, List.mem_cons_self, ha⟩
  by_cases hscan : scan .start (a :: s) (some ';') = .start
  · rw [splitFrom_statement hunbroken hscan] at h
    obtain ⟨tail, -, h⟩ := bind_eq_ok.mp h
    cases h
    refine Or.inl ⟨hscan, ?_⟩
    rw [statementOf, if_neg (strip_ne_nil hne), List.singleton_append, List.head?_cons]
  · refine Or.inr ⟨hscan, ?_⟩
    rw [splitFrom_append hunbroken, List.head?_cons, splitFrom_cons, if_neg fun h => hscan h.1] at h
    obtain ⟨z, hz⟩ := splitFrom_begun ⟨a, by simp, ha⟩ h
    obtain ⟨z', hz'⟩ := strip_append_cons ha (show isSpace ';' = false from rfl) s z
    refine ⟨z', ?_⟩
    rw [hz, ← hz']
    simp

/-! ## Texts without comments -/

/-- Where a text without comments is read on: outside comments. -/
def Place.visible (place : Place) : Place :=
  match place.state with
  | .quoted _ => place
  | _ => .start

theorem length_uncommented (place : Place) (s : Str) : (uncommented place s).length ≤ s.length := by
  induction s generalizing place with
  | nil => exact le_refl _
  | cons c s ih =>
    have hemitted : ∀ next, (emitted place next c).length ≤ 1 := by
      intro next
      unfold emitted
      split <;> simp
    rw [uncommented_cons, List.length_append, List.length_cons]
    have := hemitted (place.step isNewline c s.head?)
    have := ih (place.step isNewline c s.head?)
    omega

/-- Before a carriage return is met, the two loops end line comments alike. -/
theorem step_isNewline (hc : c ≠ '\r') (place : Place) (nxt : Option Char) :
    place.step isNewline c nxt = place.step isFeed c nxt := by
  have hsame : isNewline c = isFeed c := by simp [isNewline, isFeed, hc]
  rw [Place.step, Place.step]
  cases place.state <;> simp [Lexing.next, hsame]

theorem emitted_start_comment {next : Place} (h : next.state = .line ∨ next.state = .block) (c : Char) :
    emitted .start next c = [' '] := by
  obtain ⟨state, skip⟩ := next
  rcases h with h | h <;> cases h <;> rfl

theorem emitted_start_kept {next : Place} (h : next.state ≠ .line ∧ next.state ≠ .block) (c : Char) :
    emitted .start next c = [c] := by
  obtain ⟨state, skip⟩ := next
  cases state with
  | line => exact absurd rfl h.1
  | block => exact absurd rfl h.2
  | code => rfl
  | quoted quote => rfl

def Place.Outside (place : Place) : Prop := place = .start ∨ ∃ quote, place.state = .quoted quote

theorem step_outside (hplace : place.Outside) {nxt : Option Char}
    (h : (place.step isFeed c nxt).state ≠ .line ∧ (place.step isFeed c nxt).state ≠ .block) :
    place.step isNewline c nxt = place.step isFeed c nxt
      ∧ (place.step isFeed c nxt).Outside ∧ emitted place (place.step isFeed c nxt) c = [c] := by
  rcases hplace with rfl | ⟨quote, hquote⟩
  · refine ⟨rfl, ?_, ?_⟩
    · have hskip : Place.start.step isFeed c nxt = Lexing.next isFeed .code c nxt := rfl
      rw [hskip] at h ⊢
      simp only [Lexing.next] at h ⊢
      cases hc : Quote.ofChar? c with
      | some quote => exact Or.inr ⟨quote, rfl⟩
      | none =>
        simp only [hc] at h ⊢
        split_ifs at h ⊢
        · exact absurd rfl h.1
        · exact absurd rfl h.1
        · exact absurd rfl h.2
        · exact Or.inl rfl
    · exact emitted_start_kept h c
  · obtain ⟨state, skip⟩ := place
    cases hquote
    refine ⟨?_, ?_, rfl⟩
    · cases skip <;> rfl
    · cases skip with
      | true => exact Or.inr ⟨quote, rfl⟩
      | false =>
        show (Lexing.next isFeed (.quoted quote) c nxt).Outside
        simp only [Lexing.next]
        split_ifs
        · exact Or.inr ⟨quote, rfl⟩
        · exact Or.inr ⟨quote, rfl⟩
        · exact Or.inl rfl
        · exact Or.inr ⟨quote, rfl⟩

theorem uncommented_commentFree (hplace : place.Outside) {s rest : Str}
    (h : CommentFree place s rest.head?) :
    uncommented place (s ++ rest) = s ++ uncommented (scan place s rest.head?) rest := by
  induction s generalizing place with
  | nil => rfl
  | cons c s ih =>
    obtain ⟨hstate, hs⟩ := h
    obtain ⟨hsame, houtside, hkept⟩ := step_outside hplace hstate
    rw [List.cons_append, uncommented_cons, List.head?_append, hsame, hkept, ih houtside hs, scan_cons]
    rfl

/-- A place behind a whole character is the same if a blank follows. -/
theorem step_blank {nxt : Option Char}
    (hplace : place.Outside) (h : place.step isFeed c nxt = .start) :
    place.step isFeed c (some ' ') = .start := by
  rcases hplace with rfl | ⟨quote, hquote⟩
  · have hskip : ∀ nxt, Place.start.step isFeed c nxt = Lexing.next isFeed .code c nxt := fun _ => rfl
    rw [hskip] at h ⊢
    simp only [Lexing.next] at h ⊢
    cases hc : Quote.ofChar? c with
    | some quote => simp [hc, Place.start] at h
    | none =>
      simp only [hc] at h ⊢
      by_cases hhash : c = '#'
      · simp [hhash, Place.start] at h
      · simp [hhash, Place.start]
  · obtain ⟨state, skip⟩ := place
    cases hquote
    cases skip with
    | true => cases h
    | false =>
      have hskip : ∀ nxt, Place.step isFeed ⟨.quoted quote, false⟩ c nxt
          = Lexing.next isFeed (.quoted quote) c nxt := fun _ => rfl
      rw [hskip] at h ⊢
      have hblank : some ' ' ≠ some quote.char := by cases quote <;> simp [Quote.char]
      have hback : '\\' ≠ quote.char := by cases quote <;> decide
      simp only [Lexing.next] at h ⊢
      by_cases hc : c = quote.char
      · simp [hc, hback.symm, hblank, Place.start]
      · exfalso
        split_ifs at h <;> simp [Place.start] at h

/-- What is kept begins with the next character, or with the blank of a comment. -/
theorem head?_uncommented (hplace : place.Outside) (s : Str) :
    (uncommented place s).head? = s.head? ∨ (place = .start ∧ (uncommented place s).head? = some ' ') := by
  cases s with
  | nil => exact Or.inl rfl
  | cons c s =>
    rw [uncommented_cons]
    rcases hplace with rfl | ⟨quote, hquote⟩
    · by_cases hcomment : (Place.start.step isNewline c s.head?).state = .line
          ∨ (Place.start.step isNewline c s.head?).state = .block
      · exact Or.inr ⟨rfl, by rw [emitted_start_comment hcomment]; rfl⟩
      · exact Or.inl (by rw [emitted_start_kept (not_or.mp hcomment)]; rfl)
    · exact Or.inl (by simp [emitted, hquote])

theorem visible_of_outside (h : place.Outside) : place.visible = place := by
  rcases h with rfl | ⟨quote, hquote⟩
  · rfl
  · rw [Place.visible, hquote]

/-- A blank or a line feed outside quotes leaves the place as it is. -/
theorem step_start_blank {x : Char} (hx : x = ' ' ∨ x = '\n') (nxt : Option Char) :
    Place.start.step isFeed x nxt = .start := by
  have hskip : Place.start.step isFeed x nxt = Lexing.next isFeed .code x nxt := rfl
  rw [hskip]
  rcases hx with rfl | rfl <;> simp [Lexing.next, Quote.ofChar?, Place.start]

theorem emitted_step (place : Place) (c : Char) (s : Str) :
    let next := place.step isFeed c s.head?
    (emitted place next c = [] ∧ place.visible = .start ∧ next.visible = .start) ∨ ∃ x, emitted place next c = [x]
        ∧ place.visible.step isFeed x (uncommented next s).head? = next.visible
        ∧ (place.visible = .start ∧ x = ';' → place = .start ∧ c = ';') := by
  intro next
  have hcases : place.Outside ∨ place = ⟨.code, true⟩ ∨ (∃ skip, place = ⟨.line, skip⟩)
      ∨ ∃ skip, place = ⟨.block, skip⟩ := by
    obtain ⟨state, skip⟩ := place
    cases state with
    | code =>
      cases skip with
      | true => exact Or.inr (Or.inl rfl)
      | false => exact Or.inl (Or.inl rfl)
    | line => exact Or.inr (Or.inr (Or.inl ⟨skip, rfl⟩))
    | block => exact Or.inr (Or.inr (Or.inr ⟨skip, rfl⟩))
    | quoted quote => exact Or.inl (Or.inr ⟨quote, rfl⟩)
  rcases hcases with houtside | rfl | ⟨skip, rfl⟩ | ⟨skip, rfl⟩
  · by_cases hcomment : next.state = .line ∨ next.state = .block
    · -- a comment begins, which it does not in quotes
      obtain rfl : place = .start := by
        rcases step_quoted isFeed place c s.head? with hstate | hquoted
        · exact absurd hcomment (not_or.mpr hstate)
        · exact houtside.resolve_right fun ⟨quote, hquote⟩ => hquoted quote hquote
      refine Or.inr ⟨' ', emitted_start_comment hcomment c, ?_, fun h => absurd h.2 (by decide)⟩
      rw [show Place.start.visible = .start from rfl, step_start_blank (Or.inl rfl)]
      rcases hcomment with hstate | hstate <;> rw [Place.visible, hstate]
    · obtain ⟨-, hnext, hkept⟩ := step_outside houtside (not_or.mp hcomment)
      refine Or.inr ⟨c, hkept, ?_, fun h => ?_⟩
      · rw [visible_of_outside houtside, visible_of_outside hnext]
        rcases head?_uncommented hnext s with hhead | ⟨hstart, hhead⟩
        · rw [hhead]
        · rw [hhead, hstart]
          exact step_blank houtside hstart
      · rw [visible_of_outside houtside] at h
        exact h
  · exact Or.inl ⟨rfl, rfl, rfl⟩
  · cases skip with
    | true => exact Or.inl ⟨rfl, rfl, rfl⟩
    | false =>
      have hnext : next = ⟨if isFeed c then .code else .line, false⟩ := rfl
      by_cases hc : isFeed c = true
      · rw [if_pos hc] at hnext
        rw [hnext]
        have hfeed : c = '\n' := by simpa [isFeed] using hc
        refine Or.inr ⟨c, rfl, step_start_blank (Or.inr hfeed) _, fun h => ?_⟩
        rw [hfeed] at h
        exact absurd h.2 (by decide)
      · rw [if_neg hc] at hnext
        rw [hnext]
        exact Or.inl ⟨rfl, rfl, rfl⟩
  · cases skip with
    | true => exact Or.inl ⟨rfl, rfl, rfl⟩
    | false =>
      have hnext : next = if c = '*' ∧ s.head? = some '/' then ⟨.code, true⟩ else ⟨.block, false⟩ :=
        rfl
      by_cases hc : c = '*' ∧ s.head? = some '/'
      · rw [if_pos hc] at hnext
        rw [hnext]
        exact Or.inr ⟨' ', rfl, step_start_blank (Or.inl rfl) _, fun h => absurd h.2 (by decide)⟩
      · rw [if_neg hc] at hnext
        rw [hnext]
        exact Or.inl ⟨rfl, rfl, rfl⟩

theorem visible_not_comment (place : Place) :
    place.visible.state ≠ .line ∧ place.visible.state ≠ .block := by
  obtain ⟨state, skip⟩ := place
  cases state <;> simp [Place.visible, Place.start]

/-- **A text without its comments has none.** -/
theorem commentFree_uncommented (hr : '\r' ∉ s) : CommentFree place.visible (uncommented place s) none := by
  induction s generalizing place with
  | nil => trivial
  | cons c s ih =>
    rw [List.mem_cons, not_or] at hr
    rw [uncommented_cons, step_isNewline (Ne.symm hr.1)]
    have hrest : CommentFree (place.step isFeed c s.head?).visible
        (uncommented (place.step isFeed c s.head?) s) none := ih hr.2
    rcases emitted_step place c s with ⟨hnone, hplace, hnext⟩ | ⟨x, hone, hstep, -⟩
    · rw [hnone, List.nil_append, hplace, ← hnext]
      exact hrest
    · rw [hone, List.singleton_append, CommentFree, along_cons, Option.or_none, hstep]
      exact ⟨visible_not_comment _, hrest⟩

/-- Nor does it have more ends of statements, and reading it ends where code may follow. -/
theorem bare_uncommented (hr : '\r' ∉ s)
    (hunbroken : Unbroken place s none) :
    Bare place.visible (uncommented place s) none
      ∧ ((scan place s none).Settled → scan place.visible (uncommented place s) none = .start) := by
  suffices hgoal : Unbroken place.visible (uncommented place s) none
      ∧ ((scan place s none).Settled → scan place.visible (uncommented place s) none = .start) from
    ⟨(commentFree_uncommented hr).bare hgoal.1, hgoal.2⟩
  induction s generalizing place with
  | nil =>
    refine ⟨trivial, fun h => ?_⟩
    rw [scan_nil] at h
    show place.visible = .start
    rcases h.2 with hstate | hstate <;> simp only [Place.visible, hstate]
  | cons c s ih =>
    rw [List.mem_cons, not_or] at hr
    obtain ⟨hend, hunbroken⟩ := hunbroken
    rw [Option.or_none] at hunbroken
    rw [uncommented_cons, step_isNewline (Ne.symm hr.1), scan_cons, Option.or_none]
    obtain ⟨hrest, hscan⟩ := ih hr.2 hunbroken
    rcases emitted_step place c s with ⟨hnone, hplace, hnext⟩ | ⟨x, hone, hstep, hsemi⟩
    · rw [hnext] at hrest hscan
      rw [hnone, List.nil_append, hplace]
      exact ⟨hrest, hscan⟩
    · rw [hone, List.singleton_append, Unbroken, along_cons, scan_cons, Option.or_none, hstep]
      exact ⟨⟨fun h => hend (hsemi h), hrest⟩, hscan⟩

theorem scan_outside (hplace : place.Outside)
    (h : Bare place s follow) : (scan place s follow).Outside := by
  induction s generalizing place with
  | nil => exact hplace
  | cons c s ih => exact ih (step_outside hplace h.1.2).2.1 h.2

theorem eq_start_of_settled (houtside : place.Outside) (h : place.Settled) :
    place = .start := by
  rcases houtside with hstart | ⟨quote, hquote⟩
  · exact hstart
  · rcases h.2 with hstate | hstate <;> rw [hquote] at hstate <;> cases hstate

theorem length_stripSqlComments (s : Str) : (stripSqlComments s).length ≤ s.length :=
  (strip_isInfix _).length_le.trans (length_uncommented _ _)

/-- Of a statement nothing is left but code and quotes, all of them closed. -/
theorem IsStatement.stripSqlComments_bare (h : IsStatement s) (hr : '\r' ∉ s) :
    Bare .start (stripSqlComments s) none ∧ scan .start (stripSqlComments s) none = .start := by
  have hsettled : (scan .start s none).Settled := by
    rw [scan_settled neutral_semicolon neutral_none h.settled]
    exact h.settled
  obtain ⟨hbare, hscan⟩ := bare_uncommented hr (unbroken_follow h.unbroken none)
  have hstart : Place.start.visible = .start := rfl
  rw [hstart] at hbare hscan
  have hsettled' : (scan .start (uncommented .start s) none).Settled := by
    rw [hscan hsettled]
    exact ⟨rfl, Or.inl rfl⟩
  have hstrip := strip_bare neutral_none hbare none neutral_none
  exact ⟨hstrip, eq_start_of_settled (scan_outside (Or.inl rfl) hstrip)
    (strip_settled neutral_none hsettled' none neutral_none)⟩

end Ai00.Migration
