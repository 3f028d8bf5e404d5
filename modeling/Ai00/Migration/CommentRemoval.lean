import Ai00.Migration.SqlText

/-! # Removing comments and splitting statements

`strip_sql_comments` and `split_sql` read a text with loops of their own. On texts with LF line ends they are
in the same state at every character, also where one of them reads what the other has written. So it does not
matter which one is called first (`split_strip_comments`), and comments are removed once and for all
(`strip_comments_twice`).
-/

namespace Ai00.Migration

/-! ## Removing comments part by part -/

/-- What is kept of a part of a text; `follow` is the character behind it. -/
def keptOf (place : Place) : Str → Option Char → Str
  | [], _ => []
  | c :: rest, follow =>
    let next := place.step isFeed c (rest.head?.or follow)
    emitted place next c ++ keptOf next rest follow

theorem uncommented_append {place : Place} {s t : Str} (hr : '\r' ∉ s) :
    uncommented place (s ++ t) = keptOf place s t.head? ++ uncommented (scan place s t.head?) t := by
  induction s generalizing place with
  | nil => rfl
  | cons c s ih =>
    rw [List.mem_cons, not_or] at hr
    rw [List.cons_append, uncommented_cons, step_isNewline (Ne.symm hr.1), ih hr.2, keptOf, scan_cons, List.head?_append,
      List.append_assoc]

theorem uncommented_eq {place : Place} {s : Str} (hr : '\r' ∉ s) : uncommented place s = keptOf place s none := by
  have happend := @uncommented_append place s [] hr
  rwa [List.append_nil, List.head?_nil, uncommented_nil, List.append_nil] at happend

theorem keptOf_append (place : Place) (s t : Str) (follow : Option Char) : keptOf place (s ++ t) follow
      = keptOf place s (t.head?.or follow) ++ keptOf (scan place s (t.head?.or follow)) t follow := by
  induction s generalizing place with
  | nil => rfl
  | cons c s ih => rw [List.cons_append, keptOf, ih, keptOf, scan_cons, List.head?_append, Option.or_assoc, List.append_assoc]

/-- What follows makes no difference to what is kept, if it means nothing together with what is before. -/
theorem keptOf_neutral {f g : Option Char} (hf : Neutral f) (hg : Neutral g) (place : Place) (s : Str) :
    keptOf place s f = keptOf place s g := by
  induction s generalizing place with
  | nil => rfl
  | cons c s ih =>
    cases s with
    | nil =>
      show emitted place (place.step isFeed c f) c ++ [] = emitted place (place.step isFeed c g) c ++ []
      by_cases hquoted : ∃ quote, place.state = .quoted quote
      · obtain ⟨quote, hquote⟩ := hquoted
        simp only [emitted, hquote]
      · rw [step_neutral hf hg (Or.inr (not_exists.mp hquoted)) c]
    | cons d s =>
      rw [keptOf, keptOf]
      exact congrArg _ (ih _)

theorem keptOf_space {w : Str} (hw : ∀ c ∈ w, isSpace c = true) (place : Place) (follow : Option Char) :
    ∀ c ∈ keptOf place w follow, isSpace c = true := by
  induction w generalizing place with
  | nil => exact fun c hc => absurd hc List.not_mem_nil
  | cons x w ih =>
    intro c hc
    rcases List.mem_append.mp hc with hc | hc
    · have hx := hw x List.mem_cons_self
      unfold emitted at hc
      split at hc <;> simp only [List.mem_singleton, List.not_mem_nil] at hc <;> rw [hc]
      all_goals first | exact hx | decide
    · exact ih (fun d hd => hw d (List.mem_cons_of_mem _ hd)) _ c hc

/-- Blanks around a text do not count. -/
theorem stripSqlComments_strip {s : Str} (hr : '\r' ∉ s) : stripSqlComments (strip s) = stripSqlComments s := by
  obtain ⟨w₁, w₂, hw₁, hw₂, hs⟩ := exists_strip s
  have hr' : '\r' ∉ strip s := fun hin => hr ((strip_isInfix s).subset hin)
  have hneutral : Neutral (w₂.head?.or none) := neutral_head hw₂ neutral_none
  have hkept : uncommented .start s = keptOf .start w₁ ((strip s ++ w₂).head?.or none)
      ++ (uncommented .start (strip s) ++ keptOf (scan .start (strip s) (w₂.head?.or none)) w₂ none) := by
    calc uncommented .start s = keptOf .start (w₁ ++ (strip s ++ w₂)) none := by
          rw [uncommented_eq hr, ← List.append_assoc]
          exact congrArg (keptOf .start · none) hs
      _ = _ := by
          rw [keptOf_append, keptOf_append, (scan_space hw₁ _).1, keptOf_neutral hneutral neutral_none,
            uncommented_eq hr']
  rw [stripSqlComments, stripSqlComments, hkept, strip_append_left (keptOf_space hw₁ _ _),
    strip_append_right (keptOf_space hw₂ _ _)]

/-- **Comments are removed once and for all.** -/
theorem strip_comments_twice {s : Str} (hr : '\r' ∉ s) :
    stripSqlComments (stripSqlComments s) = stripSqlComments s := by
  have hfree : CommentFree .start (stripSqlComments s) none :=
    strip_commentFree neutral_none (@commentFree_uncommented .start s hr) none neutral_none
  have hkept : uncommented .start (stripSqlComments s) = stripSqlComments s := by
    have happend := @uncommented_commentFree _ (Or.inl rfl) _ [] hfree
    rwa [List.append_nil, uncommented_nil, List.append_nil] at happend
  rw [stripSqlComments, hkept, stripSqlComments, strip_strip]

/-! ## Splitting what is kept -/

/-- The statements without their comments, those apart of which nothing is left. -/
def withoutComments (statements : List Str) : List Str := (statements.map stripSqlComments).filter (· ≠ [])

theorem withoutComments_append (first second : List Str) :
    withoutComments (first ++ second) = withoutComments first ++ withoutComments second := by
  rw [withoutComments, List.map_append, List.filter_append, ← withoutComments, ← withoutComments]

/-- A state in which no text may end. -/
def Lexing.isOpen : Lexing → Bool
  | .quoted _ | .block => true
  | .code | .line => false

theorem splitFrom_end (place : Place) (current : Str) : splitFrom place current []
    = if place.state.isOpen then (.error ⟨"unterminated SQL quote or block comment"⟩ : Except MigrationError (List Str))
      else .ok (statementOf current) := by
  obtain ⟨state, skip⟩ := place
  cases state <;> rfl

theorem statementOf_keptOf {current : Str} (hr : '\r' ∉ current) {follow : Option Char} (hfollow : Neutral follow) :
    statementOf (keptOf .start current follow) = withoutComments (statementOf current) := by
  have hkept : strip (keptOf .start current follow) = stripSqlComments current := by
    rw [stripSqlComments, uncommented_eq hr, keptOf_neutral hfollow neutral_none]
  rw [statementOf, statementOf, hkept, withoutComments]
  by_cases hempty : strip current = []
  · have hnone : stripSqlComments current = [] := by
      rw [← stripSqlComments_strip hr, hempty]
      rfl
    rw [if_pos hempty, if_pos hnone]
    rfl
  · rw [if_neg hempty, List.map_singleton, stripSqlComments_strip hr]
    by_cases hnone : stripSqlComments current = []
    · rw [if_pos hnone, hnone]
      rfl
    · rw [if_neg hnone, List.filter_cons_of_pos (by simpa using hnone), List.filter_nil]

/-- One loop behind the other: while one reads a text, the other reads what is kept of it. -/
theorem splitFrom_uncommented {place : Place} {current s : Str} {statements : List Str} (hr : '\r' ∉ current ++ s)
    (hplace : scan .start current s.head? = place) (h : splitFrom place current s = .ok statements) :
    splitFrom place.visible (keptOf .start current s.head?) (uncommented place s) = .ok (withoutComments statements) := by
  induction s generalizing place current statements with
  | nil =>
    rw [List.append_nil] at hr
    rw [splitFrom_end] at h
    split_ifs at h with hopen
    cases h
    have hstart : place.visible = .start := by
      obtain ⟨state, skip⟩ := place
      cases state with
      | quoted quote => exact absurd rfl hopen
      | _ => rfl
    rw [uncommented_nil, hstart, ← statementOf_keptOf hr neutral_none]
    rfl
  | cons c s ih =>
    have hcurrent : '\r' ∉ current := fun hin => hr (List.mem_append_left _ hin)
    rw [splitFrom_cons] at h
    by_cases hend : place = .start ∧ c = ';'
    · rw [if_pos hend] at h
      obtain ⟨tail, htail, h⟩ := bind_eq_ok.mp h
      cases h
      obtain ⟨rfl, rfl⟩ := hend
      have hs : '\r' ∉ [] ++ s := fun hin => hr (List.mem_append_right _ (List.mem_cons_of_mem _ hin))
      have hkept : uncommented .start (';' :: s) = ';' :: uncommented .start s := rfl
      rw [hkept, show Place.start.visible = .start from rfl, splitFrom_cons, if_pos ⟨rfl, rfl⟩, List.head?_cons,
        statementOf_keptOf hcurrent neutral_semicolon]
      have hrest : splitFrom .start [] (uncommented .start s) = .ok (withoutComments tail) := ih hs rfl htail
      rw [hrest, withoutComments_append]
      rfl
    · rw [if_neg hend] at h
      have hnext : scan .start (current ++ [c]) s.head? = place.step isFeed c s.head? := by
        rw [scan_append, List.head?_cons, Option.some_or]
        rw [List.head?_cons] at hplace
        rw [hplace, scan_cons, scan_nil, List.head?_nil, Option.none_or]
      have hkept : keptOf .start (current ++ [c]) s.head?
          = keptOf .start current (some c) ++ emitted place (place.step isFeed c s.head?) c := by
        rw [List.head?_cons] at hplace
        rw [keptOf_append, List.head?_cons, Option.some_or, hplace, keptOf, keptOf, List.head?_nil, Option.none_or,
          List.append_nil]
      have hc : c ≠ '\r' := fun hc => hr (List.mem_append_right _ (hc ▸ List.mem_cons_self))
      have hrest := ih (by rwa [List.append_assoc, List.singleton_append]) hnext h
      rw [uncommented_cons, step_isNewline hc, List.head?_cons]
      rw [hkept] at hrest
      rcases emitted_step place c s with ⟨hnone, hvisible, hvisible'⟩ | ⟨x, hone, hstep, hsemi⟩
      · rw [hnone, List.nil_append, hvisible]
        rwa [hnone, List.append_nil, hvisible'] at hrest
      · rw [hone, List.singleton_append, splitFrom_cons, if_neg fun h => hend (hsemi h), hstep]
        rwa [hone] at hrest

theorem isOpen_step_space {c : Char} (hc : isSpace c = true) (place : Place) (nxt : Option Char) :
    (place.step isFeed c nxt).state.isOpen = place.state.isOpen := by
  have hne : ∀ x : Char, isSpace x = false → c ≠ x := fun x hx heq => by simp [heq, hx] at hc
  have hmarks : c ∉ marks := fun hin => neutral_of_isSpace hc c hin rfl
  rw [Place.step]
  by_cases hskip : place.skip = true
  · rw [if_pos hskip]
  · rw [if_neg hskip]
    cases hstate : place.state with
    | line =>
      simp only [Lexing.next]
      split_ifs <;> rfl
    | code =>
      simp [Lexing.next, Quote.ofChar?_of_not_mem hmarks, hne '-' (by decide), hne '#' (by decide), hne '/' (by decide)]
    | block => simp [Lexing.next, hne '*' (by decide)]
    | quoted quote =>
      have hquote : c ≠ quote.char := fun heq => hmarks (heq ▸ quote_mem_marks quote)
      simp [Lexing.next, hne '\\' (by decide), hquote]

theorem splitFrom_blank {w : Str} (hw : ∀ c ∈ w, isSpace c = true) (place : Place) (current : Str) :
    splitFrom place current w = splitFrom place current [] := by
  induction w generalizing place current with
  | nil => rfl
  | cons c w ih =>
    have hc := hw c List.mem_cons_self
    have hsemi : ¬ (place = .start ∧ c = ';') := by
      rintro ⟨-, rfl⟩
      exact absurd hc (by decide)
    have hcurrent : statementOf (current ++ [c]) = statementOf current := by
      rw [statementOf, strip_append_right (by simpa using hc), ← statementOf]
    have hstep : splitFrom place current (c :: w) = splitFrom (place.step isFeed c w.head?) (current ++ [c]) w := by
      rw [splitFrom_cons, if_neg hsemi]
    rw [hstep, ih fun d hd => hw d (List.mem_cons_of_mem _ hd), splitFrom_end, splitFrom_end, hcurrent,
      isOpen_step_space hc]

/-- What follows closes nothing, if it means nothing together with what is before. -/
theorem isOpen_step_neutral {f g : Option Char} (hf : Neutral f) (hg : Neutral g) (place : Place) (c : Char) :
    (place.step isFeed c f).state.isOpen = (place.step isFeed c g).state.isOpen := by
  by_cases hquoted : ∃ quote, place.state = .quoted quote
  · obtain ⟨quote, hquote⟩ := hquoted
    have hopen : ∀ h : Option Char, Neutral h →
        (place.step isFeed c h).state.isOpen = (place.skip || decide (c ≠ quote.char)) := by
      intro h hh
      have hself : '\\' ≠ quote.char := by cases quote <;> decide
      rw [Place.step]
      cases hskip : place.skip with
      | true => rw [if_pos rfl, hquote]; rfl
      | false =>
        rw [if_neg Bool.false_ne_true, hquote, Bool.false_or]
        simp only [Lexing.next, if_neg (hh quote.char (quote_mem_marks quote))]
        split_ifs with hback hchar
        · simp [Lexing.isOpen, hback.1, hself]
        · simp [Lexing.isOpen, hchar]
        · simp [Lexing.isOpen, hchar]
    rw [hopen f hf, hopen g hg]
  · rw [step_neutral hf hg (Or.inr (not_exists.mp hquoted)) c]

theorem splitFrom_append_blank {w : Str} (hw : ∀ c ∈ w, isSpace c = true) (place : Place) (current s : Str) :
    splitFrom place current (s ++ w) = splitFrom place current s := by
  induction s generalizing place current with
  | nil => exact splitFrom_blank hw place current
  | cons c s ih =>
    have hrest : splitFrom (place.step isFeed c (s ++ w).head?) (current ++ [c]) (s ++ w)
        = splitFrom (place.step isFeed c s.head?) (current ++ [c]) s := by
      cases s with
      | cons d s => exact ih _ _
      | nil =>
        have hneutral : Neutral w.head? := by
          have hhead := neutral_head hw neutral_none
          rwa [Option.or_none] at hhead
        rw [List.nil_append, splitFrom_blank hw, splitFrom_end, splitFrom_end, List.head?_nil,
          isOpen_step_neutral hneutral neutral_none]
    rw [List.cons_append, splitFrom_cons, splitFrom_cons, ih, hrest]

theorem splitSql_strip (s : Str) : splitSql (strip s) = splitSql s := by
  obtain ⟨w₁, w₂, hw₁, hw₂, hs⟩ := exists_strip s
  calc splitSql (strip s) = splitFrom .start [] (strip s ++ w₂) := (splitFrom_append_blank hw₂ _ _ _).symm
    _ = splitFrom .start w₁ (strip s ++ w₂) := by
        have hspace := splitFrom_space hw₁ .start [] (strip s ++ w₂)
        rw [List.append_nil] at hspace
        exact hspace.symm
    _ = splitFrom .start [] (w₁ ++ (strip s ++ w₂)) := by
        have hunbroken : Unbroken .start w₁ (strip s ++ w₂).head? := (scan_space hw₁ _).2.unbroken
        rw [splitFrom_append hunbroken, (scan_space hw₁ _).1, List.nil_append]
    _ = splitSql s := by
        rw [← List.append_assoc, splitSql]
        exact congrArg (splitFrom .start []) hs.symm

def LfText (s : Str) : Prop := '\r' ∉ s

instance (s : Str) : Decidable (LfText s) := inferInstanceAs (Decidable ('\r' ∉ s))

/-- **Removing comments and splitting commute**: the statements of the text without its comments are the statements
of the text without theirs. And comments are removed once and for all. -/
theorem split_strip_comments {s : Str} (hr : LfText s) :
    (∀ statements, splitSql s = .ok statements →
      ∃ kept, splitSql (stripSqlComments s) = .ok kept ∧ kept.map strip = withoutComments statements)
    ∧ stripSqlComments (stripSqlComments s) = stripSqlComments s := by
  refine ⟨fun statements h => ?_, strip_comments_twice hr⟩
  have hkept : splitSql (stripSqlComments s) = .ok (withoutComments statements) := by
    rw [stripSqlComments, splitSql_strip]
    exact @splitFrom_uncommented .start [] s statements hr rfl h
  refine ⟨_, hkept, ?_⟩
  have hstripped : ∀ t ∈ withoutComments statements, strip t = t :=
    fun t ht => (splitSql_isStatement hkept t ht).stripped
  exact (List.map_congr_left hstripped).trans (List.map_id _)

theorem split_strip_comments_line : ∃ kept,
    splitSql (stripSqlComments ['a', '-', '-', ';', '\n', ';', '\'', '#', '\'']) = .ok kept
      ∧ kept.map strip = [['a'], ['\'', '#', '\'']] :=
  (split_strip_comments (show LfText ['a', '-', '-', ';', '\n', ';', '\'', '#', '\''] by decide)).1
    [['a', '-', '-', ';'], ['\'', '#', '\'']] (by decide)

end Ai00.Migration
