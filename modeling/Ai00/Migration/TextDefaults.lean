import Ai00.Migration.SchemaExecution

/-! # Default texts

A database reports the value of a default text, not its literal. `_default` reads the value once more as if it were
written in SQL. The literal and the value have one normal form exactly for a plain value (`sameDefault_iff`).
-/

namespace Ai00.Migration

open Regex

/-! ## Plain values -/

/-- A value that does not look like an SQL expression. -/
structure PlainValue (value : Str) : Prop where
  stripped : strip value = value
  notNull : upper value ≠ "NULL".toList
  open_ : ¬ Parenthesized value
  bare : ¬ Quoted value
  single : '\'' ∉ value

/-- What `_default` takes for the text of a default. -/
def unwrapped (s : Str) : Str := outOfQuotes (outOfParentheses (strip s).length (strip s))

variable {s t value : Str} {c : Char}

/-! ## Shorter texts -/

theorem strip_shortens : strip s = s ∨ (strip s).length < s.length := by
  have hpart := strip_isInfix s
  rcases Nat.lt_or_ge (strip s).length s.length with hlt | hge
  · exact .inr hlt
  · exact .inl (hpart.eq_of_length (le_antisymm hpart.length_le hge))

theorem inside_length_lt (h : s ≠ []) : (inside s).length < s.length := by
  rw [inside, List.length_dropLast, List.length_tail]
  have := List.length_pos_iff.mpr h
  omega

theorem Parenthesized.ne_nil (h : Parenthesized s) : s ≠ [] := by
  rintro rfl
  exact nomatch h.1

theorem outOfParentheses_shortens {n : ℕ} :
    outOfParentheses n s = s ∨ (outOfParentheses n s).length < s.length := by
  induction n generalizing s with
  | zero => exact .inl rfl
  | succ n ih =>
    rw [outOfParentheses]
    split_ifs with h
    · have hinside := inside_length_lt h.ne_nil
      have hstrip : (strip (inside s)).length ≤ (inside s).length := (strip_isInfix _).length_le
      have hle : (outOfParentheses n (strip (inside s))).length ≤ (strip (inside s)).length :=
        ih.elim (fun h => by rw [h]) le_of_lt
      exact .inr (by omega)
    · exact .inl rfl

theorem not_parenthesized_of_eq (h : outOfParentheses s.length s = s) : ¬ Parenthesized s := by
  intro hp
  obtain ⟨n, hn⟩ := Nat.exists_eq_succ_of_ne_zero (Nat.ne_of_gt (List.length_pos_iff.mpr hp.ne_nil))
  rw [hn, outOfParentheses, if_pos hp] at h
  have hinside := inside_length_lt hp.ne_nil
  have hstrip : (strip (inside s)).length ≤ (inside s).length := (strip_isInfix _).length_le
  have hle : (outOfParentheses n (strip (inside s))).length ≤ (strip (inside s)).length :=
    outOfParentheses_shortens.elim (fun h => by rw [h]) le_of_lt
  rw [h] at hle
  omega

theorem outOfParentheses_of_not {n : ℕ} (h : ¬ Parenthesized s) : outOfParentheses n s = s := by
  cases n with
  | zero => rfl
  | succ n => rw [outOfParentheses, if_neg h]

theorem outOfQuotes_shortens : outOfQuotes s = s ∨ (outOfQuotes s).length < s.length := by
  rw [outOfQuotes]
  split_ifs with h
  · refine .inr (inside_length_lt ?_)
    rintro rfl
    exact absurd h.1 (by decide)
  · exact .inl rfl

theorem not_quoted_of_eq (h : outOfQuotes s = s) : ¬ Quoted s := by
  intro hq
  rw [outOfQuotes, if_pos hq] at h
  have hne : s ≠ [] := by
    rintro rfl
    exact absurd hq.1 (by decide)
  have := inside_length_lt hne
  rw [h] at this
  omega

theorem unwrapped_shortens : unwrapped s = s ∨ (unwrapped s).length < s.length := by
  have hstrip := strip_shortens (s := s)
  have hparentheses := outOfParentheses_shortens (s := strip s) (n := (strip s).length)
  have hquotes := outOfQuotes_shortens (s := outOfParentheses (strip s).length (strip s))
  rw [← unwrapped] at hquotes
  rcases hquotes with hq | hq
  · rcases hparentheses with hp | hp
    · rcases hstrip with hs | hs
      · exact .inl (by rw [hq, hp, hs])
      · exact .inr (by rw [hq, hp]; exact hs)
    · have : (strip s).length ≤ s.length := (strip_isInfix s).length_le
      exact .inr (by rw [hq]; omega)
  · have hle : (outOfParentheses (strip s).length (strip s)).length ≤ (strip s).length :=
      hparentheses.elim (fun h => by rw [h]) le_of_lt
    have : (strip s).length ≤ s.length := (strip_isInfix s).length_le
    exact .inr (by omega)

/-- Nothing is taken off exactly a text without space around it that is in no parentheses or quotes. -/
theorem unwrapped_eq_iff : unwrapped s = s ↔ strip s = s ∧ ¬ Parenthesized s ∧ ¬ Quoted s := by
  constructor
  · intro h
    have hlength := congrArg List.length h
    have hquotes := outOfQuotes_shortens (s := outOfParentheses (strip s).length (strip s))
    rw [← unwrapped] at hquotes
    have hparentheses := outOfParentheses_shortens (s := strip s) (n := (strip s).length)
    have hle : (outOfParentheses (strip s).length (strip s)).length ≤ (strip s).length :=
      hparentheses.elim (fun h => by rw [h]) le_of_lt
    have hsle : (strip s).length ≤ s.length := (strip_isInfix s).length_le
    have hstrip : strip s = s := strip_shortens.resolve_right (by
      rcases hquotes with hq | hq
      · rw [hq] at hlength
        omega
      · omega)
    have hp : outOfParentheses (strip s).length (strip s) = strip s := hparentheses.resolve_right (by
      rcases hquotes with hq | hq
      · rw [hq] at hlength
        omega
      · omega)
    rw [unwrapped, hp, hstrip] at h
    rw [hstrip] at hp
    exact ⟨hstrip, not_parenthesized_of_eq hp, not_quoted_of_eq h⟩
  · rintro ⟨hstrip, hp, hq⟩
    rw [unwrapped, hstrip, outOfParentheses_of_not hp, outOfQuotes, if_neg hq]

/-! ## Timestamps -/

theorem foldCase_of_isSpace (h : isSpace c = true) : foldCase c = c := by
  have hn : c.toNat ≠ 0x130 ∧ c.toNat ≠ 0x131 ∧ c.toNat ≠ 0x17F ∧ c.toNat ≠ 0x212A ∧ ¬ (65 ≤ c.toNat ∧ c.toNat ≤ 90) := by
    simp [isSpace] at h
    omega
  have hlower : c.toLower = c := by
    unfold Char.toLower
    rw [dif_neg]
    rintro ⟨hlo, hhi⟩
    exact hn.2.2.2.2 ⟨hlo, hhi⟩
  rw [foldCase, if_neg (by omega), if_neg (by omega), if_neg (by omega), hlower]

/-- The letters of the word, in any case, are neither space nor quotes nor parentheses. -/
theorem timestamp_letter (h : foldCase c ∈ timestampWord) :
    isSpace c = false ∧ c ≠ '\'' ∧ c ≠ '"' ∧ c ≠ '(' := by
  refine ⟨?_, ?_, ?_, ?_⟩
  · by_contra hspace
    rw [Bool.not_eq_false] at hspace
    rw [foldCase_of_isSpace hspace] at h
    revert hspace
    have hall : ∀ d ∈ timestampWord, ¬ isSpace d = true := by simp [timestampWord, isSpace]
    exact hall c h
  all_goals
    rintro rfl
    revert h
    decide

theorem digit_not_space (h : c.isDigit = true) : isSpace c = false ∧ c ≠ '\'' := by
  have hn : 48 ≤ c.toNat ∧ c.toNat ≤ 57 := by
    simp only [Char.isDigit, Bool.and_eq_true, decide_eq_true_eq] at h
    exact h
  constructor
  · simp [isSpace]
    omega
  · rintro rfl
    exact absurd hn (by decide)

/-- A timestamp has no spaces and no quotes, and it does not begin with a parenthesis. -/
theorem timestamp_chars (h : isTimestamp s = true) : (∀ c ∈ s, isSpace c = false ∧ c ≠ '\'')
    ∧ s.head? ≠ some '(' ∧ s.head? ≠ some '"' ∧ 17 ≤ s.length := by
  simp only [isTimestamp, Bool.and_eq_true, Bool.or_eq_true, beq_iff_eq, decide_eq_true_eq, bne_iff_ne] at h
  obtain ⟨hword, hrest⟩ := h
  have hlength : 17 ≤ s.length := by
    have := congrArg List.length hword
    rw [List.length_map, List.length_take] at this
    have hsize : timestampWord.length = 17 := by decide
    omega
  have hletters : ∀ c ∈ s.take 17, isSpace c = false ∧ c ≠ '\'' ∧ c ≠ '"' ∧ c ≠ '(' := by
    intro c hc
    exact timestamp_letter (hword ▸ List.mem_map_of_mem hc)
  have hhead : ∀ c, s.head? = some c → c ∈ s.take 17 := by
    intro c hc
    cases s with
    | nil => exact nomatch hc
    | cons d s =>
      obtain rfl := Option.some.inj hc
      exact List.mem_cons_self
  have htail : ∀ c ∈ s.drop 17, isSpace c = false ∧ c ≠ '\'' := by
    intro c hc
    rcases hrest with hnil | ⟨⟨⟨hopen, hclose⟩, -⟩, hdigits⟩
    · rw [hnil] at hc
      exact absurd hc List.not_mem_nil
    · cases hd : s.drop 17 with
      | nil =>
        rw [hd] at hc
        exact absurd hc List.not_mem_nil
      | cons d ds =>
        rw [hd] at hc hopen hclose hdigits
        obtain rfl := Option.some.inj hopen
        rcases List.mem_cons.mp hc with rfl | hc
        · exact ⟨by decide, by decide⟩
        · have hds : ds ≠ [] := List.ne_nil_of_mem hc
          rw [List.getLast?_cons_of_ne_nil hds] at hclose
          rw [← List.dropLast_append_getLast? _ hclose, List.mem_append] at hc
          rcases hc with hc | hc
          · exact digit_not_space (List.all_eq_true.mp hdigits c hc)
          · rw [List.mem_singleton.mp hc]
            exact ⟨by decide, by decide⟩
  refine ⟨fun c hc => ?_, fun hc => ?_, fun hc => ?_, hlength⟩
  · rw [← List.take_append_drop 17 s, List.mem_append] at hc
    rcases hc with hc | hc
    · exact ⟨(hletters c hc).1, (hletters c hc).2.1⟩
    · exact htail c hc
  · exact (hletters _ (hhead _ hc)).2.2.2 rfl
  · exact (hletters _ (hhead _ hc)).2.2.1 rfl

theorem strip_eq_self (h : ∀ c ∈ s, isSpace c = false) : strip s = s := by
  have hfront : s.dropWhile isSpace = s := dropWhile_eq_self_of_head fun c hc => h c (List.mem_of_mem_head? hc)
  have hback : s.reverse.dropWhile isSpace = s.reverse :=
    dropWhile_eq_self_of_head fun c hc => h c (List.mem_reverse.mp (List.mem_of_mem_head? hc))
  rw [strip, hfront, hback, List.reverse_reverse]

theorem Quoted.head (h : Quoted s) : s.head? = some '\'' ∨ s.head? = some '"' := h.2.2

theorem plainValue_of_timestamp (h : isTimestamp s = true) : PlainValue s where
  stripped := strip_eq_self fun c hc => ((timestamp_chars h).1 c hc).1
  notNull hnull := by
    have hlength := congrArg List.length hnull
    rw [upper, List.length_map] at hlength
    have := (timestamp_chars h).2.2.2
    have hsize : "NULL".toList.length = 4 := rfl
    omega
  open_ hp := (timestamp_chars h).2.1 hp.1
  bare hq := by
    rcases hq.head with hhead | hhead
    · exact ((timestamp_chars h).1 _ (List.mem_of_mem_head? hhead)).2 rfl
    · exact (timestamp_chars h).2.2.1 hhead
  single hmem := ((timestamp_chars h).1 _ hmem).2 rfl

theorem PlainValue.unwrapped_eq (h : PlainValue s) : unwrapped s = s :=
  unwrapped_eq_iff.mpr ⟨h.stripped, h.open_, h.bare⟩

/-! ## Literals -/

theorem doubled_eq_self (h : '\'' ∉ value) : doubled value = value := by
  induction value with
  | nil => rfl
  | cons c value ih =>
    rw [List.mem_cons, not_or] at h
    rw [doubled, List.flatMap_cons, if_neg (Ne.symm h.1), ← doubled, ih h.2]
    rfl

theorem length_le_doubled : value.length ≤ (doubled value).length := by
  induction value with
  | nil => exact le_rfl
  | cons c value ih =>
    rw [doubled, List.flatMap_cons, ← doubled, List.length_append, List.length_cons]
    split_ifs
    · simp only [List.length_cons, List.length_nil]
      omega
    · simp only [List.length_cons, List.length_nil]
      omega

theorem length_lt_doubled (h : '\'' ∈ value) : value.length < (doubled value).length := by
  induction value with
  | nil => exact absurd h List.not_mem_nil
  | cons c value ih =>
    rw [doubled, List.flatMap_cons, ← doubled, List.length_append, List.length_cons]
    have hle := @length_le_doubled value
    by_cases hc : c = '\''
    · rw [if_pos hc]
      simp only [List.length_cons, List.length_nil]
      omega
    · rw [if_neg hc]
      have := ih ((List.mem_cons.mp h).resolve_left fun heq => hc heq.symm)
      simp only [List.length_cons, List.length_nil]
      omega

theorem mem_doubled (h : '\'' ∈ value) : '\'' ∈ doubled value :=
  List.mem_flatMap.mpr ⟨_, h, by simp⟩

theorem value_of_doubled (h : '\'' ∉ doubled value) : doubled value = value :=
  doubled_eq_self fun hmem => h (mem_doubled hmem)

theorem timestampForm_cases (s : Str) : timestampForm s = s ∧ isTimestamp s = false
    ∨ isTimestamp s = true ∧ timestampForm s = upper timestampWord
    ∨ ∃ t, s = t ++ ['\n'] ∧ isTimestamp t = true ∧ timestampForm s = upper timestampWord ++ ['\n'] := by
  unfold timestampForm
  split_ifs with h hline
  · exact .inr (.inl ⟨h, rfl⟩)
  · exact .inr (.inr ⟨s.dropLast, (List.dropLast_append_getLast? _ hline.1).symm, hline.2, rfl⟩)
  · exact .inl ⟨rfl, by simpa using h⟩

theorem timestamp_word : isTimestamp (upper timestampWord) = true := by decide

theorem unwrapped_line (h : isTimestamp t = true) : unwrapped (t ++ ['\n']) = t := by
  have hstrip : strip (t ++ ['\n']) = t := by
    rw [strip_append_right (by simp [isSpace]), (plainValue_of_timestamp h).stripped]
  have hplain := (plainValue_of_timestamp h).unwrapped_eq
  rw [unwrapped, (plainValue_of_timestamp h).stripped] at hplain
  rw [unwrapped, hstrip, hplain]

/-- **A literal and its value have one normal form** exactly for a plain value. -/
theorem sameForm_iff : (upper (strip value) ≠ "NULL".toList ∧ timestampForm (doubled value) = timestampForm (unwrapped value))
    ↔ PlainValue value := by
  constructor
  · rintro ⟨hnull, hforms⟩
    rcases timestampForm_cases (doubled value) with ⟨hd, hdf⟩ | ⟨hstamp, -⟩ | ⟨t, hline, hstamp, hd⟩
    · rw [hd] at hforms
      rcases timestampForm_cases (unwrapped value) with ⟨hw, -⟩ | ⟨-, hw⟩ | ⟨t, hline, -, hw⟩
      · rw [hw] at hforms
        have hle := @length_le_doubled value
        have hself : unwrapped value = value := unwrapped_shortens.resolve_right (by rw [← hforms]; omega)
        obtain ⟨hstrip, hp, hq⟩ := unwrapped_eq_iff.mp hself
        refine ⟨hstrip, hstrip ▸ hnull, hp, hq, fun hmem => ?_⟩
        have hlt := length_lt_doubled hmem
        rw [hforms, hself] at hlt
        omega
      · rw [hforms, hw, timestamp_word] at hdf
        exact nomatch hdf
      · -- the word and a line feed, which is taken off the value
        rw [hw] at hforms
        have hvalue : value = upper timestampWord ++ ['\n'] := by
          rw [← hforms]
          exact (value_of_doubled (by rw [hforms]; decide)).symm
        rw [hvalue, unwrapped_line timestamp_word] at hline
        have hspace := (timestamp_chars timestamp_word).1 '\n' (by rw [hline]; simp)
        exact absurd hspace.1 (by decide)
    · have hvalue := value_of_doubled fun hmem => ((timestamp_chars hstamp).1 _ hmem).2 rfl
      exact plainValue_of_timestamp (hvalue ▸ hstamp)
    · have hvalue : doubled value = value := by
        refine value_of_doubled fun hmem => ?_
        rw [hline, List.mem_append] at hmem
        rcases hmem with hmem | hmem
        · exact ((timestamp_chars hstamp).1 _ hmem).2 rfl
        · exact absurd (List.mem_singleton.mp hmem) (by decide)
      rw [hd, ← hvalue, hline, unwrapped_line hstamp, timestampForm, if_pos hstamp] at hforms
      have := congrArg List.length hforms
      simp at this
  · intro h
    rw [h.stripped, doubled_eq_self h.single, h.unwrapped_eq]
    exact ⟨h.notNull, rfl⟩

theorem literal_ends (value : Str) : (literal value).head? = some '\'' ∧ (literal value).getLast? = some '\'' :=
  ⟨rfl, by rw [literal, List.getLast?_append]; rfl⟩

theorem literal_not_parenthesized (value : Str) : ¬ Parenthesized (literal value) := by
  intro h
  exact absurd (Option.some.inj ((literal_ends value).1.symm.trans h.1)) (by decide)

theorem outOfQuotes_literal (value : Str) : outOfQuotes (literal value) = doubled value := by
  have hends := literal_ends value
  have hquoted : Quoted (literal value) := ⟨by simp [literal], hends.1.trans hends.2.symm, .inl hends.1⟩
  rw [outOfQuotes, if_pos hquoted, inside, literal, List.cons_append, List.tail_cons, List.dropLast_concat]

theorem strip_of_ends {a b : Char} (ha : s.head? = some a) (hb : s.getLast? = some b) (hna : isSpace a = false)
    (hnb : isSpace b = false) : strip s = s := by
  have hfront : s.dropWhile isSpace = s :=
    dropWhile_eq_self_of_head fun c hc => Option.some.inj (ha.symm.trans hc) ▸ hna
  have hback : s.reverse.dropWhile isSpace = s.reverse := by
    refine dropWhile_eq_self_of_head fun c hc => ?_
    rw [List.head?_reverse] at hc
    exact Option.some.inj (hb.symm.trans hc) ▸ hnb
  rw [strip, hfront, hback, List.reverse_reverse]

theorem upper_ne_null {a : Char} (ha : s.head? = some a) (hn : a.toUpper ≠ 'N') : upper s ≠ "NULL".toList := by
  cases s with
  | nil => exact nomatch ha
  | cons c s =>
    obtain rfl := Option.some.inj ha
    exact fun h => hn (List.cons.inj h).1

/-! ## Defaults of text columns -/

section

variable {alphabet : Alphabet} {dataType written : Str}

theorem typedForm_text (h : TextType alphabet dataType) : typedForm alphabet dataType s = s := by
  obtain ⟨rest, hrest⟩ := List.isPrefixOf_iff_prefix.mp h
  have hv : normalType alphabet dataType = 'V' :: ("ARCHAR(".toList ++ rest) := hrest.symm
  unfold typedForm
  simp only [hv]
  rw [if_neg, if_neg]
  · simp
  · simp

theorem unwrapped_written (h : renderedDefault written = literal value) :
    unwrapped written = doubled value ∧ upper (strip written) ≠ "NULL".toList := by
  have hends := literal_ends value
  unfold renderedDefault at h
  simp only at h
  split at h
  case isTrue hscalar =>
    have hp := hscalar.1
    have hstrip : strip written = written := strip_of_ends hp.1 hp.2 (by decide) (by decide)
    obtain ⟨n, hn⟩ := Nat.exists_eq_succ_of_ne_zero (Nat.ne_of_gt (List.length_pos_iff.mpr hp.ne_nil))
    constructor
    · rw [unwrapped, hstrip, hn, outOfParentheses, if_pos hp, h,
        outOfParentheses_of_not (literal_not_parenthesized value), outOfQuotes_literal]
    · rw [hstrip]
      exact upper_ne_null hp.1 (by decide)
  case isFalse =>
    rw [h]
    have hstrip : strip (literal value) = literal value := strip_of_ends hends.1 hends.2 (by decide) (by decide)
    constructor
    · rw [unwrapped, hstrip, outOfParentheses_of_not (literal_not_parenthesized value), outOfQuotes_literal]
    · rw [hstrip]
      exact upper_ne_null hends.1 (by decide)

theorem normalDefault_text (h : TextType alphabet dataType) (s : Str) : normalDefault alphabet (some s) dataType
    = if upper (strip s) = "NULL".toList then none else some (timestampForm (unwrapped s)) := by
  rw [normalDefault]
  simp only [typedForm_text h]
  rfl

/-- **The default of a text column is read back** exactly if its value is plain. -/
theorem sameDefault_iff (h : TextType alphabet dataType) (hwritten : renderedDefault written = literal value) :
    normalDefault alphabet (some written) dataType = normalDefault alphabet (some value) dataType
      ↔ PlainValue value := by
  obtain ⟨hunwrapped, hnull⟩ := unwrapped_written hwritten
  rw [normalDefault_text h, normalDefault_text h, if_neg hnull, hunwrapped, ← sameForm_iff]
  split_ifs with hvalue
  · exact ⟨fun heq => (nomatch heq), fun hplain => absurd hvalue hplain.1⟩
  · rw [Option.some_inj]
    exact ⟨fun heq => ⟨hvalue, heq⟩, fun hplain => hplain.2⟩

end

end Ai00.Migration
