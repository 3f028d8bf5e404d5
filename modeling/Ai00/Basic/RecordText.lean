import Ai00.Basic.RecordLines

/-! # Texts of records

A `Member` writes a value so that it can be read off the front of a text: numbers, quoted strings,
fixed words, one after another. A record is an opening brace and its member; since no member
writes that brace, a text made of several pieces of records is never the text of one
(`recordCodec`). The texts are those of a JSON writer that escapes what is not plain ASCII, for
strings of plain characters; other characters are written by their numbers.
-/

namespace Ai00.RecordLines

/-- `'{'`. -/
def brace : UInt8 := 123

/-- What a member may write. -/
def Inner (text : Bytes) : Prop := ∀ b ∈ text, b ≠ brace ∧ b ≠ lf ∧ b ≠ cr

def ascii (s : String) : Bytes := s.toList.map (fun c => UInt8.ofNat c.toNat)

theorem inner_append {s t : Bytes} (hs : Inner s) (ht : Inner t) : Inner (s ++ t) := by
  intro b hb
  rcases List.mem_append.mp hb with hb | hb
  · exact hs b hb
  · exact ht b hb

theorem inner_ascii {s : String}
    (h : s.toList.all (fun c => c.toNat < 128 && c.toNat != 123 && c.toNat != 10
      && c.toNat != 13) = true) : Inner (ascii s) := by
  intro b hb
  obtain ⟨c, hc, rfl⟩ := List.mem_map.mp hb
  have hplain := List.all_eq_true.mp h c hc
  simp only [Bool.and_eq_true, decide_eq_true_eq, bne_iff_ne, ne_eq] at hplain
  have hvalue : (UInt8.ofNat c.toNat).toNat = c.toNat := by
    rw [UInt8.toNat_ofNat']
    omega
  refine ⟨fun heq => ?_, fun heq => ?_, fun heq => ?_⟩
  all_goals
    rw [heq] at hvalue
    simp [brace, lf, cr] at hvalue
    omega

structure Member (α : Type) where
  write : α → Bytes
  read : Bytes → Option (α × Bytes)
  read_write : ∀ a rest, read (write a ++ rest) = some (a, rest)
  inner : ∀ a, Inner (write a)

namespace Member

variable {α β : Type}

def word (text : Bytes) (h : Inner text) : Member Unit where
  write _ := text
  read s := if text.isPrefixOf s then some ((), s.drop text.length) else none
  read_write := by
    intro _ rest
    rw [if_pos (by simp), List.drop_left]
  inner _ := h

def seq (m : Member α) (n : Member β) : Member (α × β) where
  write p := m.write p.1 ++ n.write p.2
  read s := do
    let (a, s) ← m.read s
    let (b, s) ← n.read s
    return ((a, b), s)
  read_write := by
    rintro ⟨a, b⟩ rest
    rw [List.append_assoc, m.read_write]
    show (n.read (n.write b ++ rest)).bind _ = _
    rw [n.read_write]
    rfl
  inner p := inner_append (m.inner p.1) (n.inner p.2)

/-- The same text for values that correspond. -/
def map (m : Member α) (f : α → β) (g : β → α) (h : ∀ b, f (g b) = b) : Member β where
  write b := m.write (g b)
  read s := (m.read s).map (Prod.map f id)
  read_write := by
    intro b rest
    rw [m.read_write]
    simp [h]
  inner b := m.inner (g b)

/-! ## Numbers -/

def digitByte (d : Nat) : UInt8 := UInt8.ofNat (48 + d)

def isDigit (b : UInt8) : Bool := 48 ≤ b && b ≤ 57

def numberText (n : Nat) : Bytes := if n = 0 then [48] else ((Nat.digits 10 n).map digitByte).reverse

def readNumber (s : Bytes) : Nat := s.foldl (fun n b => 10 * n + (b.toNat - 48)) 0

theorem digitByte_toNat {d : Nat} (h : d < 10) : (digitByte d).toNat = 48 + d := by
  interval_cases d <;> rfl

theorem isDigit_digitByte {d : Nat} (h : d < 10) : isDigit (digitByte d) = true := by
  interval_cases d <;> rfl

theorem readNumber_numberText (n : Nat) : readNumber (numberText n) = n := by
  unfold numberText readNumber
  split_ifs with h
  · rw [h]
    rfl
  · rw [List.foldl_reverse, List.foldr_map]
    have hfold : ∀ ds : List Nat, (∀ d ∈ ds, d < 10) →
        ds.foldr (fun d n => 10 * n + ((digitByte d).toNat - 48)) 0 = Nat.ofDigits 10 ds := by
      intro ds hds
      induction ds with
      | nil => rfl
      | cons d ds ih =>
        rw [List.foldr_cons, ih fun e he => hds e (List.mem_cons_of_mem _ he),
          digitByte_toNat (hds d List.mem_cons_self), Nat.ofDigits_cons]
        omega
    rw [hfold _ fun d hd => Nat.digits_lt_base (by decide) hd, Nat.ofDigits_digits]

theorem numberText_digits (n : Nat) : ∀ b ∈ numberText n, isDigit b = true := by
  intro b hb
  unfold numberText at hb
  split_ifs at hb
  · rw [List.mem_singleton] at hb
    rw [hb]
    rfl
  · rw [List.mem_reverse] at hb
    obtain ⟨d, hd, rfl⟩ := List.mem_map.mp hb
    exact isDigit_digitByte (Nat.digits_lt_base (by decide) hd)

/-- A byte that may follow a number. -/
structure Stop (b : UInt8) : Prop where
  not_digit : isDigit b = false
  inner : Inner [b]

theorem stop_comma : Stop 44 := ⟨rfl, by simp [Inner, brace, lf, cr]⟩

def number (stop : UInt8) (h : Stop stop) : Member Nat where
  write n := numberText n ++ [stop]
  read s := some (readNumber (s.takeWhile isDigit), (s.dropWhile isDigit).drop 1)
  read_write := by
    intro n rest
    have hdigits := numberText_digits n
    have hsplit : (numberText n ++ [stop]) ++ rest = numberText n ++ (stop :: rest) := by simp
    rw [hsplit, List.takeWhile_append_of_pos hdigits, List.dropWhile_append_of_pos hdigits,
      List.takeWhile_cons_of_neg (by simp [h.not_digit]),
      List.dropWhile_cons_of_neg (by simp [h.not_digit]), List.append_nil, readNumber_numberText]
    rfl
  inner n := by
    refine inner_append (fun b hb => ?_) h.inner
    have hdigit := numberText_digits n b hb
    refine ⟨?_, ?_, ?_⟩ <;> rintro rfl <;> cases hdigit

/-! ## Strings -/

def quote : UInt8 := 34

def backslash : UInt8 := 92

/-- The characters that are written as they are. -/
def isSafe (c : Char) : Bool :=
  32 ≤ c.toNat && c.toNat < 127 && !(['"', '\\', '\x7b', '<', '>', '&', '+'].contains c)

def hexByte (d : Nat) : UInt8 := if d < 10 then UInt8.ofNat (48 + d) else UInt8.ofNat (55 + d)

def hexValue (b : UInt8) : Nat := if b < 58 then b.toNat - 48 else b.toNat - 55

def charText (c : Char) : Bytes :=
  if isSafe c then [UInt8.ofNat c.toNat]
  else [backslash, hexByte (c.toNat / 1048576 % 16), hexByte (c.toNat / 65536 % 16),
    hexByte (c.toNat / 4096 % 16), hexByte (c.toNat / 256 % 16), hexByte (c.toNat / 16 % 16),
    hexByte (c.toNat % 16)]

def readText : Bytes → Option (List Char × Bytes)
  | [] => none
  | b :: rest =>
    if b = quote then some ([], rest)
    else if b = backslash then
      match rest with
      | b₅ :: b₄ :: b₃ :: b₂ :: b₁ :: b₀ :: more =>
        (readText more).map (Prod.map (Char.ofNat (hexValue b₅ * 1048576 + hexValue b₄ * 65536
          + hexValue b₃ * 4096 + hexValue b₂ * 256 + hexValue b₁ * 16 + hexValue b₀) :: ·) id)
      | _ => none
    else (readText rest).map (Prod.map (Char.ofNat b.toNat :: ·) id)

theorem readText_quote (rest : Bytes) : readText (quote :: rest) = some ([], rest) := by
  rw [readText.eq_def]
  exact if_pos rfl

theorem readText_plain {b : UInt8} (hquote : b ≠ quote) (hback : b ≠ backslash) (rest : Bytes) :
    readText (b :: rest) = (readText rest).map (Prod.map (Char.ofNat b.toNat :: ·) id) := by
  rw [readText.eq_def]
  exact (if_neg hquote).trans (if_neg hback)

theorem readText_escape (b₅ b₄ b₃ b₂ b₁ b₀ : UInt8) (more : Bytes) :
    readText (backslash :: b₅ :: b₄ :: b₃ :: b₂ :: b₁ :: b₀ :: more)
      = (readText more).map (Prod.map (Char.ofNat (hexValue b₅ * 1048576 + hexValue b₄ * 65536
        + hexValue b₃ * 4096 + hexValue b₂ * 256 + hexValue b₁ * 16 + hexValue b₀) :: ·) id) := by
  rw [readText.eq_def]
  exact (if_neg (by decide)).trans (if_pos rfl)

theorem hexValue_hexByte {d : Nat} (h : d < 16) : hexValue (hexByte d) = d := by
  interval_cases d <;> rfl

theorem hexByte_inner {d : Nat} (h : d < 16) :
    hexByte d ≠ brace ∧ hexByte d ≠ lf ∧ hexByte d ≠ cr := by
  interval_cases d <;> decide

theorem isSafe_byte {c : Char} (h : isSafe c = true) :
    (UInt8.ofNat c.toNat).toNat = c.toNat ∧ UInt8.ofNat c.toNat ≠ quote ∧ UInt8.ofNat c.toNat ≠ backslash
      ∧ (UInt8.ofNat c.toNat ≠ brace ∧ UInt8.ofNat c.toNat ≠ lf ∧ UInt8.ofNat c.toNat ≠ cr) := by
  simp only [isSafe, Bool.and_eq_true, decide_eq_true_eq, Bool.not_eq_true', List.contains_cons,
    Bool.or_eq_false_iff, beq_eq_false_iff_ne] at h
  obtain ⟨⟨hlow, hhigh⟩, hquote, hback, hbrace, -⟩ := h
  have hbyte : (UInt8.ofNat c.toNat).toNat = c.toNat := by
    rw [UInt8.toNat_ofNat']
    omega
  have hne : ∀ b : UInt8, c.toNat ≠ b.toNat → UInt8.ofNat c.toNat ≠ b := by
    rintro b hb rfl
    exact hb hbyte.symm
  have hchar : ∀ d : Char, c ≠ d → c.toNat ≠ d.toNat := by
    intro d hd heq
    exact hd (Char.toNat_inj.mp heq)
  refine ⟨hbyte, hne _ (hchar '"' hquote), hne _ (hchar '\\' hback), hne _ (hchar '\x7b' hbrace),
    hne _ ?_, hne _ ?_⟩
  · show c.toNat ≠ 10
    omega
  · show c.toNat ≠ 13
    omega

theorem readText_charText (c : Char) (s : Bytes) :
    readText (charText c ++ s) = (readText s).map (Prod.map (c :: ·) id) := by
  unfold charText
  split_ifs with hsafe
  · obtain ⟨hbyte, hquote, hback, -⟩ := isSafe_byte hsafe
    rw [List.singleton_append, readText_plain hquote hback, hbyte, Char.ofNat_toNat]
  · have hdigit : ∀ n : Nat, n % 16 < 16 := fun n => Nat.mod_lt _ (by decide)
    simp only [List.cons_append, List.nil_append]
    rw [readText_escape]
    simp only [hexValue_hexByte (hdigit _)]
    have hlt : c.toNat < 1114112 := by
      rcases c.valid with h | ⟨-, h⟩
      · exact h.trans (by decide)
      · exact h
    have hsum : c.toNat / 1048576 % 16 * 1048576 + c.toNat / 65536 % 16 * 65536
        + c.toNat / 4096 % 16 * 4096 + c.toNat / 256 % 16 * 256 + c.toNat / 16 % 16 * 16
        + c.toNat % 16 = c.toNat := by omega
    rw [hsum, Char.ofNat_toNat]

theorem charText_inner (c : Char) : Inner (charText c) := by
  unfold charText
  split_ifs with hsafe
  · intro b hb
    rw [List.mem_singleton] at hb
    exact hb ▸ (isSafe_byte hsafe).2.2.2
  · have hdigit : ∀ n : Nat, n % 16 < 16 := fun n => Nat.mod_lt _ (by decide)
    intro b hb
    simp only [List.mem_cons, List.not_mem_nil, or_false] at hb
    rcases hb with rfl | rfl | rfl | rfl | rfl | rfl | rfl
    · decide
    all_goals exact hexByte_inner (hdigit _)

def text : Member String where
  write s := s.toList.flatMap charText ++ [quote]
  read s := (readText s).map (Prod.map String.ofList id)
  read_write := by
    intro s rest
    have hread : ∀ cs : List Char, readText (cs.flatMap charText ++ quote :: rest)
        = some (cs, rest) := by
      intro cs
      induction cs with
      | nil => exact readText_quote rest
      | cons c cs ih =>
        rw [List.flatMap_cons, List.append_assoc, readText_charText, ih]
        rfl
    rw [List.append_assoc, List.singleton_append, hread]
    simp
  inner s := by
    refine inner_append (fun b hb => ?_) (by simp [Inner, quote, brace, lf, cr])
    obtain ⟨c, -, hc⟩ := List.mem_flatMap.mp hb
    exact charText_inner c b hc

/-! ## Choices -/

/-- `true` or `false`. -/
def flag : Member Bool where
  write b := if b then ascii "true" else ascii "false"
  read s := match s with
    | [] => none
    | b :: rest => if b = 116 then some (true, rest.drop 3) else some (false, rest.drop 4)
  read_write := by
    intro b rest
    cases b <;> rfl
  inner := by
    intro b
    cases b <;> exact inner_ascii rfl

/-- `null`, or a value behind a bracket. -/
def nullable (m : Member α) : Member (Option α) where
  write
    | none => ascii "null"
    | some a => 91 :: m.write a
  read s := match s with
    | [] => none
    | b :: rest => if b = 91 then (m.read rest).map (Prod.map some id) else some (none, rest.drop 3)
  read_write := by
    intro a rest
    cases a with
    | none => rfl
    | some a =>
      show (m.read (m.write a ++ rest)).map (Prod.map some id) = _
      rw [m.read_write]
      rfl
  inner := by
    intro a
    cases a with
    | none => exact inner_ascii (s := "null") rfl
    | some a => exact inner_append (by simp [Inner, brace, lf, cr] : Inner [91]) (m.inner a)

end Member

/-! ## Records -/

def recordCodec {α : Type} (m : Member α) : RecordCodec α where
  encode a := brace :: m.write a
  decode s := match s with
    | [] => none
    | b :: s =>
      if b = brace then
        (m.read s).bind fun p => if p.2 = [] ∧ m.write p.1 = s then some p.1 else none
      else none
  visible _ := rfl
  plain := by
    intro a b hb
    rcases List.mem_cons.mp hb with rfl | hb
    · decide
    · exact (m.inner a b hb).2
  decode_encode := by
    intro a
    have hread := m.read_write a []
    rw [List.append_nil] at hread
    show (if brace = brace then _ else _) = _
    rw [if_pos rfl, hread]
    exact if_pos ⟨rfl, rfl⟩
  decode_pieces := by
    intro ps hps a hdecode
    have hexact : ps.flatten = brace :: m.write a := by
      split at hdecode
      · cases hdecode
      · rename_i b s hs
        split_ifs at hdecode with hb
        obtain ⟨p, -, hp⟩ := Option.bind_eq_some_iff.mp hdecode
        split_ifs at hp with hwrite
        cases hp
        rw [hs, hb, hwrite.2]
    -- a second piece would put a brace inside the record
    have hopens : ∀ p ∈ ps, ∃ rest, p = brace :: rest := by
      intro p hp
      obtain ⟨hne, b, -, hprefixed⟩ := hps p hp
      obtain ⟨c, rest, rfl⟩ := List.exists_cons_of_ne_nil hne
      exact ⟨rest, by rw [(List.cons_prefix_cons.mp hprefixed).1]⟩
    match ps with
    | [] => cases hexact
    | [p] =>
      rw [List.flatten_singleton] at hexact
      rw [hexact]
    | p :: q :: rest =>
      obtain ⟨p', rfl⟩ := hopens p List.mem_cons_self
      obtain ⟨q', rfl⟩ := hopens q (List.mem_cons_of_mem _ List.mem_cons_self)
      have hinside : brace ∈ m.write a := by
        have htail : p' ++ ((brace :: q') ++ rest.flatten) = m.write a := by
          simpa using hexact
        rw [← htail]
        simp
      exact absurd rfl (m.inner a brace hinside).1
  prefix_free := by
    rintro a b ⟨rest, hrest⟩
    have hwrite : m.write a ++ rest = m.write b := by simpa using hrest
    have hread := m.read_write b []
    rw [List.append_nil, ← hwrite, m.read_write] at hread
    exact (Prod.mk.inj (Option.some.inj hread)).1

end Ai00.RecordLines
