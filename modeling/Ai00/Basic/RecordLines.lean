import Mathlib

/-! # Files with one record a line

A record is written as one line of text. A write that is cut short leaves a first part of the
line, and the next write goes on behind it, so that an unfinished line is a sequence of *pieces*,
each the beginning of some record's text. `readLines` splits a file the way line readers do (a
line ends in a line feed, a carriage return or both), `Layout` says which pieces its lines are
made of, and a `RecordCodec` reads a line as a record exactly when it is one whole piece.
-/

namespace Ai00.RecordLines

abbrev Bytes := List UInt8

def lf : UInt8 := 10

def cr : UInt8 := 13

/-! ## Lines -/

/-- How far a reader is: the lines it has, the line it is on, and whether a carriage return has
just ended one. -/
structure Scan where
  lines : List Bytes
  line : Bytes
  afterReturn : Bool

def Scan.next (s : Scan) (b : UInt8) : Scan :=
  if b = lf then
    if s.afterReturn then { s with afterReturn := false }
    else ⟨s.lines ++ [s.line], [], false⟩
  else if b = cr then ⟨s.lines ++ [s.line], [], true⟩
  else ⟨s.lines, s.line ++ [b], false⟩

def scan (bytes : Bytes) : Scan := bytes.foldl Scan.next ⟨[], [], false⟩

/-- Every line, the last one also when it does not end. -/
def readLines (bytes : Bytes) : List Bytes :=
  let s := scan bytes
  if s.line = [] then s.lines else s.lines ++ [s.line]

def endsLine (bytes : Bytes) : Bool :=
  match bytes.getLast? with
  | none => true
  | some b => b == lf || b == cr

def Plain (text : Bytes) : Prop := ∀ b ∈ text, b ≠ lf ∧ b ≠ cr

theorem scan_append (bytes more : Bytes) : scan (bytes ++ more) = more.foldl Scan.next (scan bytes) :=
  List.foldl_append

theorem foldl_plain {text : Bytes} (h : Plain text) (hne : text ≠ []) (s : Scan) :
    text.foldl Scan.next s = ⟨s.lines, s.line ++ text, false⟩ := by
  induction text generalizing s with
  | nil => exact absurd rfl hne
  | cons b text ih =>
    obtain ⟨hlf, hcr⟩ := h b List.mem_cons_self
    have hnext : s.next b = ⟨s.lines, s.line ++ [b], false⟩ := by
      rw [Scan.next, if_neg hlf, if_neg hcr]
    rw [List.foldl_cons, hnext]
    by_cases hempty : text = []
    · rw [hempty]
      rfl
    · rw [ih (fun b hb => h b (List.mem_cons_of_mem _ hb)) hempty, List.append_assoc]
      rfl

/-! ## Records -/

/-- ASCII white space. -/
def isSpace (b : UInt8) : Bool := b == 32 || (9 ≤ b && b ≤ 13)

/-- How a record is written on a line and read back. -/
structure LineCodec (α : Type) where
  encode : α → Bytes
  decode : Bytes → Option α
  visible : ∀ a, (encode a).all isSpace = false
  plain : ∀ a, Plain (encode a)
  decode_encode : ∀ a, decode (encode a) = some a

/-- The beginning of the text of one of these records. -/
def IsPiece {α : Type} (encode : α → Bytes) (begun : Set α) (p : Bytes) : Prop :=
  p ≠ [] ∧ ∃ a ∈ begun, p <+: encode a

/-- A codec that reads nothing but whole records out of pieces. -/
structure RecordCodec (α : Type) extends LineCodec α where
  decode_pieces : ∀ ps : List Bytes, (∀ p ∈ ps, IsPiece encode Set.univ p) →
    ∀ a, decode ps.flatten = some a → ps = [encode a]
  prefix_free : ∀ a b, encode a <+: encode b → a = b

section

variable {α : Type} (codec : LineCodec α) (begun : Set α)

theorem IsPiece.plain {codec : LineCodec α} {begun : Set α} {p : Bytes}
    (h : IsPiece codec.encode begun p) : Plain p := by
  obtain ⟨-, a, -, ha⟩ := h
  exact fun b hb => codec.plain a b (ha.subset hb)

theorem IsPiece.mono {encode : α → Bytes} {begun more : Set α} {p : Bytes}
    (h : IsPiece encode begun p) (hmore : begun ⊆ more) : IsPiece encode more p := by
  obtain ⟨hne, a, ha, hprefixed⟩ := h
  exact ⟨hne, a, hmore ha, hprefixed⟩

theorem encode_ne_nil (a : α) : codec.encode a ≠ [] := by
  intro hnil
  have hvisible := codec.visible a
  rw [hnil] at hvisible
  cases hvisible

theorem isPiece_encode {begun : Set α} {a : α} (h : a ∈ begun) : IsPiece codec.encode begun (codec.encode a) :=
  ⟨encode_ne_nil codec a, a, h, List.prefix_rfl⟩

/-- The file is made of these lines and this unfinished one, all of `begun` records. -/
structure Layout (lines : List (List Bytes)) (tail : List Bytes) (bytes : Bytes) : Prop where
  pieces : ∀ ps ∈ lines ++ [tail], ∀ p ∈ ps, IsPiece codec.encode begun p
  scan : ∃ r, scan bytes = ⟨lines.map List.flatten, tail.flatten, r⟩ ∧ (tail ≠ [] → r = false)
  ends : tail = [] ↔ endsLine bytes = true

variable {codec begun} {lines : List (List Bytes)} {tail : List Bytes} {bytes : Bytes}

theorem flatten_ne_nil {ps : List Bytes} (h : ∀ p ∈ ps, IsPiece codec.encode begun p)
    (hne : ps ≠ []) : ps.flatten ≠ [] := by
  obtain ⟨p, rest, rfl⟩ := List.exists_cons_of_ne_nil hne
  rw [List.flatten_cons]
  exact fun hnil => (h p List.mem_cons_self).1 (List.append_eq_nil_iff.mp hnil).1

theorem layout_nil : Layout codec begun [] [] [] :=
  ⟨by simp, ⟨false, rfl, fun _ => rfl⟩, iff_of_true rfl rfl⟩

theorem Layout.tail_pieces (h : Layout codec begun lines tail bytes) :
    ∀ p ∈ tail, IsPiece codec.encode begun p :=
  h.pieces tail (by simp)

theorem Layout.mono (h : Layout codec begun lines tail bytes) {more : Set α}
    (hmore : begun ⊆ more) : Layout codec more lines tail bytes :=
  ⟨fun ps hps p hp => (h.pieces ps hps p hp).mono hmore, h.scan, h.ends⟩

theorem endsLine_append {text : Bytes} (hne : text ≠ []) (hplain : Plain text) :
    endsLine (bytes ++ text) = false := by
  have hlast := List.getLast_mem hne
  obtain ⟨hlf, hcr⟩ := hplain _ hlast
  rw [endsLine, List.getLast?_append_of_ne_nil _ hne, List.getLast?_eq_getLast_of_ne_nil hne]
  simp [hlf, hcr]

/-- The next piece goes behind the unfinished line. -/
theorem Layout.piece (h : Layout codec begun lines tail bytes) {p : Bytes}
    (hp : IsPiece codec.encode begun p) :
    Layout codec begun lines (tail ++ [p]) (bytes ++ p) := by
  obtain ⟨r, hscan, -⟩ := h.scan
  refine ⟨?_, ⟨false, ?_, fun _ => rfl⟩, ?_⟩
  · intro ps hps q hq
    rcases List.mem_append.mp hps with hps | hps
    · exact h.pieces ps (List.mem_append_left _ hps) q hq
    · rw [List.mem_singleton] at hps
      rw [hps] at hq
      rcases List.mem_append.mp hq with hq | hq
      · exact h.tail_pieces q hq
      · rw [List.mem_singleton] at hq
        exact hq ▸ hp
  · rw [scan_append, hscan, foldl_plain hp.plain hp.1, List.flatten_append]
    simp
  · refine iff_of_false (by simp) ?_
    rw [endsLine_append hp.1 hp.plain]
    simp

/-- The ways to end a line. -/
inductive IsNewline : Bytes → Prop where
  | feed : IsNewline [lf]
  | both : IsNewline [cr, lf]
  | carriage : IsNewline [cr]

theorem Layout.newline (h : Layout codec begun lines tail bytes) (hne : tail ≠ []) {nl : Bytes}
    (hnl : IsNewline nl) : Layout codec begun (lines ++ [tail]) [] (bytes ++ nl) := by
  obtain ⟨r, hscan, hr⟩ := h.scan
  rw [hr hne] at hscan
  have hends : ∀ b, b = lf ∨ b = cr → ∀ front : Bytes, endsLine (front ++ [b]) = true := by
    intro b hb front
    rw [endsLine, List.getLast?_concat]
    rcases hb with rfl | rfl <;> rfl
  refine ⟨?_, ?_, iff_of_true rfl ?_⟩
  · intro ps hps
    rcases List.mem_append.mp hps with hps | hps
    · exact h.pieces ps hps
    · rw [List.mem_singleton] at hps
      rw [hps]
      nofun
  · rw [scan_append, hscan, List.map_append]
    cases hnl with
    | feed => exact ⟨false, rfl, fun _ => rfl⟩
    | both => exact ⟨false, rfl, fun _ => rfl⟩
    | carriage => exact ⟨true, rfl, fun h => absurd rfl h⟩
  · cases hnl with
    | feed => exact hends lf (Or.inl rfl) bytes
    | both =>
      have hsplit : bytes ++ [cr, lf] = (bytes ++ [cr]) ++ [lf] := by simp
      rw [hsplit]
      exact hends lf (Or.inl rfl) _
    | carriage => exact hends cr (Or.inr rfl) bytes

def lineBreak (crlf : Bool) : Bytes := if crlf then [cr, lf] else [lf]

theorem take_lineBreak (crlf : Bool) {n : Nat} (h : 0 < n) : IsNewline ((lineBreak crlf).take n) := by
  obtain ⟨n, rfl⟩ := Nat.exists_eq_succ_of_ne_zero h.ne'
  cases crlf with
  | false => simpa [lineBreak] using IsNewline.feed
  | true =>
    cases n with
    | zero => exact .carriage
    | succ n => simpa [lineBreak] using IsNewline.both

variable (codec) in
def recordLine (crlf : Bool) (a : α) : Bytes := codec.encode a ++ lineBreak crlf

/-- **A write that is cut short** leaves the lines there are; a whole one ends the line it is on. -/
theorem Layout.write (h : Layout codec begun lines tail bytes) {a : α} (ha : a ∈ begun)
    (crlf : Bool) (n : Nat) :
    ∃ lines' tail', Layout codec begun lines' tail' (bytes ++ (recordLine codec crlf a).take n) ∧ lines <+: lines'
      ∧ ((recordLine codec crlf a).length ≤ n → lines' = lines ++ [tail ++ [codec.encode a]] ∧ tail' = []) := by
  have hlonger : 0 < (lineBreak crlf).length := by cases crlf <;> decide
  have hlength : (recordLine codec crlf a).length
      = (codec.encode a).length + (lineBreak crlf).length := List.length_append
  by_cases hnone : n = 0
  · refine ⟨lines, tail, ?_, List.prefix_rfl, fun hn => by omega⟩
    rw [hnone, List.take_zero, List.append_nil]
    exact h
  · by_cases hinside : n ≤ (codec.encode a).length
    · have hpiece : IsPiece codec.encode begun ((codec.encode a).take n) := by
        refine ⟨?_, a, ha, List.take_prefix _ _⟩
        rw [Ne, List.take_eq_nil_iff, not_or]
        exact ⟨hnone, encode_ne_nil codec a⟩
      refine ⟨lines, tail ++ [(codec.encode a).take n], ?_, List.prefix_rfl, fun hn => by omega⟩
      rw [recordLine, List.take_append_of_le_length hinside]
      exact h.piece hpiece
    · have hended := (h.piece (isPiece_encode codec ha)).newline (by simp)
        (take_lineBreak crlf (n := n - (codec.encode a).length) (by omega))
      refine ⟨lines ++ [tail ++ [codec.encode a]], [], ?_, List.prefix_append _ _, fun _ => ⟨rfl, rfl⟩⟩
      rw [recordLine, List.take_append, List.take_of_length_le (by omega), ← List.append_assoc]
      exact hended

theorem Layout.writes (h : Layout codec begun lines tail bytes) {records : List α}
    (hrecords : ∀ a ∈ records, a ∈ begun) (crlf : Bool) (n : Nat) :
    ∃ lines' tail', Layout codec begun lines' tail'
        (bytes ++ (records.flatMap (recordLine codec crlf)).take n)
      ∧ lines <+: lines' := by
  induction records generalizing lines tail bytes n with
  | nil => exact ⟨lines, tail, by simpa using h, List.prefix_rfl⟩
  | cons a records ih =>
    rw [List.flatMap_cons]
    by_cases hcut : n ≤ (recordLine codec crlf a).length
    · obtain ⟨lines', tail', hlayout, hprefixed, -⟩ := h.write (hrecords a List.mem_cons_self) crlf n
      rw [List.take_append_of_le_length hcut]
      exact ⟨lines', tail', hlayout, hprefixed⟩
    · obtain ⟨lines', tail', hlayout, hprefixed, -⟩ := h.write (hrecords a List.mem_cons_self) crlf n
      rw [List.take_of_length_le (by omega)] at hlayout
      obtain ⟨last, tail'', hlast, hmore⟩ := ih hlayout
        (fun b hb => hrecords b (List.mem_cons_of_mem _ hb)) (n - (recordLine codec crlf a).length)
      refine ⟨last, tail'', ?_, hprefixed.trans hmore⟩
      rw [List.take_append, List.take_of_length_le (by omega), ← List.append_assoc]
      exact hlast

theorem Layout.readLines (h : Layout codec begun lines tail bytes) :
    readLines bytes = (lines ++ if tail = [] then [] else [tail]).map List.flatten := by
  obtain ⟨r, hscan, -⟩ := h.scan
  rw [RecordLines.readLines, hscan]
  by_cases htail : tail = []
  · simp [htail]
  · rw [if_neg htail, if_neg (flatten_ne_nil h.tail_pieces htail), List.map_append]
    rfl

/-! ## Records that are read -/

/-- What a reader makes of the file that skips the lines it cannot read. -/
def readable (codec : LineCodec α) (bytes : Bytes) : List α :=
  (RecordLines.readLines bytes).filterMap codec.decode

/-- A line that is one whole record is read. -/
theorem Layout.mem_readable (h : Layout codec begun lines tail bytes) {a : α}
    (ha : [codec.encode a] ∈ lines) : a ∈ readable codec bytes := by
  rw [readable, h.readLines, List.mem_filterMap]
  refine ⟨codec.encode a, ?_, codec.decode_encode a⟩
  exact List.mem_map.mpr ⟨_, List.mem_append_left _ ha, List.flatten_singleton⟩

theorem Layout.begun_of_readable {codec : RecordCodec α}
    (h : Layout codec.toLineCodec begun lines tail bytes) {a : α}
    (ha : a ∈ readable codec.toLineCodec bytes) : a ∈ begun := by
  rw [readable, h.readLines, List.mem_filterMap] at ha
  obtain ⟨line, hline, hdecode⟩ := ha
  obtain ⟨ps, hps, rfl⟩ := List.mem_map.mp hline
  have hin : ps ∈ lines ++ [tail] := by
    rcases List.mem_append.mp hps with hps | hps
    · exact List.mem_append_left _ hps
    · split_ifs at hps
      · cases hps
      · exact List.mem_append_right _ hps
  have hpieces := h.pieces ps hin
  have hwhole := codec.decode_pieces ps
    (fun p hp => (hpieces p hp).mono (Set.subset_univ _)) a hdecode
  obtain ⟨-, b, hb, hprefixed⟩ := hpieces (codec.encode a) (hwhole ▸ List.mem_singleton_self _)
  exact codec.prefix_free a b hprefixed ▸ hb

/-! ## Whole records -/

variable (codec) in
/-- The file of these records, each with its line feed. -/
def render (records : List α) : Bytes := records.flatMap (fun a => codec.encode a ++ [lf])

theorem render_append (records more : List α) :
    render codec (records ++ more) = render codec records ++ render codec more :=
  List.flatMap_append

theorem render_concat (records : List α) (a : α) :
    render codec (records ++ [a]) = render codec records ++ codec.encode a ++ [lf] := by
  rw [render_append]
  simp [render]

theorem layout_render (records : List α) :
    Layout codec Set.univ (records.map (fun a => [codec.encode a])) [] (render codec records) := by
  induction records using List.reverseRecOn with
  | nil => exact layout_nil
  | append_singleton records a ih =>
    rw [render_concat, List.map_append]
    exact (ih.piece (isPiece_encode codec (Set.mem_univ a))).newline (List.cons_ne_nil _ _) .feed

theorem map_flatten_singleton (records : List α) :
    (records.map (fun a => [codec.encode a])).map List.flatten = records.map codec.encode := by
  rw [List.map_map]
  exact List.map_congr_left fun a _ => List.flatten_singleton

theorem readLines_render (records : List α) :
    RecordLines.readLines (render codec records) = records.map codec.encode := by
  rw [(layout_render records).readLines, if_pos rfl, List.append_nil, map_flatten_singleton]

/-- The last line feed is not needed. -/
theorem readLines_render_open (records : List α) (a : α) :
    RecordLines.readLines (render codec records ++ codec.encode a) = (records ++ [a]).map codec.encode := by
  rw [((layout_render records).piece (isPiece_encode codec (Set.mem_univ a))).readLines, List.nil_append,
    if_neg (List.cons_ne_nil _ _), List.map_append, map_flatten_singleton, List.map_append]
  simp

/-! ## Up to the last line feed -/

/-- The bytes up to and with their last line feed. -/
def wholeLines (bytes : Bytes) : Bytes := bytes.rdropWhile (fun b => b != lf)

def endsFeed (bytes : Bytes) : Bool :=
  match bytes.getLast? with
  | none => true
  | some b => b == lf

def feedLines (bytes : Bytes) : List Bytes := (bytes.splitOn lf).filter (fun line => !line.isEmpty)

theorem render_cons (a : α) (records : List α) :
    render codec (a :: records) = codec.encode a ++ lf :: render codec records := by
  unfold render
  rw [List.flatMap_cons, List.append_assoc, List.singleton_append]

theorem lf_notMem_encode (a : α) : lf ∉ codec.encode a := fun h => (codec.plain a lf h).1 rfl

theorem endsFeed_render (records : List α) : endsFeed (render codec records) = true := by
  induction records using List.reverseRecOn with
  | nil => rfl
  | append_singleton records a ih =>
    rw [render_concat, endsFeed, List.getLast?_concat]
    rfl

theorem endsFeed_append {rest : Bytes} (hne : rest ≠ []) (hrest : lf ∉ rest) :
    endsFeed (bytes ++ rest) = false := by
  have hlast : rest.getLast hne ≠ lf := fun h => hrest (h ▸ List.getLast_mem hne)
  rw [endsFeed, List.getLast?_append_of_ne_nil _ hne, List.getLast?_eq_getLast_of_ne_nil hne]
  simpa using hlast

/-- What follows the last line feed is dropped. -/
theorem wholeLines_append {rest : Bytes} (h : endsFeed bytes = true) (hrest : lf ∉ rest) :
    wholeLines (bytes ++ rest) = bytes := by
  unfold wholeLines
  induction rest using List.reverseRecOn with
  | nil =>
    rw [List.append_nil]
    rcases List.eq_nil_or_concat bytes with rfl | ⟨front, b, rfl⟩
    · rfl
    · rw [List.concat_eq_append] at h ⊢
      rw [endsFeed, List.getLast?_concat] at h
      exact List.rdropWhile_concat_neg _ _ _ (by simpa using h)
  | append_singleton rest b ih =>
    rw [List.mem_append, not_or] at hrest
    have hb : (b != lf) = true := by
      have hne : lf ≠ b := by simpa using hrest.2
      simpa using hne.symm
    rw [← List.append_assoc, List.rdropWhile_concat, if_pos hb]
    exact ih hrest.1

theorem feedLines_render (records : List α) : feedLines (render codec records) = records.map codec.encode := by
  induction records with
  | nil => rfl
  | cons a records ih =>
    have hline : ∀ b ∈ codec.encode a, (b == lf) = false := by
      intro b hb
      simpa using (codec.plain a b hb).1
    have hsplit := List.splitOnP_append_cons_of_forall_mem hline lf (by simp) (render codec records)
    have hnotempty : (!(codec.encode a).isEmpty) = true := by
      simpa using encode_ne_nil codec a
    unfold feedLines List.splitOn at ih ⊢
    rw [render_cons, hsplit, List.filter_cons, if_pos hnotempty, ih, List.map_cons]

theorem take_render (records : List α) (n : Nat) : ∃ k rest,
    (render codec records).take n = render codec (records.take k) ++ rest ∧ lf ∉ rest := by
  induction records generalizing n with
  | nil => exact ⟨0, [], by simp [render], List.not_mem_nil⟩
  | cons a records ih =>
    rw [render_cons]
    by_cases hn : n ≤ (codec.encode a).length
    · refine ⟨0, (codec.encode a).take n, ?_, fun h => ?_⟩
      · rw [List.take_append_of_le_length hn]
        rfl
      · exact lf_notMem_encode a (List.mem_of_mem_take h)
    · obtain ⟨k, rest, htake, hrest⟩ := ih (n - (codec.encode a).length - 1)
      obtain ⟨m, hm⟩ : ∃ m, n - (codec.encode a).length = m + 1 := ⟨n - (codec.encode a).length - 1, by omega⟩
      rw [hm, Nat.add_sub_cancel] at htake
      refine ⟨k + 1, rest, ?_, hrest⟩
      rw [List.take_append, List.take_of_length_le (by omega), hm, List.take_succ_cons, htake,
        List.take_succ_cons, render_cons, List.append_assoc, List.cons_append]

end

end Ai00.RecordLines
