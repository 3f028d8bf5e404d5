import Ai00.Connector.CanonicalJson

/-! # The two canonical JSON texts agree

Whatever one of `canonicalize_v2` and `CanonicalJsonV2.Serialize` accepts, the other accepts too,
and the bytes are the same (`canonicalizeV2_eq_serialize`). A text the runtime writes is paired,
and its code points are the text the server writes: for a string by induction on its pairs, for
a number because both texts are `numberText` of the same digits, and for an object because its
members are put in the same order.
-/

namespace Ai00.Connector

/-! ## Paired texts -/

theorem points_ascii {c : Char} (h : c.toNat < 128) : ¬ IsSurrogate (c.toNat.toUInt16).toNat
    ∧ (c.toNat.toUInt16).toNat = c.toNat := by
  have hsame : (c.toNat.toUInt16).toNat = c.toNat := by
    rw [Nat.toUInt16, UInt16.toNat_ofNat']
    omega
  refine ⟨fun hs => ?_, hsame⟩
  rw [hsame] at hs
  exact absurd hs.1 (by omega)

theorem paired_units {s : Str} (h : ∀ c ∈ s, c.toNat < 128) :
    Paired (units s) ∧ codePoints (units s) = points s := by
  induction s with
  | nil => exact ⟨.nil, rfl⟩
  | cons c s ih =>
    obtain ⟨hc, hs⟩ := List.forall_mem_cons.mp h
    obtain ⟨hplain, hsame⟩ := points_ascii hc
    obtain ⟨hpaired, hcodes⟩ := ih hs
    refine ⟨.unit hplain hpaired, ?_⟩
    show codePoints (c.toNat.toUInt16 :: units s) = c.toNat :: points s
    rw [codePoints_unit hplain, hcodes, hsame]

variable {texts : List Units}

theorem paired_intercalate {comma : Units} (hcomma : Paired comma)
    (h : ∀ text ∈ texts, Paired text) :
    Paired (comma.intercalate texts) ∧ codePoints (comma.intercalate texts)
        = (codePoints comma).intercalate (texts.map codePoints) := by
  induction texts with
  | nil => exact ⟨.nil, rfl⟩
  | cons text texts ih =>
    obtain ⟨htext, htexts⟩ := List.forall_mem_cons.mp h
    obtain ⟨hpaired, hcodes⟩ := ih htexts
    cases texts with
    | nil => simpa [List.intercalate] using htext
    | cons next texts =>
      rw [List.intercalate_cons_cons, List.map_cons, List.map_cons,
        List.intercalate_cons_cons, ← List.map_cons, ← hcodes]
      refine ⟨(htext.append hcomma).append hpaired, ?_⟩
      rw [(htext.append hcomma).codePoints_append, htext.codePoints_append]

theorem paired_bracketed {comma opening closing : Units} (hcomma : Paired comma)
    (hopening : Paired opening) (hclosing : Paired closing)
    (h : ∀ text ∈ texts, Paired text) :
    Paired (bracketed comma opening closing texts) ∧ codePoints (bracketed comma opening closing texts)
        = bracketed (codePoints comma) (codePoints opening) (codePoints closing)
          (texts.map codePoints) := by
  obtain ⟨hpaired, hcodes⟩ := paired_intercalate hcomma h
  refine ⟨(hopening.append hpaired).append hclosing, ?_⟩
  rw [bracketed, (hopening.append hpaired).codePoints_append, hopening.codePoints_append, hcodes, bracketed]

/-! ## Strings -/

theorem validateUnicode_unit {u : UInt16} (h : ¬ isHighSurrogate u = true) (rest : Units) :
    validateUnicode (u :: rest)
      = if isLowSurrogate u then .error "json_surrogate_forbidden" else validateUnicode rest := by
  cases rest <;> simp [validateUnicode, h]

theorem validateUnicode_iff (s : Units) : validateUnicode s = .ok () ↔ Paired s := by
  constructor
  · induction s using validateUnicode.induct with
    | case1 => exact fun _ => .nil
    | case2 u hhigh => simp [validateUnicode, hhigh]
    | case3 u hhigh v rest hlow ih =>
      intro h
      rw [validateUnicode, if_pos hhigh, if_pos hlow] at h
      exact .pair hhigh hlow (ih h)
    | case4 u hhigh v rest hlow => simp [validateUnicode, hhigh, hlow]
    | case5 u rest hhigh hlow => simp [validateUnicode_unit hhigh, hlow]
    | case6 u rest hhigh hlow ih =>
      intro h
      rw [validateUnicode_unit hhigh, if_neg hlow] at h
      refine .unit ?_ (ih h)
      rintro ⟨hlo, hhi⟩
      rcases Nat.lt_or_ge u.toNat 0xDC00 with hlt | hge
      · exact hhigh (isHighSurrogate_iff.mpr ⟨hlo, by omega⟩)
      · exact hlow (isLowSurrogate_iff.mpr ⟨hge, hhi⟩)
  · intro h
    induction h with
    | nil => rw [validateUnicode]
    | unit plain _ ih =>
      have hlow : isLowSurrogate _ ≠ true := fun hlow =>
        plain ⟨le_trans (by decide) (isLowSurrogate_iff.mp hlow).1,
          (isLowSurrogate_iff.mp hlow).2⟩
      rw [validateUnicode_unit (by simp [not_isHighSurrogate plain]), if_neg hlow, ih]
    | pair high low _ ih => rw [validateUnicode, if_pos high, if_pos low, ih]

theorem validateString_iff (s : Units) : validateString (codePoints s) = .ok () ↔ Paired s := by
  rw [paired_iff, validateString]
  by_cases h : ∃ c ∈ codePoints s, IsSurrogate c
  · rw [if_pos h]
    obtain ⟨c, hc, hs⟩ := h
    exact iff_of_false nofun fun hall => hall c hc hs
  · rw [if_neg h]
    exact iff_of_true rfl fun c hc hs => h ⟨c, hc, hs⟩

theorem escapeUnit_plain {u : UInt16} (h : ¬ IsSurrogate u.toNat) :
    Paired (escapeUnit u) ∧ codePoints (escapeUnit u) = escapePoint u.toNat := by
  have hhex : ∀ n, n < 16 → (Nat.digitChar n).toNat < 128 := by decide
  by_cases h34 : u.toNat = 34
  · rw [escapeUnit, if_pos h34, h34]
    exact paired_units (by simp)
  by_cases h92 : u.toNat = 92
  · rw [escapeUnit, if_neg h34, if_pos h92, h92]
    exact paired_units (by simp)
  by_cases h8 : u.toNat = 8
  · rw [escapeUnit, if_neg h34, if_neg h92, if_pos h8, h8]
    exact paired_units (by simp)
  by_cases h9 : u.toNat = 9
  · rw [escapeUnit, if_neg h34, if_neg h92, if_neg h8, if_pos h9, h9]
    exact paired_units (by simp)
  by_cases h10 : u.toNat = 10
  · rw [escapeUnit, if_neg h34, if_neg h92, if_neg h8, if_neg h9, if_pos h10, h10]
    exact paired_units (by simp)
  by_cases h12 : u.toNat = 12
  · rw [escapeUnit, if_neg h34, if_neg h92, if_neg h8, if_neg h9, if_neg h10, if_pos h12, h12]
    exact paired_units (by simp)
  by_cases h13 : u.toNat = 13
  · rw [escapeUnit, if_neg h34, if_neg h92, if_neg h8, if_neg h9, if_neg h10, if_neg h12, if_pos h13, h13]
    exact paired_units (by simp)
  rw [escapeUnit, if_neg h34, if_neg h92, if_neg h8, if_neg h9, if_neg h10, if_neg h12, if_neg h13,
    escapePoint, if_neg h92, if_neg h34, if_neg h8, if_neg h12, if_neg h10, if_neg h13, if_neg h9]
  by_cases h32 : u.toNat < 32
  · rw [if_pos h32, if_pos h32]
    refine paired_units ?_
    have hfirst := hhex (u.toNat / 16) (by omega)
    have hsecond := hhex (u.toNat % 16) (by omega)
    simp [hfirst, hsecond]
  · rw [if_neg h32, if_neg h32]
    exact ⟨.unit h .nil, codePoints_unit h []⟩

theorem escapeUnit_surrogate {u : UInt16} (h : 0xD800 ≤ u.toNat) : escapeUnit u = [u] := by
  rw [escapeUnit, if_neg (by omega), if_neg (by omega), if_neg (by omega), if_neg (by omega),
    if_neg (by omega), if_neg (by omega), if_neg (by omega), if_neg (by omega)]

theorem escapePoint_large {c : Nat} (h : 0x10000 ≤ c) : escapePoint c = [c] := by
  rw [escapePoint, if_neg (by omega), if_neg (by omega), if_neg (by omega), if_neg (by omega),
    if_neg (by omega), if_neg (by omega), if_neg (by omega), if_neg (by omega)]

theorem paired_escape {s : Units} (h : Paired s) : Paired (s.flatMap escapeUnit)
    ∧ codePoints (s.flatMap escapeUnit) = (codePoints s).flatMap escapePoint := by
  induction h with
  | nil => exact ⟨.nil, rfl⟩
  | unit plain _ ih =>
    obtain ⟨hunit, hcode⟩ := escapeUnit_plain plain
    rw [List.flatMap_cons, codePoints_unit plain, List.flatMap_cons]
    exact ⟨hunit.append ih.1, by rw [hunit.codePoints_append, hcode, ih.2]⟩
  | @pair u v rest high low _ ih =>
    have hu := (isHighSurrogate_iff.mp high).1
    have hv : 0xD800 ≤ v.toNat := le_trans (by decide) (isLowSurrogate_iff.mp low).1
    have hlarge : 0x10000 ≤ joinPair u v := by
      unfold joinPair
      omega
    rw [List.flatMap_cons, List.flatMap_cons, escapeUnit_surrogate hu, escapeUnit_surrogate hv,
      codePoints_pair high low, List.flatMap_cons, escapePoint_large hlarge]
    refine ⟨.pair high low ih.1, ?_⟩
    show codePoints (u :: v :: rest.flatMap escapeUnit) = _
    rw [codePoints_pair high low, ih.2]
    rfl

/-- A string the runtime accepts is written alike. -/
theorem writeString_of_paired {s : Units} (h : Paired s) : ∃ text, writeString s = .ok text
    ∧ Paired text ∧ codePoints text = dumpString (codePoints s) := by
  obtain ⟨hquote, hquoteCode⟩ := @paired_units ['"'] (by simp)
  obtain ⟨hbody, hbodyCode⟩ := paired_escape h
  refine ⟨units ['"'] ++ s.flatMap escapeUnit ++ units ['"'], ?_, ?_, ?_⟩
  · rw [writeString, (validateUnicode_iff s).mpr h]
    rfl
  · exact (hquote.append hbody).append hquote
  · rw [(hquote.append hbody).codePoints_append, hquote.codePoints_append, hquoteCode, hbodyCode, dumpString]

theorem paired_of_writeString {s text : Units} (h : writeString s = .ok text) : Paired s := by
  rw [← validateUnicode_iff]
  cases hcheck : validateUnicode s with
  | error e =>
    rw [writeString, hcheck] at h
    cases h
  | ok u => rfl

/-! ## Numbers -/

theorem ascii_of_isDigit {c : Char} (h : c.isDigit = true) : c.toNat < 128 := by
  have hrange : 48 ≤ c.toNat ∧ c.toNat ≤ 57 := by
    simpa [Char.isDigit, UInt32.le_iff_toNat_le] using h
  omega

theorem ascii_intText (n : Int) : ∀ c ∈ Json.intText n, c.toNat < 128 := by
  have hdigits : ∀ k : Nat, ∀ c ∈ Nat.toDigits 10 k, c.toNat < 128 := fun k c hc =>
    ascii_of_isDigit (Nat.isDigit_of_mem_toDigits (by decide) (by decide) hc)
  cases n with
  | ofNat k => exact hdigits k
  | negSucc k => exact List.forall_mem_cons.mpr ⟨by simp, hdigits (k + 1)⟩

theorem ascii_append {s t : Str} (hs : ∀ c ∈ s, c.toNat < 128) (ht : ∀ c ∈ t, c.toNat < 128) :
    ∀ c ∈ s ++ t, c.toNat < 128 := fun c hc => (List.mem_append.mp hc).elim (hs c) (ht c)

theorem ascii_numberText {digits : Str} (h : ∀ c ∈ digits, c.isDigit = true) (position : Int) :
    ∀ c ∈ numberText digits position, c.toNat < 128 := by
  have hdigits : ∀ c ∈ digits, c.toNat < 128 := fun c hc => ascii_of_isDigit (h c hc)
  have hzeros : ∀ n, ∀ c ∈ List.replicate n '0', c.toNat < 128 := fun n c hc => by
    rw [List.eq_of_mem_replicate hc]
    simp
  have htake : ∀ n, ∀ c ∈ digits.take n, c.toNat < 128 := fun n c hc =>
    hdigits c (List.mem_of_mem_take hc)
  have hpoint : ∀ n, ∀ c ∈ '.' :: digits.drop n, c.toNat < 128 := fun n =>
    List.forall_mem_cons.mpr ⟨by simp, fun c hc => hdigits c (List.mem_of_mem_drop hc)⟩
  rw [numberText]
  by_cases hfixed : 0 < position ∧ position ≤ 21
  · rw [if_pos hfixed]
    by_cases hwhole : (digits.length : Int) ≤ position
    · rw [if_pos hwhole]
      exact ascii_append hdigits (hzeros _)
    · rw [if_neg hwhole]
      exact ascii_append (htake _) (hpoint _)
  rw [if_neg hfixed]
  by_cases hsmall : -6 < position ∧ position ≤ 0
  · rw [if_pos hsmall]
    exact ascii_append (ascii_append (by simp) (hzeros _)) hdigits
  · rw [if_neg hsmall]
    have hfraction : ∀ c ∈ (if 1 < digits.length then '.' :: digits.drop 1 else []),
        c.toNat < 128 := by
      by_cases hone : 1 < digits.length
      · rw [if_pos hone]
        exact hpoint 1
      · rw [if_neg hone]
        exact fun c hc => absurd hc List.not_mem_nil
    have hmark : ∀ c ∈ 'e' :: (if 0 ≤ position - 1 then ['+'] else []), c.toNat < 128 := by
      by_cases hexp : 0 ≤ position - 1
      · rw [if_pos hexp]
        simp
      · rw [if_neg hexp]
        simp
    exact ascii_append (ascii_append (ascii_append (htake 1) hfraction) hmark) (ascii_intText _)

section

variable (format : DecimalFormat) (exponential : Str → Int → Bool)

theorem canonicalFloat_eq_writeDouble (x : Binary64) :
    canonicalFloat format x = .ok (writeDouble format exponential x) := by
  by_cases hx : x.mant = 0
  · rw [canonicalFloat, writeDouble, if_pos hx, if_pos hx]
  · rw [canonicalFloat_eq format hx, writeDouble_eq format exponential hx]

theorem ascii_writeDouble (x : Binary64) :
    ∀ c ∈ writeDouble format exponential x, c.toNat < 128 := by
  by_cases hx : x.mant = 0
  · rw [writeDouble, if_pos hx]
    simp
  · rw [writeDouble_eq format exponential hx, signedText]
    intro c hc
    rcases List.mem_append.mp hc with hc | hc
    · cases hneg : x.neg with
      | true =>
        rw [if_pos hneg] at hc
        rw [List.mem_singleton.mp hc]
        simp
      | false =>
        rw [hneg] at hc
        exact absurd hc List.not_mem_nil
    · exact ascii_numberText (format.shortest x.abs rfl hx).isDigit _ c hc

/-- A whole number the server accepts is written alike. -/
theorem writeInt_of_valid {n : Int} (h : validateInt format n = .ok ()) :
    ∃ text, writeInt format exponential n = .ok text ∧ Paired text
      ∧ canonicalInt format n = .ok (codePoints text) := by
  have hspelled := fun x => paired_units (ascii_writeDouble format exponential x)
  by_cases hsafe : IsSafe n
  · have hsmall : n.natAbs < 2 ^ 53 := by
      obtain ⟨hlo, hhi⟩ := hsafe
      unfold safeIntegerMax at hlo hhi
      omega
    obtain ⟨x₀, hx₀⟩ := exists_binary64_int (le_of_lt hsmall)
    obtain ⟨x, hx, hvalue⟩ := format.ofInt_exact n x₀ hx₀
    refine ⟨_, ?_, (hspelled x).1, ?_⟩
    · rw [writeInt, hx]
      exact if_pos hvalue
    · rw [canonicalInt, if_pos hsafe, (hspelled x).2, writeDouble_int format exponential hvalue hsmall]
  · rw [validateInt, if_neg hsafe] at h
    cases hx : format.ofInt n with
    | none =>
      rw [hx] at h
      cases h
    | some x =>
      rw [hx] at h
      by_cases hvalue : x.toRat = n
      · refine ⟨_, ?_, (hspelled x).1, ?_⟩
        · rw [writeInt, hx]
          exact if_pos hvalue
        · rw [canonicalInt, if_neg hsafe, hx]
          show (canonicalFloat format x).map points = _
          rw [canonicalFloat_eq_writeDouble format exponential, (hspelled x).2]
          rfl
      · simp only [if_neg hvalue] at h
        cases h

/-- A whole number the runtime accepts is valid. -/
theorem valid_of_writeInt {n : Int} {text : Units} (h : writeInt format exponential n = .ok text) :
    validateInt format n = .ok () := by
  rw [validateInt]
  by_cases hsafe : IsSafe n
  · exact if_pos hsafe
  · rw [if_neg hsafe]
    rw [writeInt] at h
    cases hx : format.ofInt n with
    | none =>
      rw [hx] at h
      cases h
    | some x =>
      rw [hx] at h
      by_cases hvalue : x.toRat = n
      · exact if_pos hvalue
      · simp only [if_neg hvalue] at h
        cases h

end

/-! ## Members in order -/

/-- The members of an object come in the same order on both sides. -/
theorem byName_iff {a b : Units × Units} (ha : Paired a.1) (hb : Paired b.1) :
    byName a b ↔ byKey (a.map codePoints codePoints) (b.map codePoints codePoints) := by
  show ¬ Before _ _ ↔ ¬ Before (encodeUtf16 (codePoints b.1)) (encodeUtf16 (codePoints a.1))
  rw [ha.encodeUtf16, hb.encodeUtf16, before_unitBytes_iff]

theorem sorted_entries {entries : List (Units × Units)} (h : ∀ e ∈ entries, Paired e.1) :
    (entries.insertionSort byName).map (Prod.map codePoints codePoints)
      = (entries.map (Prod.map codePoints codePoints)).insertionSort byKey :=
  List.map_insertionSort _ _ _ _ fun a ha b hb => byName_iff (h a ha) (h b hb)

/-! ## Values -/

section

variable (format : DecimalFormat) (exponential : Str → Int → Bool)

/-- At `depth`, the runtime writes what the server writes if the value is valid there. -/
def WrittenAlike (depth : Nat) (v : Wire Units) : Prop :=
  validateJsonDepth depth (v.map codePoints) = .ok () →
    validateJson format (v.map codePoints) = .ok () → v.UniqueNames →
      ∃ text, write format exponential depth v = .ok text ∧ Paired text
        ∧ canonicalText format (v.map codePoints) = .ok (codePoints text)

variable {depth : Nat}

theorem items_writtenAlike {items : List (Wire Units)}
    (hitems : ∀ item ∈ items, WrittenAlike format exponential depth item)
    (hdepth : validateDepthItems depth (Wire.mapItems codePoints items) = .ok ())
    (hvalid : validateItems format (Wire.mapItems codePoints items) = .ok ())
    (hunique : Wire.UniqueItems items) :
    ∃ texts, writeItems format exponential depth items = .ok texts ∧ (∀ t ∈ texts, Paired t)
      ∧ canonicalItems format (Wire.mapItems codePoints items) = .ok (texts.map codePoints) := by
  induction items with
  | nil => exact ⟨[], rfl, fun t ht => absurd ht List.not_mem_nil, rfl⟩
  | cons item rest ih =>
    obtain ⟨hitem, hrest⟩ := List.forall_mem_cons.mp hitems
    obtain ⟨_, hdepth₁, hdepth₂⟩ := bind_eq_ok.mp hdepth
    obtain ⟨_, hvalid₁, hvalid₂⟩ := bind_eq_ok.mp hvalid
    obtain ⟨text, hwrite, hpaired, htext⟩ := hitem hdepth₁ hvalid₁ hunique.1
    obtain ⟨texts, hwrites, hpaireds, htexts⟩ := ih hrest hdepth₂ hvalid₂ hunique.2
    refine ⟨text :: texts, ?_, List.forall_mem_cons.mpr ⟨hpaired, hpaireds⟩, ?_⟩
    · rw [writeItems, hwrite, hwrites]
      rfl
    · rw [Wire.mapItems, canonicalItems, htext, htexts]
      rfl

variable {members : List (Units × Wire Units)}

theorem members_writtenAlike (hmembers : ∀ m ∈ members, WrittenAlike format exponential depth m.2)
    (hdepth : validateDepthMembers depth (Wire.mapMembers codePoints members) = .ok ())
    (hvalid : validateMembers format (Wire.mapMembers codePoints members) = .ok ())
    (hunique : Wire.UniqueMembers members) :
    ∃ entries, writeMembers format exponential depth members = .ok entries
      ∧ (∀ e ∈ entries, Paired e.1 ∧ Paired e.2)
      ∧ entries.map Prod.fst = members.map Prod.fst
      ∧ canonicalMembers format (Wire.mapMembers codePoints members)
        = .ok (entries.map (Prod.map codePoints codePoints)) := by
  induction members with
  | nil => exact ⟨[], rfl, fun e he => absurd he List.not_mem_nil, rfl, rfl⟩
  | cons m rest ih =>
    obtain ⟨name, value⟩ := m
    obtain ⟨hmember, hrest⟩ := List.forall_mem_cons.mp hmembers
    obtain ⟨_, hdepth₁, hdepth₂⟩ := bind_eq_ok.mp hdepth
    obtain ⟨_, hname, hvalid⟩ := bind_eq_ok.mp hvalid
    obtain ⟨_, hvalid₁, hvalid₂⟩ := bind_eq_ok.mp hvalid
    have hpairedName := (validateString_iff name).mp hname
    obtain ⟨nameText, hwriteName, hpairedText, hnameText⟩ := writeString_of_paired hpairedName
    obtain ⟨text, hwrite, hpaired, htext⟩ := hmember hdepth₁ hvalid₁ hunique.1
    obtain ⟨entries, hwrites, hpaireds, hnames, htexts⟩ := ih hrest hdepth₂ hvalid₂ hunique.2
    obtain ⟨hcolon, hcolonCode⟩ := @paired_units [':'] (by simp)
    refine ⟨(name, nameText ++ units [':'] ++ text) :: entries, ?_, ?_, ?_, ?_⟩
    · rw [writeMembers, hwriteName, hwrite, hwrites]
      rfl
    · exact List.forall_mem_cons.mpr ⟨⟨hpairedName, (hpairedText.append hcolon).append hpaired⟩, hpaireds⟩
    · rw [List.map_cons, hnames, List.map_cons]
    · have hentry : codePoints (nameText ++ units [':'] ++ text)
          = dumpString (codePoints name) ++ points [':'] ++ codePoints text := by
        rw [(hpairedText.append hcolon).codePoints_append, hpairedText.codePoints_append, hnameText, hcolonCode]
      rw [Wire.mapMembers, canonicalMembers, htext, htexts, List.map_cons, Prod.map_apply, hentry]
      rfl

theorem ascii_writtenAlike {s : Str} (h : ∀ c ∈ s, c.toNat < 128) :
    ∃ text, (.ok (units s) : Except String Units) = .ok text ∧ Paired text
      ∧ (.ok (points s) : Except PyError Points) = .ok (codePoints text) := by
  obtain ⟨hpaired, hcode⟩ := paired_units h
  exact ⟨_, rfl, hpaired, congrArg Except.ok hcode.symm⟩

/-- **What the server accepts, the runtime writes alike.** -/
theorem writtenAlike (v : Wire Units) (depth : Nat) : WrittenAlike format exponential depth v := by
  induction v using Wire.ind generalizing depth with
  | null => exact fun _ _ _ => @ascii_writtenAlike "null".toList (by simp)
  | bool b =>
    cases b with
    | false => exact fun _ _ _ => @ascii_writtenAlike "false".toList (by simp)
    | true => exact fun _ _ _ => @ascii_writtenAlike "true".toList (by simp)
  | int n => exact fun _ hvalid _ => writeInt_of_valid format exponential hvalid
  | double x =>
    cases x with
    | finite x =>
      intro _ _ _
      rw [Wire.map, canonicalText, canonicalFloat_eq_writeDouble format exponential]
      exact ascii_writtenAlike (ascii_writeDouble format exponential x)
    | inf neg => exact fun _ hvalid _ => nomatch hvalid
    | nan => exact fun _ hvalid _ => nomatch hvalid
  | str s =>
    intro _ hvalid _
    obtain ⟨text, hwrite, hpaired, htext⟩ :=
      writeString_of_paired ((validateString_iff s).mp hvalid)
    exact ⟨text, hwrite, hpaired, congrArg Except.ok htext.symm⟩
  | arr items ih =>
    intro hdepth hvalid hunique
    by_cases hmax : maxJsonDepth ≤ depth
    · rw [Wire.map, validateJsonDepth, if_pos hmax] at hdepth
      cases hdepth
    · rw [Wire.map, validateJsonDepth, if_neg hmax] at hdepth
      obtain ⟨texts, hwrite, hpaired, htexts⟩ := items_writtenAlike format exponential
        (fun item hitem => ih item hitem (depth + 1)) hdepth hvalid hunique
      obtain ⟨hall, hcode⟩ := paired_bracketed (@paired_units [','] (by simp)).1
        (@paired_units ['['] (by simp)).1 (@paired_units [']'] (by simp)).1 hpaired
      refine ⟨_, ?_, hall, ?_⟩
      · rw [write, if_neg (by omega), hwrite]
        rfl
      · rw [Wire.map, canonicalText, htexts, hcode]
        rfl
  | obj members ih =>
    intro hdepth hvalid hunique
    by_cases hmax : maxJsonDepth ≤ depth
    · rw [Wire.map, validateJsonDepth, if_pos hmax] at hdepth
      cases hdepth
    · rw [Wire.map, validateJsonDepth, if_neg hmax] at hdepth
      obtain ⟨entries, hwrite, hpaired, hnames, htexts⟩ := members_writtenAlike format
        exponential (fun m hm => ih m hm (depth + 1)) hdepth hvalid hunique.2
      have hperm := List.perm_insertionSort byName entries
      have hnodup : ((entries.insertionSort byName).map Prod.fst).Nodup := by
        rw [(hperm.map Prod.fst).nodup_iff, hnames]
        exact hunique.1
      have hsortedPaired : ∀ t ∈ (entries.insertionSort byName).map Prod.snd, Paired t := by
        intro t ht
        obtain ⟨e, he, rfl⟩ := List.mem_map.mp ht
        exact (hpaired e (hperm.mem_iff.mp he)).2
      obtain ⟨hall, hcode⟩ := paired_bracketed (@paired_units [','] (by simp)).1
        (@paired_units ['\x7b'] (by simp)).1 (@paired_units ['\x7d'] (by simp)).1 hsortedPaired
      refine ⟨_, ?_, hall, ?_⟩
      · rw [write, if_neg (by omega), hwrite]
        exact if_neg (not_not.mpr hnodup)
      · rw [Wire.map, canonicalText, htexts, hcode, List.map_map]
        show Except.ok (bracketed _ _ _
          (((entries.map (Prod.map codePoints codePoints)).insertionSort byKey).map Prod.snd)) = _
        rw [← sorted_entries fun e he => (hpaired e he).1, List.map_map]
        rfl

/-- At `depth`, what the runtime writes is valid on the server. -/
def ValidIfWritten (depth : Nat) (v : Wire Units) : Prop :=
  ∀ text, write format exponential depth v = .ok text →
    validateJsonDepth depth (v.map codePoints) = .ok ()
      ∧ validateJson format (v.map codePoints) = .ok ()

theorem items_validIfWritten {items : List (Wire Units)}
    (hitems : ∀ item ∈ items, ValidIfWritten format exponential depth item)
    (h : writeItems format exponential depth items = .ok texts) :
    validateDepthItems depth (Wire.mapItems codePoints items) = .ok ()
      ∧ validateItems format (Wire.mapItems codePoints items) = .ok () := by
  induction items generalizing texts with
  | nil => exact ⟨rfl, rfl⟩
  | cons item rest ih =>
    obtain ⟨hitem, hrest⟩ := List.forall_mem_cons.mp hitems
    obtain ⟨text, hwrite, h⟩ := bind_eq_ok.mp h
    obtain ⟨texts, hwrites, -⟩ := bind_eq_ok.mp h
    obtain ⟨hdepth, hvalid⟩ := hitem text hwrite
    obtain ⟨hdepths, hvalids⟩ := ih hrest hwrites
    exact ⟨bind_eq_ok.mpr ⟨(), hdepth, hdepths⟩, bind_eq_ok.mpr ⟨(), hvalid, hvalids⟩⟩

theorem members_validIfWritten (hmembers : ∀ m ∈ members, ValidIfWritten format exponential depth m.2)
    {entries : List (Units × Units)}
    (h : writeMembers format exponential depth members = .ok entries) :
    validateDepthMembers depth (Wire.mapMembers codePoints members) = .ok ()
      ∧ validateMembers format (Wire.mapMembers codePoints members) = .ok () := by
  induction members generalizing entries with
  | nil => exact ⟨rfl, rfl⟩
  | cons m rest ih =>
    obtain ⟨name, value⟩ := m
    obtain ⟨hmember, hrest⟩ := List.forall_mem_cons.mp hmembers
    obtain ⟨nameText, hwriteName, h⟩ := bind_eq_ok.mp h
    obtain ⟨text, hwrite, h⟩ := bind_eq_ok.mp h
    obtain ⟨entries, hwrites, -⟩ := bind_eq_ok.mp h
    have hname := (validateString_iff name).mpr (paired_of_writeString hwriteName)
    obtain ⟨hdepth, hvalid⟩ := hmember text hwrite
    obtain ⟨hdepths, hvalids⟩ := ih hrest hwrites
    exact ⟨bind_eq_ok.mpr ⟨(), hdepth, hdepths⟩, bind_eq_ok.mpr ⟨(), hname, bind_eq_ok.mpr ⟨(), hvalid, hvalids⟩⟩⟩

/-- **What the runtime writes, the server accepts.** -/
theorem validIfWritten (v : Wire Units) (depth : Nat) : ValidIfWritten format exponential depth v := by
  induction v using Wire.ind generalizing depth with
  | null => exact fun _ _ => ⟨rfl, rfl⟩
  | bool b => exact fun _ _ => ⟨rfl, rfl⟩
  | int n => exact fun _ h => ⟨rfl, valid_of_writeInt format exponential h⟩
  | double x =>
    cases x with
    | finite x => exact fun _ _ => ⟨rfl, rfl⟩
    | inf neg => exact fun _ h => nomatch h
    | nan => exact fun _ h => nomatch h
  | str s => exact fun _ h => ⟨rfl, (validateString_iff s).mpr (paired_of_writeString h)⟩
  | arr items ih =>
    intro text h
    rw [write] at h
    by_cases hmax : maxJsonDepth < depth + 1
    · rw [if_pos hmax] at h
      cases h
    · rw [if_neg hmax] at h
      obtain ⟨texts, hwrite, -⟩ := bind_eq_ok.mp h
      obtain ⟨hdepth, hvalid⟩ := items_validIfWritten format exponential
        (fun item hitem => ih item hitem (depth + 1)) hwrite
      refine ⟨?_, hvalid⟩
      rw [Wire.map, validateJsonDepth, if_neg (by omega), hdepth]
  | obj members ih =>
    intro text h
    rw [write] at h
    by_cases hmax : maxJsonDepth < depth + 1
    · rw [if_pos hmax] at h
      cases h
    · rw [if_neg hmax] at h
      obtain ⟨entries, hwrite, -⟩ := bind_eq_ok.mp h
      obtain ⟨hdepth, hvalid⟩ := members_validIfWritten format exponential
        (fun m hm => ih m hm (depth + 1)) hwrite
      refine ⟨?_, hvalid⟩
      rw [Wire.map, validateJsonDepth, if_neg (by omega), hdepth]

/-- **The two canonicalizers agree.** A value is rejected by both, or both give the same bytes. -/
theorem canonicalizeV2_eq_serialize (v : JsonValue) :
    (canonicalizeV2 format v.onServer).toOption
      = (serialize format exponential v.value).toOption := by
  cases hserver : canonicalizeV2 format v.onServer with
  | ok bytes =>
    obtain ⟨_, hdepth, h⟩ := bind_eq_ok.mp hserver
    obtain ⟨_, hvalid, h⟩ := bind_eq_ok.mp h
    obtain ⟨text, hwrite, -, htext⟩ := writtenAlike format exponential v.value 0 hdepth hvalid
      v.unique
    obtain ⟨_, hcanonical, h⟩ := bind_eq_ok.mp h
    rw [JsonValue.onServer, htext] at hcanonical
    cases hcanonical
    rw [serialize, hwrite]
    exact congrArg Except.toOption h.symm
  | error e =>
    cases hruntime : serialize format exponential v.value with
    | error e' => rfl
    | ok bytes =>
      -- what the runtime writes, the server would have accepted
      obtain ⟨text, hwrite, -⟩ := bind_eq_ok.mp hruntime
      obtain ⟨hdepth, hvalid⟩ := validIfWritten format exponential v.value 0 text hwrite
      obtain ⟨_, -, -, htext⟩ := writtenAlike format exponential v.value 0 hdepth hvalid v.unique
      rw [canonicalizeV2, JsonValue.onServer, hdepth, hvalid, htext] at hserver
      cases hserver

end

end Ai00.Connector
