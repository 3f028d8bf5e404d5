import Ai00.Basic.JsonReader
import Ai00.Connector.CanonicalAgreement

/-! # Canonical bytes determine the value

The bytes of `canonicalize_v2`, read as JSON, give the value back: its members in another order,
and its numbers as the binary64 numbers nearest to what is printed, which is how RFC 8785 has
numbers read. Equal bytes are therefore the bytes of equal values
(`canonicalizeV2_gives_back`). A reader that takes whole numbers as they stand, as `json.loads`
does, sees another number where a whole number has more digits than are printed
(`loads_another_number`).
-/

namespace Ai00.Connector

/-! ## What a text gives back -/

section

-- `whole`: how a number without a fraction or an exponent is read
variable (whole : Int → ℚ → Prop)

/-- As the nearest binary64 number. -/
def AsBinary64 (n : Int) (q : ℚ) : Prop := ∃ x : Binary64, Reads n x ∧ x.toRat = q

def AsWritten (n : Int) (q : ℚ) : Prop := q = n

def NumberBack (q : ℚ) : JsonText → Prop
  | .integer n => whole n q
  | .real d => ∃ x : Binary64, Reads d x ∧ x.toRat = q
  | _ => False

mutual

/-- The text is the value again, with the members of its objects in any order. -/
def GivesBack : Wire Points → JsonText → Prop
  | .null, t => t = .null
  | .bool b, t => t = .bool b
  | .int n, t => NumberBack whole n t
  | .double (.finite x), t => NumberBack whole x.toRat t
  | .double _, _ => False
  | .str s, t => t = .str s
  | .arr items, t => ∃ texts, t = .arr texts ∧ ItemsBack items texts
  | .obj members, t =>
    ∃ texts ordered, t = .obj texts ∧ texts.Perm ordered ∧ MembersBack members ordered

def ItemsBack : List (Wire Points) → List JsonText → Prop
  | [], texts => texts = []
  | item :: items, texts =>
    ∃ text rest, texts = text :: rest ∧ GivesBack item text ∧ ItemsBack items rest

def MembersBack : List (Points × Wire Points) → List (Points × JsonText) → Prop
  | [], texts => texts = []
  | (name, value) :: members, texts =>
    ∃ text rest, texts = (name, text) :: rest ∧ GivesBack value text ∧ MembersBack members rest

end

end

def SameNumber (q : ℚ) : Wire Points → Prop
  | .int n => (n : ℚ) = q
  | .double (.finite x) => x.toRat = q
  | _ => False

mutual

/-- Equal up to the order of members, numbers compared by their value. -/
def Same : Wire Points → Wire Points → Prop
  | .null, w => w = .null
  | .bool b, w => w = .bool b
  | .int n, w => SameNumber n w
  | .double (.finite x), w => SameNumber x.toRat w
  | .double _, _ => False
  | .str s, w => w = .str s
  | .arr items, w => ∃ others, w = .arr others ∧ SameItems items others
  | .obj members, w =>
    ∃ others ordered, w = .obj others ∧ others.Perm ordered ∧ SameMembers members ordered

def SameItems : List (Wire Points) → List (Wire Points) → Prop
  | [], others => others = []
  | item :: items, others =>
    ∃ other rest, others = other :: rest ∧ Same item other ∧ SameItems items rest

def SameMembers : List (Points × Wire Points) → List (Points × Wire Points) → Prop
  | [], others => others = []
  | (name, value) :: members, others =>
    ∃ other rest, others = (name, other) :: rest ∧ Same value other ∧ SameMembers members rest

end

/-- A relation of lists that goes by their heads is one element by element. -/
theorem forall₂_of_cons {α β : Type} {P : List α → List β → Prop} {R : α → β → Prop} (hnil : ∀ bs, P [] bs ↔ bs = [])
    (hcons : ∀ a as bs, P (a :: as) bs ↔ ∃ b rest, bs = b :: rest ∧ R a b ∧ P as rest) (as : List α) (bs : List β) :
    P as bs ↔ List.Forall₂ R as bs := by
  induction as generalizing bs with
  | nil => exact (hnil bs).trans List.forall₂_nil_left_iff.symm
  | cons a as ih =>
    rw [hcons, List.forall₂_cons_left_iff]
    constructor
    · rintro ⟨b, rest, rfl, hab, hrest⟩
      exact ⟨b, rest, hab, (ih rest).mp hrest, rfl⟩
    · rintro ⟨b, rest, hab, hrest, rfl⟩
      exact ⟨b, rest, rfl, hab, (ih rest).mpr hrest⟩

theorem itemsBack_iff (whole : Int → ℚ → Prop) (items : List (Wire Points)) (texts : List JsonText) :
    ItemsBack whole items texts ↔ List.Forall₂ (GivesBack whole) items texts :=
  forall₂_of_cons (fun _ => .rfl) (fun _ _ _ => .rfl) items texts

theorem membersBack_iff (whole : Int → ℚ → Prop) (members : List (Points × Wire Points))
    (texts : List (Points × JsonText)) :
    MembersBack whole members texts
      ↔ List.Forall₂ (fun m t => m.1 = t.1 ∧ GivesBack whole m.2 t.2) members texts := by
  refine forall₂_of_cons (fun _ => .rfl) (fun member _ _ => ⟨?_, ?_⟩) members texts
  · rintro ⟨text, rest, hcons, hvalue, hrest⟩
    exact ⟨(member.1, text), rest, hcons, ⟨rfl, hvalue⟩, hrest⟩
  · rintro ⟨⟨name, text⟩, rest, hcons, ⟨rfl, hvalue⟩, hrest⟩
    exact ⟨text, rest, hcons, hvalue, hrest⟩

theorem sameItems_iff (items others : List (Wire Points)) :
    SameItems items others ↔ List.Forall₂ Same items others :=
  forall₂_of_cons (fun _ => .rfl) (fun _ _ _ => .rfl) items others

theorem sameMembers_iff (members others : List (Points × Wire Points)) : SameMembers members others
      ↔ List.Forall₂ (fun m n => m.1 = n.1 ∧ Same m.2 n.2) members others := by
  refine forall₂_of_cons (fun _ => .rfl) (fun member _ _ => ⟨?_, ?_⟩) members others
  · rintro ⟨other, rest, hcons, hvalue, hrest⟩
    exact ⟨(member.1, other), rest, hcons, ⟨rfl, hvalue⟩, hrest⟩
  · rintro ⟨⟨name, other⟩, rest, hcons, ⟨rfl, hvalue⟩, hrest⟩
    exact ⟨other, rest, hcons, hvalue, hrest⟩

/-! ## One text is given back by one value -/

theorem sameNumber_of_back {q : ℚ} {t : JsonText} (h : NumberBack AsBinary64 q t)
    {w : Wire Points} (hw : GivesBack AsBinary64 w t) : SameNumber q w := by
  have hdecimal : ∃ d x, Reads d x ∧ x.toRat = q ∧ ∀ r, NumberBack AsBinary64 r t →
      ∃ y, Reads d y ∧ y.toRat = r := by
    cases t with
    | integer n =>
      obtain ⟨x, hx, hq⟩ := h
      exact ⟨n, x, hx, hq, fun r hr => hr⟩
    | real d =>
      obtain ⟨x, hx, hq⟩ := h
      exact ⟨d, x, hx, hq, fun r hr => hr⟩
    | null => exact False.elim h
    | bool b => exact False.elim h
    | str s => exact False.elim h
    | arr items => exact False.elim h
    | obj members => exact False.elim h
  obtain ⟨d, x, hx, rfl, hread⟩ := hdecimal
  have hsame : ∀ r, NumberBack AsBinary64 r t → r = x.toRat := by
    intro r hr
    obtain ⟨y, hy, rfl⟩ := hread r hr
    exact hy.unique hx
  cases w with
  | int n => exact hsame n hw
  | double y =>
    cases y with
    | finite y => exact hsame y.toRat hw
    | inf neg => exact False.elim hw
    | nan => exact False.elim hw
  | null =>
    cases hw
    exact h
  | bool b =>
    cases hw
    exact h
  | str s =>
    cases hw
    exact h
  | arr items =>
    obtain ⟨texts, rfl, -⟩ := hw
    exact h
  | obj members =>
    obtain ⟨texts, ordered, rfl, -⟩ := hw
    exact h

section

variable {whole : Int → ℚ → Prop} {w : Wire Points}

theorem givesBack_null (h : GivesBack whole w .null) : w = .null := by
  cases w with
  | null => rfl
  | int n => exact h.elim
  | double x => cases x <;> exact False.elim h
  | arr items => obtain ⟨_, ⟨⟩, -⟩ := h
  | obj members => obtain ⟨_, _, ⟨⟩, -⟩ := h
  | _ => cases h

theorem givesBack_bool {b : Bool} (h : GivesBack whole w (.bool b)) : w = .bool b := by
  cases w with
  | bool c =>
    cases h
    rfl
  | int n => exact h.elim
  | double x => cases x <;> exact False.elim h
  | arr items => obtain ⟨_, ⟨⟩, -⟩ := h
  | obj members => obtain ⟨_, _, ⟨⟩, -⟩ := h
  | _ => cases h

theorem givesBack_str {s : Points} (h : GivesBack whole w (.str s)) : w = .str s := by
  cases w with
  | str t =>
    cases h
    rfl
  | int n => exact h.elim
  | double x => cases x <;> exact False.elim h
  | arr items => obtain ⟨_, ⟨⟩, -⟩ := h
  | obj members => obtain ⟨_, _, ⟨⟩, -⟩ := h
  | _ => cases h

theorem givesBack_arr {texts : List JsonText} (h : GivesBack whole w (.arr texts)) :
    ∃ items, w = .arr items ∧ ItemsBack whole items texts := by
  cases w with
  | arr items =>
    obtain ⟨_, ⟨⟩, hitems⟩ := h
    exact ⟨items, rfl, hitems⟩
  | int n => exact h.elim
  | double x => cases x <;> exact False.elim h
  | obj members => obtain ⟨_, _, ⟨⟩, -⟩ := h
  | _ => cases h

theorem givesBack_obj {texts : List (Points × JsonText)} (h : GivesBack whole w (.obj texts)) :
    ∃ members ordered, w = .obj members ∧ texts.Perm ordered
      ∧ MembersBack whole members ordered := by
  cases w with
  | obj members =>
    obtain ⟨_, ordered, ⟨⟩, hperm, hmembers⟩ := h
    exact ⟨members, ordered, rfl, hperm, hmembers⟩
  | int n => exact h.elim
  | double x => cases x <;> exact False.elim h
  | arr items => obtain ⟨_, ⟨⟩, -⟩ := h
  | _ => cases h

end

/-- **Two values that one text gives back are the same.** -/
theorem same_of_givesBack (v : Wire Points) : ∀ w t, GivesBack AsBinary64 v t →
    GivesBack AsBinary64 w t → Same v w := by
  induction v using Wire.ind with
  | null =>
    intro w t hv hw
    cases hv
    exact givesBack_null hw
  | bool b =>
    intro w t hv hw
    cases hv
    exact givesBack_bool hw
  | int n => exact fun w t hv hw => sameNumber_of_back hv hw
  | double x =>
    cases x with
    | finite x => exact fun w t hv hw => sameNumber_of_back hv hw
    | inf neg => exact fun w t hv _ => hv.elim
    | nan => exact fun w t hv _ => hv.elim
  | str s =>
    intro w t hv hw
    cases hv
    exact givesBack_str hw
  | arr items ih =>
    intro w t hv hw
    obtain ⟨texts, rfl, hitems⟩ := hv
    obtain ⟨others, rfl, hothers⟩ := givesBack_arr hw
    refine ⟨others, rfl, (sameItems_iff items others).mpr ?_⟩
    rw [itemsBack_iff] at hitems hothers
    clear hw
    induction hitems generalizing others with
    | nil =>
      cases hothers
      exact .nil
    | @cons item text items texts hitem _ ihItems =>
      obtain ⟨hfirst, hrest⟩ := List.forall_mem_cons.mp ih
      cases hothers with
      | @cons other _ others _ hother hothers =>
        exact .cons (hfirst other text hitem hother) (ihItems hrest others hothers)
  | obj members ih =>
    intro w t hv hw
    obtain ⟨texts, ordered, rfl, hperm, hmembers⟩ := hv
    obtain ⟨others, ordered', rfl, hperm', hothers⟩ := givesBack_obj hw
    rw [membersBack_iff] at hmembers hothers
    -- the other value's members in the order of the first one's
    obtain ⟨matched, hmatched, hothersPerm⟩ :=
      List.perm_comp_forall₂ (hperm.symm.trans hperm') hothers.flip
    refine ⟨others, matched, rfl, hothersPerm.symm, (sameMembers_iff members matched).mpr ?_⟩
    clear hw hperm hperm' hothers hothersPerm
    induction hmembers generalizing matched with
    | nil =>
      cases hmatched
      exact .nil
    | @cons member text members texts hmember _ ihMembers =>
      obtain ⟨hfirst, hrest⟩ := List.forall_mem_cons.mp ih
      cases hmatched with
      | @cons _ other _ matched hother hmatched =>
        exact .cons ⟨hmember.1.trans hother.1.symm, hfirst other.2 text.2 hmember.2 hother.2⟩
          (ihMembers hrest matched hmatched)

/-! ## Numbers are given back -/

theorem isDigit_toNat (c : Char) : JsonText.isDigit c.toNat = c.isDigit := by
  rw [Bool.eq_iff_iff]
  simp [JsonText.isDigit, Char.isDigit, UInt32.le_iff_toNat_le]

theorem isDigit_points {ds : Str} (h : ∀ c ∈ ds, c.isDigit = true) :
    ∀ c ∈ points ds, JsonText.isDigit c = true := by
  intro c hc
  obtain ⟨d, hd, rfl⟩ := List.mem_map.mp hc
  rw [isDigit_toNat, h d hd]

theorem points_ne_nil {ds : Str} (h : ds ≠ []) : points ds ≠ [] :=
  fun hnil => h (List.map_eq_nil_iff.mp hnil)

theorem digitsValue_points (ds : Str) : JsonText.digitsValue (points ds) = Nat.ofDigitChars 10 ds 0 := by
  rw [JsonText.digitsValue, points, List.foldl_map]
  rfl

theorem isWhole_points {ds : Str} (hdigits : ∀ c ∈ ds, c.isDigit = true) (hne : ds ≠ [])
    (hhead : ds.head? ≠ some '0') : JsonText.IsWhole (points ds) := by
  refine Or.inr ⟨points_ne_nil hne, ?_, isDigit_points hdigits⟩
  obtain ⟨c, ds, rfl⟩ := List.exists_cons_of_ne_nil hne
  intro h
  have hc : c.toNat = '0'.toNat := Option.some.inj h
  exact hhead (congrArg some (Char.toNat_inj.mp hc))

theorem fractionText_points (ds : Str) :
    JsonText.fractionText (points ds) = points (if ds = [] then [] else '.' :: ds) := by
  cases ds with
  | nil => rfl
  | cons c ds => rfl

theorem digits_toDigits (n : Nat) : ∀ c ∈ Nat.toDigits 10 n, c.isDigit = true :=
  fun _ hc => Nat.isDigit_of_mem_toDigits (by decide) (by decide) hc

theorem isWhole_toDigits (n : Nat) : JsonText.IsWhole (points (Nat.toDigits 10 n)) := by
  rcases Nat.eq_zero_or_pos n with rfl | hpos
  · exact Or.inl rfl
  · exact isWhole_points (digits_toDigits n) Nat.toDigits_ne_nil (head_toDigits hpos)

theorem exponentText_points (n : Int) : JsonText.ExponentText
    (101 :: points ((if 0 ≤ n then ['+'] else []) ++ Json.intText n)) (some n) := by
  refine .present fun rest hrest => ?_
  cases n with
  | ofNat k =>
    have hread := (JsonText.readSigned_digits (points_ne_nil Nat.toDigits_ne_nil)
      (isDigit_points (digits_toDigits k)) hrest).2.1
    rw [digitsValue_points, Nat.ofDigitChars_ten_toDigits] at hread
    rw [if_pos (show (0 : Int) ≤ Int.ofNat k from Int.natCast_nonneg k)]
    exact hread
  | negSucc k =>
    have hread := (JsonText.readSigned_digits (points_ne_nil Nat.toDigits_ne_nil)
      (isDigit_points (digits_toDigits (k + 1))) hrest).2.2
    rw [digitsValue_points, Nat.ofDigitChars_ten_toDigits] at hread
    rw [if_neg (by omega)]
    exact hread

/-! ## The parts of a number -/

/-- The parts that a reader finds in a number's text, and the decimal that they spell. -/
structure Spells (digits : Str) (position : Int) (number whole fraction : Str) (text : Points)
    (exponent : Option Int) : Prop where
  reading : points number = points whole ++ (JsonText.fractionText (points fraction) ++ text)
  isWhole : JsonText.IsWhole (points whole)
  isDigit : ∀ c ∈ fraction, c.isDigit = true
  exponentText : JsonText.ExponentText text exponent
  value : (Nat.ofDigitChars 10 (whole ++ fraction) 0 : ℚ) * 10 ^ (exponent.getD 0 - fraction.length)
    = decimalValue digits position

section

variable {digits : Str} {position : Int} {number : Str}

theorem isDigit_zeros (n : Nat) : ∀ c ∈ List.replicate n '0', c.isDigit = true :=
  fun _ hc => List.eq_of_mem_replicate hc ▸ rfl

/-- The first digits are a whole number, and the others a fraction. -/
theorem take_drop_digits (hdigits : ∀ c ∈ digits, c.isDigit = true) (hne : digits ≠ [])
    (hhead : digits.head? ≠ some '0') {n : Nat} (hn : 0 < n) :
    JsonText.IsWhole (points (digits.take n)) ∧ ∀ c ∈ digits.drop n, c.isDigit = true := by
  refine ⟨isWhole_points (fun c hc => hdigits c (List.mem_of_mem_take hc)) ?_ ?_,
    fun c hc => hdigits c (List.mem_of_mem_drop hc)⟩
  · intro h
    rcases List.take_eq_nil_iff.mp h with h | h
    · omega
    · exact hne h
  · rw [List.head?_take, if_neg (by omega)]
    exact hhead

theorem spells_small (hdigits : ∀ c ∈ digits, c.isDigit = true) (hne : digits ≠ []) (hsmall : position ≤ 0)
    (hnumber : number = "0.".toList ++ List.replicate (-position).toNat '0' ++ digits) :
    Spells digits position number ['0'] (List.replicate (-position).toNat '0' ++ digits) [] none := by
  refine ⟨?_, Or.inl rfl, fun c hc => (List.mem_append.mp hc).elim (isDigit_zeros _ c) (hdigits c), .absent, ?_⟩
  · rw [hnumber, fractionText_points, if_neg (by simp [hne])]
    simp [points]
  · have hvalue : Nat.ofDigitChars 10 (['0'] ++ (List.replicate (-position).toNat '0' ++ digits)) 0
        = Nat.ofDigitChars 10 digits 0 := by
      rw [Nat.ofDigitChars_append, Nat.ofDigitChars_append, Nat.ofDigitChars_replicate_zero]
      rfl
    rw [hvalue, List.length_append, List.length_replicate, decimalValue]
    congr 2
    show (0 : Int) - _ = _
    omega

/-- Zeros after the digits, and `k` of them after the point. -/
theorem spells_whole (hdigits : ∀ c ∈ digits, c.isDigit = true) (hne : digits ≠ []) (hhead : digits.head? ≠ some '0')
    (hwhole : (digits.length : Int) ≤ position) (k : Nat)
    (hnumber : points number = points (digits ++ List.replicate (position - digits.length).toNat '0')
      ++ (JsonText.fractionText (points (List.replicate k '0')) ++ [])) :
    Spells digits position number (digits ++ List.replicate (position - digits.length).toNat '0')
      (List.replicate k '0') [] none := by
  refine ⟨hnumber, isWhole_points ?_ (by simp [hne]) ?_, isDigit_zeros k, .absent, ?_⟩
  · exact fun c hc => (List.mem_append.mp hc).elim (hdigits c) (isDigit_zeros _ c)
  · rw [List.head?_append_of_ne_nil _ hne]
    exact hhead
  · have hpow : position - digits.length = ((position - digits.length).toNat : Int) := by omega
    have hten : (10 : ℚ) ^ k ≠ 0 := pow_ne_zero _ (by norm_num)
    rw [Nat.ofDigitChars_append, Nat.ofDigitChars_append, Nat.ofDigitChars_replicate_zero,
      Nat.ofDigitChars_replicate_zero, decimalValue, hpow, zpow_natCast, Int.toNat_natCast, Option.getD_none,
      List.length_replicate, zero_sub, zpow_neg, zpow_natCast]
    push_cast
    field_simp

theorem spells_point (hdigits : ∀ c ∈ digits, c.isDigit = true) (hne : digits ≠ []) (hhead : digits.head? ≠ some '0')
    (hpos : 0 < position) (hrest : digits.drop position.toNat ≠ []) :
    Spells digits position (digits.take position.toNat ++ '.' :: digits.drop position.toNat)
      (digits.take position.toNat) (digits.drop position.toNat) [] none := by
  obtain ⟨htake, hdrop⟩ := take_drop_digits hdigits hne hhead (show 0 < position.toNat by omega)
  refine ⟨?_, htake, hdrop, .absent, ?_⟩
  · rw [fractionText_points, if_neg hrest]
    simp [points]
  · rw [ne_eq, List.drop_eq_nil_iff] at hrest
    rw [List.take_append_drop, List.length_drop, decimalValue]
    congr 2
    show (0 : Int) - _ = _
    omega

theorem spells_exponent (hdigits : ∀ c ∈ digits, c.isDigit = true) (hne : digits ≠ [])
    (hhead : digits.head? ≠ some '0') {text : Points} (htext : JsonText.ExponentText text (some (position - 1)))
    (hnumber : points number
      = points (digits.take 1 ++ if 1 < digits.length then '.' :: digits.drop 1 else []) ++ text) :
    Spells digits position number (digits.take 1) (digits.drop 1) text (some (position - 1)) := by
  obtain ⟨htake, hdrop⟩ := take_drop_digits hdigits hne hhead Nat.one_pos
  refine ⟨?_, htake, hdrop, htext, ?_⟩
  · have hfraction : (if digits.drop 1 = [] then [] else '.' :: digits.drop 1)
        = if 1 < digits.length then '.' :: digits.drop 1 else [] := by
      by_cases hlong : 1 < digits.length
      · rw [if_pos hlong, if_neg (by rw [List.drop_eq_nil_iff]; omega)]
      · rw [if_neg hlong, if_pos (by rw [List.drop_eq_nil_iff]; omega)]
    rw [hnumber, fractionText_points, hfraction]
    simp [points]
  · have hpos : 0 < digits.length := List.length_pos_iff.mpr hne
    rw [List.take_append_drop, List.length_drop, decimalValue]
    congr 2
    show (position - 1 : Int) - _ = _
    omega

end

theorem numberText_parts {digits : Str} (position : Int) (hdigits : ∀ c ∈ digits, c.isDigit = true)
    (hne : digits ≠ []) (hhead : digits.head? ≠ some '0') :
    ∃ whole fraction text exponent,
      Spells digits position (numberText digits position) whole fraction text exponent := by
  rw [numberText]
  by_cases hfixed : 0 < position ∧ position ≤ 21
  · rw [if_pos hfixed]
    by_cases hwhole : (digits.length : Int) ≤ position
    · rw [if_pos hwhole]
      exact ⟨_, _, _, _, spells_whole hdigits hne hhead hwhole 0 (by simp [JsonText.fractionText, points])⟩
    · rw [if_neg hwhole]
      exact ⟨_, _, _, _, spells_point hdigits hne hhead hfixed.1 (by rw [ne_eq, List.drop_eq_nil_iff]; omega)⟩
  · rw [if_neg hfixed]
    by_cases hsmall : -6 < position ∧ position ≤ 0
    · rw [if_pos hsmall]
      exact ⟨_, _, _, _, spells_small hdigits hne hsmall.2 rfl⟩
    · rw [if_neg hsmall]
      exact ⟨_, _, _, _, spells_exponent hdigits hne hhead (exponentText_points (position - 1)) (by simp [points])⟩

theorem numberBack_value {d : JsonText.Decimal} {negative : Bool} {x : Binary64}
    (h : Reads ((if negative then -1 else 1) * (JsonText.digitsValue (d.whole ++ d.fraction)
      * (10 : ℚ) ^ (d.exponent.getD 0 - d.fraction.length))) x) :
    NumberBack AsBinary64 x.toRat (d.value negative) := by
  rw [JsonText.Decimal.value]
  by_cases hplain : d.fraction = [] ∧ d.exponent = none
  · rw [if_pos hplain]
    refine ⟨x, ?_, rfl⟩
    rw [hplain.1, hplain.2] at h
    cases negative <;> simpa using h
  · rw [if_neg hplain]
    refine ⟨x, ?_, rfl⟩
    cases negative <;> simpa using h

/-- A text that is one value, with nothing in it that UTF-8 cannot encode. -/
structure ReadBack (w : Wire Points) (text : Points) : Prop where
  scalar : ∀ c ∈ text, IsScalar c
  opens : JsonText.Opens text
  back : ∃ t, JsonText.Reads text t ∧ GivesBack AsBinary64 w t

/-- The text of a number reads back as the number. -/
structure NumberReadBack (q : ℚ) (text : Points) : Prop where
  scalar : ∀ c ∈ text, IsScalar c
  opens : JsonText.Opens text
  back : ∃ t, JsonText.Reads text t ∧ NumberBack AsBinary64 q t

theorem scalar_of_ascii {s : Str} (h : ∀ c ∈ s, c.toNat < 128) : ∀ c ∈ points s, IsScalar c := by
  intro c hc
  obtain ⟨d, hd, rfl⟩ := List.mem_map.mp hc
  have hsmall := h d hd
  refine ⟨by omega, fun hs => ?_⟩
  have := hs.1
  omega

theorem opens_points {c : Char} {s : Str} (h : c.isDigit = true ∨ c = '-') :
    JsonText.Opens (points (c :: s)) := by
  refine ⟨c.toNat, points s, rfl, ?_⟩
  rcases h with hdigit | rfl
  · have hrange : 48 ≤ c.toNat ∧ c.toNat ≤ 57 := by
      simpa [Char.isDigit, UInt32.le_iff_toNat_le] using hdigit
    refine ⟨?_, by omega, by omega⟩
    simp [JsonText.isSpace]
    omega
  · decide

section

variable {number whole fraction : Str} {text : Points} {exponent : Option Int}

theorem reads_of_parts
    (hnumber : points number = points whole ++ (JsonText.fractionText (points fraction) ++ text))
    (hwhole : JsonText.IsWhole (points whole)) (hfraction : ∀ c ∈ fraction, c.isDigit = true)
    (htext : JsonText.ExponentText text exponent) :
    JsonText.Reads (points number)
        ((⟨points whole, points fraction, exponent⟩ : JsonText.Decimal).value false)
      ∧ JsonText.Reads (45 :: points number)
        ((⟨points whole, points fraction, exponent⟩ : JsonText.Decimal).value true)
      ∧ ∃ c s, number = c :: s ∧ c.isDigit = true := by
  have hread : ∀ rest, JsonText.Stops rest → JsonText.readDecimal (points number ++ rest)
      = some (⟨points whole, points fraction, exponent⟩, rest) := by
    intro rest hrest
    rw [hnumber, List.append_assoc, List.append_assoc]
    exact JsonText.readDecimal_append hwhole (isDigit_points hfraction) htext hrest
  obtain ⟨p, more, hp⟩ := List.exists_cons_of_ne_nil hwhole.ne_nil
  have hdigit : JsonText.isDigit p = true := hwhole.head p (by rw [hp]; rfl)
  have hpoints : points number = p :: (more ++ (JsonText.fractionText (points fraction) ++ text)) := by
    rw [hnumber, hp, List.cons_append]
  have hfirst : ∀ q ∈ (points number).head?, JsonText.isDigit q = true := by
    rw [hpoints]
    rintro q ⟨⟩
    exact hdigit
  have hne : points number ≠ [] := by
    rw [hpoints]
    exact List.cons_ne_nil _ _
  obtain ⟨hplain, hminus⟩ := JsonText.reads_number hfirst hne hread
  refine ⟨hplain, hminus, ?_⟩
  obtain ⟨c, s, rfl, rfl, -⟩ := List.map_eq_cons_iff.mp hpoints
  exact ⟨c, s, rfl, by rw [← isDigit_toNat]; exact hdigit⟩

/-- The parts of a number with a sign in front, read as the number they spell. -/
theorem numberReadBack_of_parts {negative : Bool} {x : Binary64}
    (hascii : ∀ c ∈ number, c.toNat < 128)
    (hnumber : points number = points whole ++ (JsonText.fractionText (points fraction) ++ text))
    (hwhole : JsonText.IsWhole (points whole)) (hfraction : ∀ c ∈ fraction, c.isDigit = true)
    (htext : JsonText.ExponentText text exponent)
    (hvalue : Reads ((if negative then -1 else 1) * ((Nat.ofDigitChars 10 (whole ++ fraction) 0 : ℚ)
        * (10 : ℚ) ^ (exponent.getD 0 - fraction.length))) x) :
    NumberReadBack x.toRat (points ((if negative then ['-'] else []) ++ number)) := by
  obtain ⟨hplain, hminus, c, s, rfl, hc⟩ := reads_of_parts hnumber hwhole hfraction htext
  have hback : NumberBack AsBinary64 x.toRat
      ((⟨points whole, points fraction, exponent⟩ : JsonText.Decimal).value negative) := by
    refine numberBack_value ?_
    have hdigits : points whole ++ points fraction = points (whole ++ fraction) :=
      (List.map_append ..).symm
    have hlength : (points fraction).length = fraction.length := List.length_map ..
    rw [hdigits, digitsValue_points, hlength]
    exact hvalue
  cases negative with
  | false => exact ⟨scalar_of_ascii hascii, opens_points (Or.inl hc), _, hplain, hback⟩
  | true =>
    exact ⟨scalar_of_ascii (ascii_append (by simp) hascii), opens_points (Or.inr rfl), _, hminus, hback⟩

end

theorem Binary64.abs_of_neg {x : Binary64} (h : x.neg = true) : x.abs.negate = x := by
  cases x
  cases h
  rfl

theorem Binary64.abs_of_not_neg {x : Binary64} (h : x.neg = false) : x.abs = x := by
  cases x
  cases h
  rfl

variable (format : DecimalFormat)

theorem signedText_readBack {x : Binary64} (hx : x.mant ≠ 0) :
    NumberReadBack x.toRat (points (signedText format x)) := by
  have h := format.shortest x.abs rfl hx
  obtain ⟨whole, fraction, text, exponent, hspells⟩ :=
    numberText_parts (format.position x.abs) h.isDigit h.ne_nil h.head
  have hreads := h.reads
  rw [← hspells.value] at hreads
  rw [signedText]
  refine numberReadBack_of_parts (ascii_numberText h.isDigit _) hspells.reading hspells.isWhole hspells.isDigit
    hspells.exponentText ?_
  cases hneg : x.neg with
  | false =>
    rw [Binary64.abs_of_not_neg hneg] at hreads
    simpa using hreads
  | true =>
    have hflip := reads_negate hreads
    rw [Binary64.abs_of_neg hneg] at hflip
    simpa using hflip

theorem canonicalFloat_readBack {x : Binary64} {s : Str} (h : canonicalFloat format x = .ok s) :
    NumberReadBack x.toRat (points s) := by
  by_cases hx : x.mant = 0
  · rw [canonicalFloat, if_pos hx] at h
    cases h
    have hzero : x.toRat = 0 := by simp [Binary64.toRat, hx]
    have hdigit : Nat.ofDigitChars 10 (['0'] ++ []) 0 = 0 := rfl
    exact @numberReadBack_of_parts ['0'] ['0'] [] [] none false x (by simp) rfl (Or.inl rfl)
      (by simp) .absent (reads_of_eq (by rw [hdigit, hzero]; simp))
  · rw [canonicalFloat_eq format hx] at h
    cases h
    exact signedText_readBack format hx

theorem canonicalInt_readBack {n : Int} {text : Points} (hvalid : validateInt format n = .ok ())
    (h : canonicalInt format n = .ok text) : NumberReadBack n text := by
  rw [canonicalInt] at h
  rw [validateInt] at hvalid
  by_cases hsafe : IsSafe n
  · rw [if_pos hsafe] at h
    cases h
    have hsmall : n.natAbs ≤ 2 ^ 53 := by
      obtain ⟨hlo, hhi⟩ := hsafe
      unfold safeIntegerMax at hlo hhi
      omega
    obtain ⟨x, hx⟩ := exists_binary64_int hsmall
    have hsign : Json.intText n = (if decide (n < 0) then ['-'] else []) ++ Nat.toDigits 10 n.natAbs := by
      cases n with
      | ofNat k => rw [if_neg (by simp)]; rfl
      | negSucc k => rw [if_pos (by simp)]; rfl
    rw [hsign, ← hx]
    refine @numberReadBack_of_parts (Nat.toDigits 10 n.natAbs) (Nat.toDigits 10 n.natAbs) [] [] none
      (decide (n < 0)) x ?_ ?_ (isWhole_toDigits _) (by simp) .absent (reads_of_eq ?_)
    · exact fun c hc => ascii_of_isDigit (digits_toDigits _ c hc)
    · simp [JsonText.fractionText, points]
    · have habs : (n : ℚ) = (if n < 0 then -1 else 1) * ((n.natAbs : Int) : ℚ) := by
        by_cases hneg : n < 0
        · rw [if_pos hneg]
          push_cast
          rw [abs_of_neg (by exact_mod_cast hneg)]
          ring
        · rw [if_neg hneg]
          push_cast
          rw [abs_of_nonneg (by exact_mod_cast not_lt.mp hneg)]
          ring
      rw [List.append_nil, Nat.ofDigitChars_ten_toDigits, hx, habs]
      simp
  · rw [if_neg hsafe] at h hvalid
    cases hx : format.ofInt n with
    | none =>
      rw [hx] at h
      cases h
    | some x =>
      rw [hx] at h hvalid
      by_cases hvalue : x.toRat = n
      · rw [← hvalue]
        cases hfloat : canonicalFloat format x with
        | error e =>
          simp only [hfloat] at h
          cases h
        | ok s =>
          simp only [hfloat] at h
          cases h
          exact canonicalFloat_readBack format hfloat
      · simp only [if_neg hvalue] at hvalid
        cases hvalid

/-! ## Strings are given back -/

theorem readCharacter_escapePoint (c : Nat) (rest : Points) :
    JsonText.readCharacter (escapePoint c ++ rest) = some (c, rest) := by
  unfold escapePoint
  split_ifs with h92 h34 h8 h12 h10 h13 h9 h32
  · subst h92; rfl
  · subst h34; rfl
  · subst h8; rfl
  · subst h12; rfl
  · subst h10; rfl
  · subst h13; rfl
  · subst h9; rfl
  · have hall : ∀ c, c < 32 → ∀ rest, JsonText.readCharacter
        (points ("\\u00".toList ++ [Nat.digitChar (c / 16), Nat.digitChar (c % 16)]) ++ rest)
          = some (c, rest) := by
      intro c hc rest
      interval_cases c <;> rfl
    exact hall c h32 rest
  · simp [JsonText.readCharacter, h92, h32]

theorem escapePoint_head (c : Nat) : ∃ d more, escapePoint c = d :: more ∧ d ≠ 34 := by
  unfold escapePoint
  split_ifs with h92 h34 h8 h12 h10 h13 h9 h32
  case neg => exact ⟨c, [], rfl, h34⟩
  all_goals exact ⟨92, _, rfl, by decide⟩

theorem scalar_escapePoint {c : Nat} (h : IsScalar c) : ∀ d ∈ escapePoint c, IsScalar d := by
  by_cases hself : escapePoint c = [c]
  · rw [hself]
    rintro d hd
    rw [List.mem_singleton.mp hd]
    exact h
  · have hhex : ∀ n, n < 16 → (Nat.digitChar n).toNat < 128 := by decide
    have hascii : ∃ s : Str, escapePoint c = points s ∧ ∀ d ∈ s, d.toNat < 128 := by
      by_cases h32 : c < 32
      · have hfirst := hhex (c / 16) (by omega)
        have hsecond := hhex (c % 16) (by omega)
        unfold escapePoint
        split_ifs <;> exact ⟨_, rfl, by simp [hfirst, hsecond]⟩
      · unfold escapePoint at hself ⊢
        split_ifs at hself ⊢ <;> first | exact ⟨_, rfl, by simp⟩ | exact absurd rfl hself
    obtain ⟨s, hs, hall⟩ := hascii
    rw [hs]
    exact scalar_of_ascii hall

theorem codePoints_lt (us : Units) : ∀ c ∈ codePoints us, c < 0x110000 := by
  induction us using codePoints.induct with
  | case1 => exact fun c hc => absurd hc List.not_mem_nil
  | case2 u =>
    intro c hc
    have hu := u.toNat_lt
    rw [List.mem_singleton.mp hc]
    omega
  | case3 u v rest hpair ih =>
    obtain ⟨hu, hv⟩ := Bool.and_eq_true_iff.mp hpair
    rw [codePoints_pair hu hv, List.forall_mem_cons]
    refine ⟨?_, ih⟩
    have hu := isHighSurrogate_iff.mp hu
    have hv := isLowSurrogate_iff.mp hv
    unfold joinPair
    omega
  | case4 u v rest hpair ih =>
    rw [codePoints, if_neg hpair, List.forall_mem_cons]
    have hu := u.toNat_lt
    exact ⟨by omega, ih⟩

theorem scalar_of_valid {s : Units} (h : validateString (codePoints s) = .ok ()) :
    ∀ c ∈ codePoints s, IsScalar c :=
  fun c hc => ⟨codePoints_lt s c hc, (paired_iff s).mp ((validateString_iff s).mp h) c hc⟩

theorem dumpString_eq (s : Points) : dumpString s = 34 :: (s.flatMap escapePoint ++ [34]) := rfl

theorem scalar_dumpString {s : Points} (h : ∀ c ∈ s, IsScalar c) :
    ∀ c ∈ dumpString s, IsScalar c := by
  have hquote : IsScalar 34 := by decide
  rw [dumpString_eq, List.forall_mem_cons]
  refine ⟨hquote, fun c hc => ?_⟩
  rcases List.mem_append.mp hc with hc | hc
  · obtain ⟨d, hd, hc⟩ := List.mem_flatMap.mp hc
    exact scalar_escapePoint (h d hd) c hc
  · rw [List.mem_singleton.mp hc]
    exact hquote

theorem spells_escapes (s : Points) : JsonText.Spells (s.flatMap escapePoint) s :=
  JsonText.spells_flatMap readCharacter_escapePoint escapePoint_head s

/-! ## Values are given back -/

/-- A valid value whose text reads back. -/
def Returns (v : Wire Units) : Prop :=
  ∀ text, validateJson format (v.map codePoints) = .ok () →
    canonicalText format (v.map codePoints) = .ok text → ReadBack (v.map codePoints) text

variable {texts : List Points}

theorem items_returns {items : List (Wire Units)} (hitems : ∀ item ∈ items, Returns format item)
    (hvalid : validateItems format (Wire.mapItems codePoints items) = .ok ())
    (h : canonicalItems format (Wire.mapItems codePoints items) = .ok texts) :
    (∀ text ∈ texts, (∀ c ∈ text, IsScalar c) ∧ JsonText.Opens text) ∧ ∃ ts, List.Forall₂ JsonText.Reads texts ts
        ∧ ItemsBack AsBinary64 (Wire.mapItems codePoints items) ts := by
  induction items generalizing texts with
  | nil =>
    cases h
    exact ⟨fun text ht => absurd ht List.not_mem_nil, [], .nil, rfl⟩
  | cons item items ih =>
    obtain ⟨hitem, hrest⟩ := List.forall_mem_cons.mp hitems
    obtain ⟨_, hvalidItem, hvalidRest⟩ := bind_eq_ok.mp hvalid
    obtain ⟨text, htext, h⟩ := bind_eq_ok.mp h
    obtain ⟨texts, htexts, h⟩ := bind_eq_ok.mp h
    cases h
    obtain ⟨hscalar, hopens, t, hreads, hback⟩ := hitem text hvalidItem htext
    obtain ⟨hall, ts, hreadsRest, hbackRest⟩ := ih hrest hvalidRest htexts
    exact ⟨List.forall_mem_cons.mpr ⟨⟨hscalar, hopens⟩, hall⟩, t :: ts, .cons hreads hreadsRest,
      t, ts, rfl, hback, hbackRest⟩

theorem members_returns {members : List (Units × Wire Units)}
    (hmembers : ∀ m ∈ members, Returns format m.2) {entries : List (Points × Points)}
    (hvalid : validateMembers format (Wire.mapMembers codePoints members) = .ok ())
    (h : canonicalMembers format (Wire.mapMembers codePoints members) = .ok entries) :
    (∀ e ∈ entries, ∀ c ∈ e.2, IsScalar c) ∧ ∃ ts, List.Forall₂ (fun e t => JsonText.ReadsMember e.2 t) entries ts
        ∧ MembersBack AsBinary64 (Wire.mapMembers codePoints members) ts := by
  induction members generalizing entries with
  | nil =>
    cases h
    exact ⟨fun e he => absurd he List.not_mem_nil, [], .nil, rfl⟩
  | cons member members ih =>
    obtain ⟨name, value⟩ := member
    obtain ⟨hmember, hrest⟩ := List.forall_mem_cons.mp hmembers
    obtain ⟨_, hvalidName, hvalid⟩ := bind_eq_ok.mp hvalid
    obtain ⟨_, hvalidValue, hvalidRest⟩ := bind_eq_ok.mp hvalid
    obtain ⟨text, htext, h⟩ := bind_eq_ok.mp h
    obtain ⟨entries, hentries, h⟩ := bind_eq_ok.mp h
    cases h
    obtain ⟨hscalar, -, t, hreads, hback⟩ := hmember text hvalidValue htext
    obtain ⟨hall, ts, hreadsRest, hbackRest⟩ := ih hrest hvalidRest hentries
    have hname := scalar_dumpString (scalar_of_valid hvalidName)
    have hcolon : ∀ c ∈ points [':'], IsScalar c := scalar_of_ascii (by simp)
    refine ⟨List.forall_mem_cons.mpr ⟨fun c hc => ?_, hall⟩, (codePoints name, t) :: ts,
      .cons ⟨_, text, ?_, spells_escapes _, hreads⟩ hreadsRest, t, ts, rfl, hback, hbackRest⟩
    · rcases List.mem_append.mp hc with hc | hc
      · exact (List.mem_append.mp hc).elim (hname c) (hcolon c)
      · exact hscalar c hc
    · rw [dumpString_eq]
      simp [points]

theorem scalar_intercalate (h : ∀ text ∈ texts, ∀ c ∈ text, IsScalar c) :
    ∀ c ∈ [44].intercalate texts, IsScalar c := by
  induction texts with
  | nil => exact fun c hc => absurd hc List.not_mem_nil
  | cons text texts ih =>
    obtain ⟨htext, htexts⟩ := List.forall_mem_cons.mp h
    cases texts with
    | nil =>
      rw [List.intercalate_singleton]
      exact htext
    | cons next texts =>
      rw [List.intercalate_cons_cons]
      intro c hc
      rcases List.mem_append.mp hc with hc | hc
      · rcases List.mem_append.mp hc with hc | hc
        · exact htext c hc
        · rw [List.mem_singleton.mp hc]
          decide
      · exact ih htexts c hc

theorem scalar_bracketed {opening closing : Nat} (hopening : IsScalar opening)
    (hclosing : IsScalar closing)
    (h : ∀ text ∈ texts, ∀ c ∈ text, IsScalar c) :
    ∀ c ∈ opening :: ([44].intercalate texts ++ [closing]), IsScalar c := by
  refine List.forall_mem_cons.mpr ⟨hopening, fun c hc => ?_⟩
  rcases List.mem_append.mp hc with hc | hc
  · exact scalar_intercalate h c hc
  · rw [List.mem_singleton.mp hc]
    exact hclosing

/-- **The canonical text of a valid value reads back.** -/
theorem returns (v : Wire Units) : Returns format v := by
  induction v using Wire.ind with
  | null =>
    rintro text - ⟨⟩
    exact ⟨by decide, ⟨110, _, rfl, by decide⟩, .null, JsonText.reads_word.1, rfl⟩
  | bool b =>
    rintro text - h
    cases b with
    | true =>
      cases h
      exact ⟨by decide, ⟨116, _, rfl, by decide⟩, .bool true, JsonText.reads_word.2.1, rfl⟩
    | false =>
      cases h
      exact ⟨by decide, ⟨102, _, rfl, by decide⟩, .bool false, JsonText.reads_word.2.2, rfl⟩
  | int n =>
    intro text hvalid h
    obtain ⟨hscalar, hopens, hback⟩ := canonicalInt_readBack format hvalid h
    exact ⟨hscalar, hopens, hback⟩
  | double x =>
    intro text hvalid h
    cases x with
    | finite x =>
      have h : (canonicalFloat format x).map points = .ok text := h
      cases hfloat : canonicalFloat format x with
      | error e =>
        rw [hfloat] at h
        cases h
      | ok s =>
        rw [hfloat] at h
        cases h
        obtain ⟨hscalar, hopens, hback⟩ := canonicalFloat_readBack format hfloat
        exact ⟨hscalar, hopens, hback⟩
    | inf neg => cases h
    | nan => cases h
  | str s =>
    intro text hvalid h
    cases h
    exact ⟨scalar_dumpString (scalar_of_valid hvalid), ⟨34, _, rfl, by decide⟩, _,
      JsonText.reads_str (spells_escapes (codePoints s)), rfl⟩
  | arr items ih =>
    intro text hvalid h
    obtain ⟨texts, htexts, h⟩ := bind_eq_ok.mp h
    cases h
    obtain ⟨hall, ts, hreads, hback⟩ := items_returns format ih hvalid htexts
    exact ⟨scalar_bracketed (by decide) (by decide) fun text ht => (hall text ht).1,
      ⟨91, _, rfl, by decide⟩, _, JsonText.reads_arr hreads fun text ht => (hall text ht).2,
      ts, rfl, hback⟩
  | obj members ih =>
    intro text hvalid h
    obtain ⟨entries, hentries, h⟩ := bind_eq_ok.mp h
    cases h
    obtain ⟨hall, ts, hreads, hback⟩ := members_returns format ih hvalid hentries
    have hperm := List.perm_insertionSort byKey entries
    -- the members are read in the order of their names
    obtain ⟨sorted, hsorted, hsortedPerm⟩ := List.perm_comp_forall₂ hperm hreads
    have hscalar : ∀ text ∈ (entries.insertionSort byKey).map Prod.snd, ∀ c ∈ text, IsScalar c := by
      intro text ht
      obtain ⟨e, he, rfl⟩ := List.mem_map.mp ht
      exact hall e (hperm.mem_iff.mp he)
    exact ⟨scalar_bracketed (by decide) (by decide) hscalar, ⟨123, _, rfl, by decide⟩, _,
      JsonText.reads_obj (List.forall₂_map_left_iff.mpr hsorted), sorted, ts, rfl, hsortedPerm,
      hback⟩

/-! ## Canonical bytes -/

theorem loads_canonicalizeV2 {v : JsonValue} {bytes : List UInt8}
    (h : canonicalizeV2 format v.onServer = .ok bytes) :
    ∃ t, JsonText.loads bytes = some t ∧ GivesBack AsBinary64 v.onServer t := by
  obtain ⟨_, -, h⟩ := bind_eq_ok.mp h
  obtain ⟨_, hvalid, h⟩ := bind_eq_ok.mp h
  obtain ⟨text, htext, h⟩ := bind_eq_ok.mp h
  cases h
  obtain ⟨hscalar, -, t, hreads, hback⟩ := returns format v.value text hvalid htext
  refine ⟨t, ?_, hback⟩
  rw [JsonText.loads, decodeUtf8_encodeUtf8 hscalar]
  exact JsonText.readText_of_reads hreads

/-- **Canonical bytes bind the whole value.** Read as JSON, with numbers as binary64, they give
it back, so that equal bytes come from equal values. -/
theorem canonicalizeV2_gives_back (v w : JsonValue) :
    (∀ bytes, canonicalizeV2 format v.onServer = .ok bytes →
      ∃ t, JsonText.loads bytes = some t ∧ GivesBack AsBinary64 v.onServer t)
    ∧ ∀ bytes, canonicalizeV2 format v.onServer = .ok bytes →
      canonicalizeV2 format w.onServer = .ok bytes → Same v.onServer w.onServer := by
  refine ⟨fun bytes h => loads_canonicalizeV2 format h, fun bytes hv hw => ?_⟩
  obtain ⟨t, hread, hback⟩ := loads_canonicalizeV2 format hv
  obtain ⟨t', hread', hback'⟩ := loads_canonicalizeV2 format hw
  cases hread.symm.trans hread'
  exact same_of_givesBack v.onServer w.onServer t hback hback'

/-! ## Whole numbers as they stand -/

/-- A decimal that does not begin with a zero has its point where its size says. -/
theorem decimalValue_ge {digits : Str} {position : Int}
    (hdigits : ∀ c ∈ digits, c.isDigit = true) (hne : digits ≠ [])
    (hhead : digits.head? ≠ some '0') : (10 : ℚ) ^ (position - 1) ≤ decimalValue digits position := by
  have hlen : 0 < digits.length := List.length_pos_iff.mpr hne
  have htext := toDigits_ofDigitChars_zero hdigits hne hhead
  have hge : 10 ^ (digits.length - 1) ≤ Nat.ofDigitChars 10 digits 0 := by
    by_contra hlt
    have hlt := not_le.mp hlt
    rcases Nat.lt_or_ge 1 digits.length with hlong | hshort
    · have := (Nat.length_toDigits_le_iff (b := 10) (by decide)
        (show 0 < digits.length - 1 by omega)).mpr hlt
      rw [htext] at this
      omega
    · have hone : digits.length - 1 = 0 := by omega
      rw [hone, pow_zero, Nat.lt_one_iff] at hlt
      rw [hlt] at htext
      have hzero : digits = ['0'] := htext.symm
      exact hhead (by rw [hzero]; rfl)
  have hgeq : (10 : ℚ) ^ ((digits.length - 1 : Nat) : Int) ≤ Nat.ofDigitChars 10 digits 0 := by
    rw [zpow_natCast]
    exact_mod_cast hge
  calc (10 : ℚ) ^ (position - 1)
      = 10 ^ ((digits.length - 1 : Nat) : Int) * (10 : ℚ) ^ (position - digits.length) := by
        rw [← zpow_add₀ (by norm_num)]
        congr 1
        omega
    _ ≤ decimalValue digits position := mul_le_mul_of_nonneg_right hgeq (by positivity)

/-- A whole number that is a binary64 number but not the shortest decimal of one. -/
def longNumber : JsonValue := ⟨.int 12345678901234567168, trivial⟩

/-- The same number, `6028163525993441 × 2¹¹`. -/
def longDouble : Binary64 := ⟨false, 6028163525993441, 11, by decide⟩

theorem longDouble_toRat : longDouble.toRat = 12345678901234567168 := by
  norm_num [longDouble, Binary64.toRat]

theorem longDouble_isolated (y : Binary64) (hne : y.toRat ≠ longDouble.toRat) :
    2048 ≤ |longDouble.toRat - y.toRat| := by
  rw [longDouble_toRat] at hne ⊢
  by_contra hnear
  obtain ⟨hlow, hhigh⟩ := abs_lt.mp (not_le.mp hnear)
  have hvalue := Binary64.toRat_of_nonneg (x := y) (by linarith)
  obtain ⟨hmant, hexpLow, hexpHigh, hnormal⟩ := y.canonical
  have hmantq : (y.mant : ℚ) < 2 ^ 53 := by exact_mod_cast hmant
  have hmantNonneg : (0 : ℚ) ≤ y.mant := by positivity
  -- with another exponent the number is out of the range between two powers of two
  have hexp : y.exp = 11 := by
    rcases lt_trichotomy y.exp 11 with hless | heq | hmore
    · have hpow : (2 : ℚ) ^ y.exp ≤ 2 ^ (10 : Int) := zpow_le_zpow_right₀ (by norm_num) (by omega)
      have hle : y.toRat ≤ 2 ^ 53 * 2 ^ (10 : Int) := by
        rw [hvalue]
        exact mul_le_mul hmantq.le hpow (by positivity) (by norm_num)
      norm_num at hle
      linarith
    · exact heq
    · have hpow : (2 : ℚ) ^ (12 : Int) ≤ 2 ^ y.exp := zpow_le_zpow_right₀ (by norm_num) (by omega)
      have hbig : (2 : ℚ) ^ 52 ≤ y.mant := by
        rcases hnormal with h | h
        · exact_mod_cast h
        · omega
      have hge : (2 : ℚ) ^ 52 * 2 ^ (12 : Int) ≤ y.toRat := by
        rw [hvalue]
        exact mul_le_mul hbig hpow (by positivity) hmantNonneg
      norm_num at hge
      linarith
  have hwhole : y.toRat = ((y.mant * 2048 : Nat) : ℚ) := by
    rw [hvalue, hexp]
    push_cast
    norm_num
  rw [hwhole] at hlow hhigh hne
  have hupper : y.mant * 2048 < 12345678901234567168 + 2048 := by
    have : ((y.mant * 2048 : Nat) : ℚ) < ((12345678901234567168 + 2048 : Nat) : ℚ) := by
      push_cast
      push_cast at hlow
      linarith
    exact_mod_cast this
  have hlower : 12345678901234567168 < y.mant * 2048 + 2048 := by
    have : ((12345678901234567168 : Nat) : ℚ) < ((y.mant * 2048 + 2048 : Nat) : ℚ) := by
      push_cast
      push_cast at hhigh
      linarith
    exact_mod_cast this
  exact hne (by exact_mod_cast (show y.mant * 2048 = 12345678901234567168 by omega))

theorem reads_longDouble {x : Binary64} (hx : x.toRat = longDouble.toRat) :
    Reads 12345678901234567000 x := by
  intro y
  rw [hx]
  by_cases hsame : y.toRat = longDouble.toRat
  · rw [hsame]
    exact ⟨le_refl _, fun _ => Or.inl rfl⟩
  · have hfar := longDouble_isolated y hsame
    have hclose : |12345678901234567000 - longDouble.toRat| = 168 := by
      rw [longDouble_toRat]
      norm_num
    have htriangle : |longDouble.toRat - y.toRat|
        ≤ |longDouble.toRat - 12345678901234567000| + |12345678901234567000 - y.toRat| :=
      abs_sub_le _ _ _
    rw [abs_sub_comm longDouble.toRat 12345678901234567000, hclose] at htriangle
    rw [hclose]
    exact ⟨by linarith, fun heq => by linarith⟩

/-- It is printed as twenty digits, of which the last three are zeros. -/
theorem longDouble_text {x : Binary64} (hx : x.toRat = longDouble.toRat) {digits : Str}
    {position : Int} (h : IsShortest x digits position) : position = 20 ∧ digits.length ≤ 17 := by
  have hlength : digits.length ≤ 17 := by
    refine h.minimal "12345678901234567".toList 20 (by simp) ?_
    have hvalue : decimalValue "12345678901234567".toList 20 = 12345678901234567000 := by
      have hdigits : Nat.ofDigitChars 10 "12345678901234567".toList 0 = 12345678901234567 := rfl
      have hexp : (20 : Int) - ("12345678901234567".toList.length : Nat) = 3 := rfl
      rw [decimalValue, hdigits, hexp]
      norm_num
    rw [hvalue]
    exact reads_longDouble hx
  refine ⟨?_, hlength⟩
  -- between its neighbours a decimal has twenty digits before the point
  have hneighbour : ∀ m : Nat, m < 2 ^ 53 → 2 ^ 52 ≤ m → ∃ y : Binary64, y.toRat = m * 2048 := by
    intro m hm hm'
    refine ⟨⟨false, m, 11, hm, by omega, by omega, Or.inl hm'⟩, ?_⟩
    norm_num [Binary64.toRat]
  have hlow : 12345678901234565120 ≤ decimalValue digits position := by
    by_contra hlt
    have hlt := not_le.mp hlt
    obtain ⟨y, hy⟩ := hneighbour 6028163525993440 (by norm_num) (by norm_num)
    refine h.reads.not_between ⟨y, rfl⟩ ?_
    rw [hy, hx, longDouble_toRat, abs_sub_comm, abs_sub_comm (decimalValue digits position),
      abs_of_pos (by push_cast; linarith), abs_of_pos (by linarith)]
    push_cast
    linarith
  have hhigh : decimalValue digits position ≤ 12345678901234569216 := by
    by_contra hgt
    have hgt := not_le.mp hgt
    obtain ⟨y, hy⟩ := hneighbour 6028163525993442 (by norm_num) (by norm_num)
    refine h.reads.not_between ⟨y, rfl⟩ ?_
    rw [hy, hx, longDouble_toRat, abs_of_pos (by push_cast; linarith), abs_of_pos (by linarith)]
    push_cast
    linarith
  have hbelow := @decimalValue_lt digits position h.isDigit
  have habove := @decimalValue_ge digits position h.isDigit h.ne_nil h.head
  have hgt : 19 < position := by
    by_contra hle
    have hpow : (10 : ℚ) ^ position ≤ 10 ^ (19 : Int) := zpow_le_zpow_right₀ (by norm_num) (by omega)
    norm_num at hpow
    linarith
  have hlt : position - 1 < 20 := by
    by_contra hge
    have hpow : (10 : ℚ) ^ (20 : Int) ≤ 10 ^ (position - 1) :=
      zpow_le_zpow_right₀ (by norm_num) (by omega)
    norm_num at hpow
    linarith
  omega

/-- A reader that takes whole numbers as they stand gets another number back. -/
theorem loads_another_number : ¬ ∀ (format : DecimalFormat) (v : JsonValue) (bytes : List UInt8),
    canonicalizeV2 format v.onServer = .ok bytes →
      ∃ t, JsonText.loads bytes = some t ∧ GivesBack AsWritten v.onServer t := by
  intro hall
  obtain ⟨format⟩ := (inferInstance : Nonempty DecimalFormat)
  have hlong : longDouble.toRat = ((12345678901234567168 : Int) : ℚ) := by
    rw [longDouble_toRat]
    norm_num
  obtain ⟨y, hy, hvalue⟩ := format.ofInt_exact _ _ hlong
  obtain ⟨hmant, habs, hsign⟩ := toRat_abs hvalue (by decide)
  have hneg : y.neg = false := by
    rw [← Bool.not_eq_true, hsign]
    decide
  have hyabs : y.abs.toRat = longDouble.toRat := by
    rw [Binary64.abs_of_not_neg hneg, hvalue, hlong]
  have h := format.shortest y.abs rfl hmant
  obtain ⟨hposition, hlength⟩ := longDouble_text hyabs h
  generalize hdigits : format.digits y.abs = digits at h hlength
  -- the text is the digits with zeros behind
  have hunsafe : ¬ IsSafe 12345678901234567168 := by decide
  have htext : signedText format y = digits ++ List.replicate (20 - digits.length) '0' := by
    have hzeros : (20 - (digits.length : Int)).toNat = 20 - digits.length := by omega
    rw [signedText, hneg, hdigits, hposition, numberText, if_neg Bool.false_ne_true,
      if_pos (by decide), if_pos (by omega), hzeros, List.nil_append]
  have hbytes : canonicalizeV2 format longNumber.onServer
      = .ok (encodeUtf8 (points (signedText format y))) := by
    have hvalid : validateJson format longNumber.onServer = .ok () := by
      show validateInt format 12345678901234567168 = _
      rw [validateInt, if_neg hunsafe, hy]
      exact if_pos hvalue
    have hcanonical : canonicalText format longNumber.onServer
        = .ok (points (signedText format y)) := by
      show canonicalInt format 12345678901234567168 = _
      rw [canonicalInt, if_neg hunsafe, hy]
      show (canonicalFloat format y).map points = _
      rw [canonicalFloat_eq format hmant]
      rfl
    rw [canonicalizeV2, hvalid, hcanonical]
    rfl
  generalize hzeros : 20 - digits.length = zeros at htext
  have hwhole : ∀ c ∈ digits ++ List.replicate zeros '0', c.isDigit = true := fun c hc =>
    (List.mem_append.mp hc).elim (h.isDigit c) fun hc => List.eq_of_mem_replicate hc ▸ rfl
  have hne : digits ++ List.replicate zeros '0' ≠ [] := List.append_ne_nil_of_left_ne_nil h.ne_nil _
  have hhead : (digits ++ List.replicate zeros '0').head? ≠ some '0' := by
    rw [List.head?_append_of_ne_nil _ h.ne_nil]
    exact h.head
  have hread := (@reads_of_parts (digits ++ List.replicate zeros '0')
    (digits ++ List.replicate zeros '0') [] [] none (by simp [JsonText.fractionText, points])
    (isWhole_points hwhole hne hhead) (by simp) .absent).1
  obtain ⟨t, hloads, hback⟩ := hall format longNumber _ hbytes
  have hscalar := scalar_of_ascii fun c hc => ascii_of_isDigit (hwhole c hc)
  rw [htext, JsonText.loads, decodeUtf8_encodeUtf8 hscalar] at hloads
  have hloads : some _ = some t := (JsonText.readText_of_reads hread).symm.trans hloads
  cases hloads
  -- what is read is a multiple of a thousand
  have hnumber : (12345678901234567168 : ℚ)
      = ((1 * (JsonText.digitsValue (points (digits ++ List.replicate zeros '0')) : Int) : Int) : ℚ) := by
    have hempty : points [] = [] := rfl
    simpa [JsonText.Decimal.value, GivesBack, JsonValue.onServer, longNumber, Wire.map, NumberBack,
      AsWritten, hempty] using hback
  rw [digitsValue_points, Nat.ofDigitChars_append, Nat.ofDigitChars_replicate_zero, one_mul] at hnumber
  have hnat : 12345678901234567168 = 10 ^ zeros * Nat.ofDigitChars 10 digits 0 := by
    exact_mod_cast hnumber
  have hdvd : 1000 ∣ 12345678901234567168 := by
    rw [hnat]
    exact Dvd.dvd.mul_right (pow_dvd_pow 10 (show 3 ≤ zeros by omega)) _
  exact absurd hdvd (by decide)

end Ai00.Connector
