import Ai00.Basic.Utf16

/-! # Reading UTF-8

A decoder that accepts only the shortest form of a code point and no surrogates. What
`encodeUtf8` writes it reads back (`decodeUtf8_encodeUtf8`).
-/

namespace Ai00

/-- A code point that is not half of a pair. -/
def IsScalar (c : Nat) : Prop := c < 0x110000 ∧ ¬ IsSurrogate c

instance : DecidablePred IsScalar := fun c =>
  inferInstanceAs (Decidable (c < 0x110000 ∧ ¬ IsSurrogate c))

/-- How many bytes a code point takes that begins with this one. -/
def utf8Width (lead : Nat) : Nat :=
  if lead < 0x80 then 1 else if lead < 0xE0 then 2 else if lead < 0xF0 then 3 else 4

/-- What the first byte adds to the number. -/
def leadBits (lead : Nat) : Nat :=
  if lead < 0x80 then lead else if lead < 0xE0 then lead % 0x20
  else if lead < 0xF0 then lead % 0x10 else lead % 0x08

/-- The first code point, when the bytes are the ones it is encoded by. -/
def readPoint : List UInt8 → Option (Nat × List UInt8)
  | [] => none
  | lead :: rest =>
    let more := rest.take (utf8Width lead.toNat - 1)
    let c := more.foldl (fun n b => n * 0x40 + b.toNat % 0x40) (leadBits lead.toNat)
    if IsScalar c ∧ utf8Bytes c = lead :: more then
      some (c, rest.drop (utf8Width lead.toNat - 1))
    else none

def readPoints : Nat → List UInt8 → Option Points
  | _, [] => some []
  | 0, _ :: _ => none
  | fuel + 1, bytes => do
    let (c, rest) ← readPoint bytes
    return c :: (← readPoints fuel rest)

/-- `bytes.decode("utf-8")`. -/
def decodeUtf8 (bytes : List UInt8) : Option Points := readPoints bytes.length bytes

theorem readPoint_utf8Bytes {c : Nat} (h : IsScalar c) (rest : List UInt8) :
    readPoint (utf8Bytes c ++ rest) = some (c, rest) := by
  have hsmall := h.1
  -- a read gives the point back once its width and its bits are known
  have key : ∀ lead more, utf8Bytes c = lead :: more → utf8Width lead.toNat = more.length + 1 →
      more.foldl (fun n b => n * 0x40 + b.toNat % 0x40) (leadBits lead.toNat) = c →
      readPoint (utf8Bytes c ++ rest) = some (c, rest) := by
    intro lead more hbytes hwidth hvalue
    rw [hbytes, List.cons_append, readPoint]
    simp only [hwidth, Nat.add_sub_cancel, List.take_left, List.drop_left, hvalue]
    rw [if_pos ⟨h, hbytes⟩]
  by_cases h1 : c < 0x80
  · refine key c.toUInt8 [] (by rw [utf8Bytes, if_pos h1]) ?_ ?_
    all_goals
      have hlead : (c.toUInt8).toNat = c := by
        rw [Nat.toUInt8, UInt8.toNat_ofNat']
        omega
      simp [utf8Width, leadBits, hlead, h1]
  have hbyte : ∀ n, n < 0x100 → (n.toUInt8).toNat = n := by
    intro n hn
    rw [Nat.toUInt8, UInt8.toNat_ofNat']
    omega
  by_cases h2 : c < 0x800
  · refine key _ _ (by rw [utf8Bytes, if_neg h1, if_pos h2]) ?_ ?_
    · rw [hbyte _ (by omega), utf8Width, if_neg (by omega), if_pos (by omega)]
      rfl
    · simp only [List.foldl_cons, List.foldl_nil]
      rw [hbyte _ (by omega), hbyte _ (by omega), leadBits, if_neg (by omega), if_pos (by omega)]
      omega
  by_cases h3 : c < 0x10000
  · refine key _ _ (by rw [utf8Bytes, if_neg h1, if_neg h2, if_pos h3]) ?_ ?_
    · rw [hbyte _ (by omega), utf8Width, if_neg (by omega), if_neg (by omega), if_pos (by omega)]
      rfl
    · simp only [List.foldl_cons, List.foldl_nil]
      rw [hbyte _ (by omega), hbyte _ (by omega), hbyte _ (by omega), leadBits, if_neg (by omega),
        if_neg (by omega), if_pos (by omega)]
      omega
  · refine key _ _ (by rw [utf8Bytes, if_neg h1, if_neg h2, if_neg h3]) ?_ ?_
    · rw [hbyte _ (by omega), utf8Width, if_neg (by omega), if_neg (by omega), if_neg (by omega)]
      rfl
    · simp only [List.foldl_cons, List.foldl_nil]
      rw [hbyte _ (by omega), hbyte _ (by omega), hbyte _ (by omega), hbyte _ (by omega), leadBits,
        if_neg (by omega), if_neg (by omega), if_neg (by omega)]
      omega

theorem utf8Bytes_ne_nil (c : Nat) : utf8Bytes c ≠ [] := by
  unfold utf8Bytes
  split_ifs <;> exact List.cons_ne_nil _ _

theorem length_le_encodeUtf8 (text : Points) : text.length ≤ (encodeUtf8 text).length := by
  induction text with
  | nil => exact Nat.le_refl 0
  | cons c text ih =>
    have hc : 0 < (utf8Bytes c).length := List.length_pos_iff.mpr (utf8Bytes_ne_nil c)
    rw [encodeUtf8, List.flatMap_cons, List.length_append, List.length_cons]
    have : text.length ≤ (text.flatMap utf8Bytes).length := ih
    omega

theorem readPoints_encodeUtf8 {text : Points} (h : ∀ c ∈ text, IsScalar c) :
    ∀ fuel, text.length ≤ fuel → readPoints fuel (encodeUtf8 text) = some text := by
  induction text with
  | nil =>
    intro fuel _
    cases fuel <;> rfl
  | cons c text ih =>
    intro fuel hfuel
    obtain ⟨hc, htext⟩ := List.forall_mem_cons.mp h
    rw [List.length_cons] at hfuel
    obtain ⟨fuel, rfl⟩ : ∃ k, fuel = k + 1 := ⟨fuel - 1, by omega⟩
    obtain ⟨lead, more, hbytes⟩ := List.exists_cons_of_ne_nil (utf8Bytes_ne_nil c)
    have hread := readPoint_utf8Bytes hc (encodeUtf8 text)
    have htail := ih htext fuel (by omega)
    rw [encodeUtf8, List.flatMap_cons]
    rw [hbytes] at hread ⊢
    rw [List.cons_append] at hread ⊢
    show (readPoint (lead :: (more ++ encodeUtf8 text))).bind _ = _
    rw [hread]
    show (readPoints fuel (encodeUtf8 text)).bind _ = _
    rw [htail]
    rfl

/-- **What is encoded is read back.** -/
theorem decodeUtf8_encodeUtf8 {text : Points} (h : ∀ c ∈ text, IsScalar c) :
    decodeUtf8 (encodeUtf8 text) = some text :=
  readPoints_encodeUtf8 h _ (length_le_encodeUtf8 text)

end Ai00
