import Ai00.Revision.Models

/-! # Content addresses

Two documents with the same address have the same normal form (`addressOf_inj`), and so agree
field by field (`normalizeJson_field_eq`). A commit identifier therefore determines the
repository, the snapshot and, when they are identifiers themselves, the parents of the commit.
It determines the message only up to Unicode normalization, and says nothing about the time.
-/

namespace Ai00.Revision

open Json

variable {pf : Platform}

/-! ## Equal addresses, equal documents -/

theorem canonicalJsonBytes_eq {d d' : Json} {data : List UInt8}
    (h : canonicalJsonBytes pf d = .ok data) (h' : canonicalJsonBytes pf d' = .ok data) :
    ∃ w, normalizeJson pf d = .ok w ∧ normalizeJson pf d' = .ok w := by
  obtain ⟨w, hw, heq⟩ := bind_eq_ok.mp h
  obtain ⟨w', hw', heq'⟩ := bind_eq_ok.mp h'
  have hbytes : utf8 (dumps pf.floatRepr w) = utf8 (dumps pf.floatRepr w') :=
    (Except.ok.inj heq).trans (Except.ok.inj heq').symm
  have hsame : w = w' := dumps_injective pf (normal_of_normalizeJson pf hw)
    (normal_of_normalizeJson pf hw') (utf8_injective hbytes)
  exact ⟨w, hw, by rw [hsame, hw']⟩

theorem addressOf_inj {tag : String} {n : Nat} {d d' : Json} {i : Str}
    (h : addressOf pf tag n d = .ok i) (h' : addressOf pf tag n d' = .ok i) :
    ∃ w, normalizeJson pf d = .ok w ∧ normalizeJson pf d' = .ok w := by
  obtain ⟨data, hdata, heq⟩ := bind_eq_ok.mp h
  obtain ⟨data', hdata', heq'⟩ := bind_eq_ok.mp h'
  have hdigest : pf.digest n data = pf.digest n data' :=
    List.append_cancel_left ((Except.ok.inj heq).trans (Except.ok.inj heq').symm)
  rw [← pf.digest_injective n hdigest] at hdata'
  exact canonicalJsonBytes_eq hdata hdata'

/-- The loop over the fields keeps every value it has stored, and stores every value. -/
theorem normalizeFields_get? {fs acc gs : List (Str × Json)}
    (h : normalizeFields pf acc fs = .ok gs) :
    (∀ k w, Dict.get? acc k = some w → Dict.get? gs k = some w)
      ∧ ∀ e ∈ fs, ∃ w, normalizeJson pf e.2 = .ok w ∧ Dict.get? gs (pf.nfc e.1) = some w := by
  induction fs generalizing acc with
  | nil =>
    cases h
    exact ⟨fun k w hk => hk, fun e he => by cases he⟩
  | cons e fs ih =>
    obtain ⟨k, v⟩ := e
    rw [normalizeFields] at h
    split_ifs at h with hdup
    obtain ⟨w, hw, hrest⟩ := bind_eq_ok.mp h
    obtain ⟨hkeep, hall⟩ := ih hrest
    refine ⟨fun q u hq => ?_, fun e he => ?_⟩
    · have hne : q ≠ pf.nfc k := by
        rintro rfl
        exact hdup ((Dict.mem_keys_iff _ _).mpr ⟨u, hq⟩)
      exact hkeep q u (by rw [Dict.get?_insert_of_ne _ _ hne, hq])
    · rcases List.mem_cons.mp he with rfl | he
      · exact ⟨w, hw, hkeep _ _ (Dict.get?_insert_self _ _ _)⟩
      · exact hall e he

/-- Two objects with one normal form agree in every field they share. -/
theorem normalizeJson_field_eq {fs gs : List (Str × Json)} {w : Json}
    (hf : normalizeJson pf (.obj fs) = .ok w) (hg : normalizeJson pf (.obj gs) = .ok w) {k : Str}
    {u v : Json} (hu : (k, u) ∈ fs) (hv : (k, v) ∈ gs) :
    ∃ x, normalizeJson pf u = .ok x ∧ normalizeJson pf v = .ok x := by
  rw [normalizeJson, bind_eq_ok] at hf hg
  obtain ⟨nf, hnf, hf⟩ := hf
  obtain ⟨ng, hng, hg⟩ := hg
  have hsame : nf = ng := by
    have h := (Except.ok.inj hf).trans (Except.ok.inj hg).symm
    exact Json.obj.inj h
  subst hsame
  obtain ⟨x, hx, hgetx⟩ := (normalizeFields_get? hnf).2 _ hu
  obtain ⟨y, hy, hgety⟩ := (normalizeFields_get? hng).2 _ hv
  rw [hgetx] at hgety
  cases hgety
  exact ⟨x, hx, hy⟩

theorem normalizeJson_str_eq {s t : Str} {x : Json} (hs : normalizeJson pf (.str s) = .ok x)
    (ht : normalizeJson pf (.str t) = .ok x) : pf.nfc s = pf.nfc t := by
  rw [normalizeJson] at hs ht
  exact Json.str.inj ((Except.ok.inj hs).trans (Except.ok.inj ht).symm)

/-! ## ASCII names -/

def Ascii (s : Str) : Prop := ∀ c ∈ s, c.toNat < 128

theorem Ascii.nfc {s : Str} (h : Ascii s) : pf.nfc s = s := pf.nfc_ascii s h

theorem Ascii.append {s t : Str} (hs : Ascii s) (ht : Ascii t) : Ascii (s ++ t) := by
  intro c hc
  rcases List.mem_append.mp hc with hc | hc
  · exact hs c hc
  · exact ht c hc

theorem ascii_of_isAlphanum {c : Char} (h : c.isAlphanum = true) : c.toNat < 128 := by
  simp only [Char.isAlphanum, Char.isAlpha, Char.isUpper, Char.isLower, Char.isDigit,
    Bool.or_eq_true, Bool.and_eq_true, decide_eq_true_eq, UInt32.le_iff_toNat_le] at h
  have htoNat : c.toNat = c.val.toNat := rfl
  have h90 : 'Z'.val.toNat = 90 := rfl
  have h122 : 'z'.val.toNat = 122 := rfl
  have h57 : '9'.val.toNat = 57 := rfl
  omega

theorem ascii_of_matchesName {first rest : Char → Bool} {lo hi : Nat} {s : Str}
    (hfirst : ∀ c, first c = true → c.toNat < 128) (hrest : ∀ c, rest c = true → c.toNat < 128)
    (h : matchesName first rest lo hi s = true) : Ascii s := by
  cases s with
  | nil => cases h
  | cons c s =>
    simp only [matchesName, Bool.and_eq_true, List.all_eq_true] at h
    intro d hd
    rcases List.mem_cons.mp hd with rfl | hd
    · exact hfirst d h.1.1.1
    · exact hrest d (h.1.1.2 d hd)

theorem ascii_of_isIdentity {s : Str} (h : isIdentity s = true) : Ascii s := by
  have hmarks : ∀ c ∈ "-_.:@/".toList, c.toNat < 128 := by simp
  refine ascii_of_matchesName (fun c hc => ascii_of_isAlphanum hc) (fun c hc => ?_) h
  rcases Bool.or_eq_true _ _ |>.mp hc with hc | hc
  · exact ascii_of_isAlphanum hc
  · exact hmarks c (List.contains_iff_mem.mp hc)

theorem ascii_of_isTypeName {s : Str} (h : isTypeName s = true) : Ascii s := by
  have halnum : ∀ c : Char, c.isLower = true ∨ c.isDigit = true → c.isAlphanum = true := by
    intro c hc
    simp only [Char.isAlphanum, Char.isAlpha, Bool.or_eq_true]
    tauto
  refine ascii_of_matchesName (fun c hc => ascii_of_isAlphanum (halnum c (Or.inl hc)))
    (fun c hc => ?_) h
  simp only [Bool.or_eq_true, beq_iff_eq] at hc
  rcases hc with (((hc | hc) | rfl) | rfl) | rfl
  · exact ascii_of_isAlphanum (halnum c (Or.inl hc))
  · exact ascii_of_isAlphanum (halnum c (Or.inr hc))
  · decide
  · decide
  · decide

theorem ascii_digest (n : Nat) (data : List UInt8) : Ascii (pf.digest n data) :=
  pf.digest_ascii n data

theorem Commit.commitId_ne_nil (c : Commit pf) : c.commitId ≠ [] := by
  obtain ⟨data, -, heq⟩ := bind_eq_ok.mp c.valid.address
  rw [← Except.ok.inj heq]
  simp

theorem Snapshot.ascii_snapshotId (s : Snapshot pf) : Ascii s.snapshotId := by
  obtain ⟨data, -, -, hid, -⟩ := s.addressed.2
  rw [hid]
  exact Ascii.append (by simp [Ascii]) (ascii_digest 32 data)

/-! ## What an identifier determines -/

theorem RepositoryRef.eq_of_normalizeJson {r r' : RepositoryRef} {x : Json}
    (h : normalizeJson pf r.document = .ok x) (h' : normalizeJson pf r'.document = .ok x) :
    r = r' := by
  obtain ⟨ht, hr, ho, hs⟩ := r.wellFormed
  obtain ⟨ht', hr', ho', hs'⟩ := r'.wellFormed
  have hfield : ∀ {k : Str} {s t : Str}, Ascii s → Ascii t →
      (∀ fs, r.document = .obj fs → (k, Json.str s) ∈ fs) →
      (∀ fs, r'.document = .obj fs → (k, Json.str t) ∈ fs) → s = t := by
    intro k s t hsa hta hs ht
    obtain ⟨y, hy, hy'⟩ := normalizeJson_field_eq h h' (hs _ rfl) (ht _ rfl)
    have hnfc := normalizeJson_str_eq hy hy'
    rwa [hsa.nfc, hta.nfc] at hnfc
  have h₁ : r.tenantId = r'.tenantId :=
    hfield (k := "tenant_id".toList) (ascii_of_isIdentity ht) (ascii_of_isIdentity ht')
      (fun fs hfs => by cases hfs; simp) (fun fs hfs => by cases hfs; simp)
  have h₂ : r.repositoryId = r'.repositoryId :=
    hfield (k := "repository_id".toList) (ascii_of_isIdentity hr) (ascii_of_isIdentity hr')
      (fun fs hfs => by cases hfs; simp) (fun fs hfs => by cases hfs; simp)
  have h₃ : r.ownerDomain = r'.ownerDomain :=
    hfield (k := "owner_domain".toList) (ascii_of_isTypeName ho) (ascii_of_isTypeName ho')
      (fun fs hfs => by cases hfs; simp) (fun fs hfs => by cases hfs; simp)
  have h₄ : r.resourceId = r'.resourceId :=
    hfield (k := "resource_id".toList) (ascii_of_isIdentity hs) (ascii_of_isIdentity hs')
      (fun fs hfs => by cases hfs; simp) (fun fs hfs => by cases hfs; simp)
  obtain ⟨t, i, o, s, hw⟩ := r
  obtain ⟨t', i', o', s', hw'⟩ := r'
  simp only at h₁ h₂ h₃ h₄
  subst h₁ h₂ h₃ h₄
  rfl

section

variable {c c' : Commit pf}

theorem Commit.normal_eq (h : c.commitId = c'.commitId) :
    ∃ w, normalizeJson pf (commitDocument c.repository c.parentIds c.snapshot.snapshotId
        c.snapshot.contentHash c.authorId c.message) = .ok w
      ∧ normalizeJson pf (commitDocument c'.repository c'.parentIds c'.snapshot.snapshotId
        c'.snapshot.contentHash c'.authorId c'.message) = .ok w :=
  addressOf_inj c.valid.address (h ▸ c'.valid.address)

/-- **An identifier names commits of one repository.** -/
theorem Commit.repository_eq (h : c.commitId = c'.commitId) : c.repository = c'.repository := by
  obtain ⟨w, hw, hw'⟩ := Commit.normal_eq h
  obtain ⟨x, hx, hx'⟩ := normalizeJson_field_eq hw hw' (k := "repository".toList)
    (u := c.repository.document) (v := c'.repository.document) (by simp) (by simp)
  exact RepositoryRef.eq_of_normalizeJson hx hx'

theorem Commit.snapshotId_eq (h : c.commitId = c'.commitId) :
    c.snapshot.snapshotId = c'.snapshot.snapshotId := by
  obtain ⟨w, hw, hw'⟩ := Commit.normal_eq h
  obtain ⟨x, hx, hx'⟩ := normalizeJson_field_eq hw hw' (k := "snapshot_id".toList)
    (u := .str c.snapshot.snapshotId) (v := .str c'.snapshot.snapshotId) (by simp) (by simp)
  have hnfc := normalizeJson_str_eq hx hx'
  rwa [c.snapshot.ascii_snapshotId.nfc, c'.snapshot.ascii_snapshotId.nfc] at hnfc

end

theorem Snapshot.contentHash_eq_iff {s s' : Snapshot pf} :
    s.contentHash = s'.contentHash ↔ s.snapshotId = s'.snapshotId := by
  obtain ⟨data, -, hhash, hid, -⟩ := s.addressed.2
  obtain ⟨data', -, hhash', hid', -⟩ := s'.addressed.2
  rw [hhash, hhash', hid, hid']
  constructor
  · intro h
    rw [pf.digest_injective 64 (List.append_cancel_left h)]
  · intro h
    rw [pf.digest_injective 32 (List.append_cancel_left h)]

end Ai00.Revision
