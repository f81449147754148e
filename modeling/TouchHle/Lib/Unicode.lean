import Mathlib

/-! Texts as bytes, and the characters that bytes spell. -/

namespace TouchHle.Lib

open List Option Char

def utf8 (cs : List Char) : List UInt8 := cs.flatMap String.utf8EncodeChar

def fromUtf8 (bs : List UInt8) : Option (List Char) := bs.toByteArray.utf8Decode?.map Array.toList

def charFromU32 (code : ℕ) : Option Char :=
  if code.isValidChar then some (Char.ofNat code) else none

def secondByte (a b : UInt8) : Bool :=
  (a == 0xE0 && 0xA0 ≤ b && b ≤ 0xBF) || ((0xE1 ≤ a && a ≤ 0xEC || a == 0xEE || a == 0xEF) &&
    0x80 ≤ b && b ≤ 0xBF) || (a == 0xED && 0x80 ≤ b && b ≤ 0x9F) || (a == 0xF0 && 0x90 ≤ b &&
    b ≤ 0xBF) || (0xF1 ≤ a && a ≤ 0xF3 && 0x80 ≤ b && b ≤ 0xBF) || (a == 0xF4 && 0x80 ≤ b && b ≤ 0x8F)

def brokenLength : List UInt8 → ℕ
  | a :: b :: bs =>
    if secondByte a b then
      if 0xF0 ≤ a ∧ ∃ c ∈ bs.head?, 0x80 ≤ c ∧ c ≤ 0xBF then 3 else 2
    else 1
  | _ => 1

def fromUtf8Lossy (bs : List UInt8) : List Char := go bs.length bs
where
  go : ℕ → List UInt8 → List Char
    | 0, _ => []
    | _, [] => []
    | rounds + 1, b :: bs =>
      match (b :: bs).toByteArray.utf8DecodeChar? 0 with
      | some c => c :: go rounds ((b :: bs).drop c.utf8Size)
      | none => '\uFFFD' :: go rounds ((b :: bs).drop (brokenLength (b :: bs)))

def ascii (c : Char) : UInt8 := UInt8.ofNat c.toNat

variable {c : Char} {cs ds : List Char} {bs : List UInt8}

@[simp] lemma utf8_nil : utf8 [] = [] := rfl

lemma utf8_cons : utf8 (c :: cs) = String.utf8EncodeChar c ++ utf8 cs := rfl

@[simp] lemma utf8_append : utf8 (cs ++ ds) = utf8 cs ++ utf8 ds := flatMap_append

@[simp] lemma fromUtf8_utf8 : fromUtf8 (utf8 cs) = some cs := by
  have hencode : (utf8 cs).toByteArray = cs.utf8Encode := rfl
  rw [fromUtf8, hencode, utf8Decode?_utf8Encode]
  rfl

lemma utf8_of_fromUtf8 (h : fromUtf8 bs = some cs) : bs = utf8 cs := by
  obtain ⟨a, ha, rfl⟩ := map_eq_some_iff.mp h
  have hsome : bs.toByteArray.utf8Decode?.isSome := by rw [ha]; rfl
  have hencode := ByteArray.utf8Encode_get_utf8Decode? (h := hsome)
  simp only [ha, get_some] at hencode
  have hbytes : (utf8 a.toList).toByteArray = bs.toByteArray := hencode
  simpa using congrArg (fun b => b.data.toList) hbytes.symm

lemma fromUtf8_eq_some : fromUtf8 bs = some cs ↔ bs = utf8 cs :=
  ⟨utf8_of_fromUtf8, fun h => h ▸ fromUtf8_utf8⟩

lemma utf8_injective : Function.Injective utf8 := by
  intro cs ds h
  have hcs : fromUtf8 (utf8 cs) = some cs := fromUtf8_utf8
  rw [h, fromUtf8_utf8] at hcs
  exact (some.inj hcs).symm

lemma encode_ascii (h : c.toNat < 0x80) : String.utf8EncodeChar c = [ascii c] := by
  rw [String.utf8EncodeChar_eq_singleton]
  · rfl
  · rw [utf8Size_eq_one_iff, UInt32.le_iff_toNat_le]
    exact Nat.lt_succ_iff.mp h

lemma utf8EncodeChar_high (h : 0x80 ≤ c.toNat) : ∀ b ∈ String.utf8EncodeChar c, ¬ b.toNat < 0x80 := by
  have hor : ∀ x y : UInt8, 0x80 ≤ y → ¬ (x ||| y).toNat < 0x80 := by
    intro x y hy
    rw [UInt8.toNat_or, not_lt]
    exact (UInt8.le_iff_toNat_le.mp hy).trans Nat.right_le_or
  obtain hc | hc | hc | hc := c.utf8Size_eq
  · rw [utf8Size_eq_one_iff, UInt32.le_iff_toNat_le] at hc
    exact absurd hc (by change ¬ c.toNat ≤ 127; omega)
  · rw [String.utf8EncodeChar_eq_cons_cons hc]
    simp only [forall_mem_cons, not_mem_nil, false_implies, implies_true, and_true]
    exact ⟨hor _ _ (by decide), hor _ _ (by decide)⟩
  · rw [String.utf8EncodeChar_eq_cons_cons_cons hc]
    simp only [forall_mem_cons, not_mem_nil, false_implies, implies_true, and_true]
    exact ⟨hor _ _ (by decide), hor _ _ (by decide), hor _ _ (by decide)⟩
  · rw [String.utf8EncodeChar_eq_cons_cons_cons_cons hc]
    simp only [forall_mem_cons, not_mem_nil, false_implies, implies_true, and_true]
    exact ⟨hor _ _ (by decide), hor _ _ (by decide), hor _ _ (by decide), hor _ _ (by decide)⟩

lemma encode_high (h : 0x80 ≤ c.toNat) : ∃ b bs, String.utf8EncodeChar c = b :: bs ∧ 0x80 ≤ b := by
  have hlength : 0 < (String.utf8EncodeChar c).length := by
    rw [String.length_utf8EncodeChar]
    exact c.utf8Size_pos
  obtain ⟨b, bs, hb⟩ := exists_cons_of_length_pos hlength
  have hmem : b ∈ String.utf8EncodeChar c := hb ▸ mem_cons_self
  exact ⟨b, bs, hb, UInt8.le_iff_toNat_le.mpr (not_lt.mp (utf8EncodeChar_high h b hmem))⟩

lemma toNat_ascii (h : c.toNat < 0x80) : (ascii c).toNat = c.toNat := by
  rw [ascii, UInt8.toNat_ofNat']
  omega

def asChar (b : UInt8) : Char := Char.ofNat b.toNat

lemma toNat_asChar (b : UInt8) : (asChar b).toNat = b.toNat := by
  have hlt := b.toNat_lt
  have hvalid : b.toNat.isValidChar := .inl (by omega)
  rw [asChar, ofNat, dif_pos hvalid]
  rfl

@[simp] lemma ascii_asChar (b : UInt8) : ascii (asChar b) = b := by
  rw [ascii, toNat_asChar]
  exact UInt8.ofNat_toNat

lemma asChar_ascii (h : c.toNat < 0x80) : asChar (ascii c) = c := by
  rw [asChar, toNat_ascii h]
  exact ofNat_toNat c

lemma utf8_ascii (h : c.toNat < 0x80) : utf8 (c :: cs) = ascii c :: utf8 cs := by
  rw [utf8_cons, encode_ascii h]
  rfl

lemma utf8_asChar {b : UInt8} (h : b < 0x80) : utf8 (asChar b :: cs) = b :: utf8 cs := by
  rw [utf8_ascii, ascii_asChar]
  rw [toNat_asChar]
  exact UInt8.lt_iff_toNat_lt.mp h

lemma length_le_utf8 : cs.length ≤ (utf8 cs).length := by
  induction cs with
  | nil => exact le_rfl
  | cons c cs ih =>
    have hpos := c.utf8Size_pos
    rw [utf8_cons, length_append, String.length_utf8EncodeChar, length_cons]
    omega

lemma charFromU32_eq_some {n : ℕ} : charFromU32 n = some c ↔ c.toNat = n := by
  rw [charFromU32]
  constructor
  · intro h
    split_ifs at h with hvalid
    obtain rfl := some.inj h
    rw [ofNat, dif_pos hvalid]
    rfl
  · rintro rfl
    have hvalid : c.toNat.isValidChar := c.valid
    rw [if_pos hvalid]
    exact congrArg _ (ofNat_toNat c)

lemma charFromU32_toNat (c : Char) : charFromU32 c.toNat = some c := charFromU32_eq_some.mpr rfl

lemma go_utf8 (cs : List Char) : ∀ rounds, cs.length ≤ rounds →
    fromUtf8Lossy.go rounds (utf8 cs) = cs := by
  induction cs with
  | nil =>
    intro rounds _
    cases rounds <;> rfl
  | cons c cs ih =>
    intro rounds h
    obtain ⟨rounds, rfl⟩ : ∃ n, rounds = n + 1 := Nat.exists_eq_add_one.mpr (by simp at h; omega)
    have hdecode : (utf8 (c :: cs)).toByteArray.utf8DecodeChar? 0 = some c :=
      utf8DecodeChar?_utf8Encode_cons
    have hdrop : (utf8 (c :: cs)).drop c.utf8Size = utf8 cs := by
      rw [utf8_cons, ← String.length_utf8EncodeChar, drop_left]
    have hne : utf8 (c :: cs) ≠ [] := by
      intro hnil
      have hlen : (c :: cs).length ≤ _ := length_le_utf8
      simp [hnil] at hlen
    obtain ⟨b, bs, hb⟩ := exists_cons_of_ne_nil hne
    rw [hb] at hdecode hdrop
    rw [hb, fromUtf8Lossy.go, hdecode]
    simp only [hdrop]
    rw [ih rounds (by simpa using h)]

lemma fromUtf8Lossy_utf8 (cs : List Char) : fromUtf8Lossy (utf8 cs) = cs :=
  go_utf8 cs _ length_le_utf8

def utf16Char (c : Char) : List UInt16 :=
  if c.toNat < 0x10000 then [UInt16.ofNat c.toNat]
  else [UInt16.ofNat (0xD800 + (c.toNat - 0x10000) / 2 ^ 10), UInt16.ofNat (0xDC00 + (c.toNat - 0x10000) % 2 ^ 10)]

def utf16 (cs : List Char) : List UInt16 := cs.flatMap utf16Char

def fromUtf16 : List UInt16 → Option (List Char)
  | [] => some []
  | u :: us =>
    if u < 0xD800 ∨ 0xDFFF < u then (fromUtf16 us).map (Char.ofNat u.toNat :: ·)
    else if u < 0xDC00 then
      match us with
      | [] => none
      | l :: us =>
        if 0xDC00 ≤ l ∧ l ≤ 0xDFFF then
          (fromUtf16 us).map
            (Char.ofNat (0x10000 + (u.toNat - 0xD800) * 2 ^ 10 + (l.toNat - 0xDC00)) :: ·)
        else none
    else none

variable {c : Char} {cs ds : List Char} {us : List UInt16}

@[simp] lemma utf16_nil : utf16 [] = [] := rfl

lemma utf16_cons : utf16 (c :: cs) = utf16Char c ++ utf16 cs := rfl

@[simp] lemma utf16_append : utf16 (cs ++ ds) = utf16 cs ++ utf16 ds := flatMap_append

lemma toNat_ofNat {n : ℕ} (h : n.isValidChar) : (ofNat n).toNat = n := by
  rw [ofNat, dif_pos h]
  rfl

lemma toNat_lt_or (c : Char) : c.toNat < 0xD800 ∨ 0xDFFF < c.toNat ∧ c.toNat < 0x110000 := c.valid

lemma fromUtf16_cons {u : UInt16} (h : u.toNat < 0xD800 ∨ 0xDFFF < u.toNat) :
    fromUtf16 (u :: us) = (fromUtf16 us).map (ofNat u.toNat :: ·) := by
  have hu : u < 0xD800 ∨ 0xDFFF < u := by
    rw [UInt16.lt_iff_toNat_lt, UInt16.lt_iff_toNat_lt]
    exact h
  rw [fromUtf16.eq_def]
  exact if_pos hu

lemma fromUtf16_pair {u l : UInt16} (hu : 0xD800 ≤ u.toNat ∧ u.toNat < 0xDC00)
    (hl : 0xDC00 ≤ l.toNat ∧ l.toNat < 0xE000) : fromUtf16 (u :: l :: us) = (fromUtf16 us).map
      (ofNat (0x10000 + (u.toNat - 0xD800) * 2 ^ 10 + (l.toNat - 0xDC00)) :: ·) := by
  have hno : ¬ (u < 0xD800 ∨ 0xDFFF < u) := by
    rw [UInt16.lt_iff_toNat_lt, UInt16.lt_iff_toNat_lt]
    change ¬ (u.toNat < 0xD800 ∨ 0xDFFF < u.toNat)
    omega
  have hhigh : u < 0xDC00 := UInt16.lt_iff_toNat_lt.mpr hu.2
  have hlow : 0xDC00 ≤ l ∧ l ≤ 0xDFFF := by
    rw [UInt16.le_iff_toNat_le, UInt16.le_iff_toNat_le]
    exact ⟨hl.1, Nat.lt_succ_iff.mp hl.2⟩
  rw [fromUtf16, if_neg hno, if_pos hhigh]
  exact if_pos hlow

@[simp] lemma fromUtf16_utf16 : fromUtf16 (utf16 cs) = some cs := by
  induction cs with
  | nil => rfl
  | cons c cs ih =>
    have hvalid := toNat_lt_or c
    rw [utf16_cons, utf16Char]
    split_ifs with hsmall
    · have hu : (UInt16.ofNat c.toNat).toNat = c.toNat := by
        rw [UInt16.toNat_ofNat']
        exact Nat.mod_eq_of_lt hsmall
      have hsingle : (UInt16.ofNat c.toNat).toNat < 0xD800 ∨ 0xDFFF < (UInt16.ofNat c.toNat).toNat := by
        rw [hu]
        exact hvalid.imp_right And.left
      rw [singleton_append, fromUtf16_cons hsingle, hu, ih, ofNat_toNat]
      rfl
    · obtain ⟨n, hn⟩ : ∃ n, n = c.toNat - 0x10000 := ⟨_, rfl⟩
      have hnlt : n < 2 ^ 20 := by omega
      rw [← hn]
      have hu : (UInt16.ofNat (0xD800 + n / 2 ^ 10)).toNat = 0xD800 + n / 2 ^ 10 := by
        rw [UInt16.toNat_ofNat']
        omega
      have hl : (UInt16.ofNat (0xDC00 + n % 2 ^ 10)).toNat = 0xDC00 + n % 2 ^ 10 := by
        rw [UInt16.toNat_ofNat']
        omega
      rw [cons_append, singleton_append, fromUtf16_pair (by omega) (by omega), hu, hl, ih]
      have hcode : 0x10000 + (0xD800 + n / 2 ^ 10 - 0xD800) * 2 ^ 10 + (0xDC00 + n % 2 ^ 10 - 0xDC00) = c.toNat := by
        omega
      rw [hcode, ofNat_toNat]
      rfl

lemma utf16_of_fromUtf16 : ∀ {us : List UInt16} {cs : List Char}, fromUtf16 us = some cs → us = utf16 cs := by
  intro us
  induction us using fromUtf16.induct with
  | case1 =>
    intro cs h
    obtain rfl := some.inj h
    rfl
  | case2 u us hu ih =>
    intro cs h
    rw [UInt16.lt_iff_toNat_lt, UInt16.lt_iff_toNat_lt] at hu
    have hu : u.toNat < 0xD800 ∨ 0xDFFF < u.toNat := hu
    rw [fromUtf16_cons hu] at h
    obtain ⟨ds, hds, rfl⟩ := map_eq_some_iff.mp h
    have hlt := u.toNat_lt
    have hcode : (ofNat u.toNat).toNat = u.toNat :=
      toNat_ofNat (hu.imp_right fun h => ⟨h, by omega⟩)
    rw [utf16_cons, utf16Char, hcode, if_pos hlt, UInt16.ofNat_toNat, ← ih hds]
    rfl
  | case3 u hno hhigh =>
    intro cs h
    rw [fromUtf16, if_neg hno, if_pos hhigh] at h
    cases h
  | case4 u hno hhigh l us hlow ih =>
    intro cs h
    rw [not_or, UInt16.lt_iff_toNat_lt, not_lt] at hno
    rw [UInt16.lt_iff_toNat_lt] at hhigh
    rw [UInt16.le_iff_toNat_le, UInt16.le_iff_toNat_le] at hlow
    have hu : 0xD800 ≤ u.toNat ∧ u.toNat < 0xDC00 := ⟨hno.1, hhigh⟩
    have hl : 0xDC00 ≤ l.toNat ∧ l.toNat < 0xE000 := ⟨hlow.1, Nat.lt_succ_iff.mpr hlow.2⟩
    rw [fromUtf16_pair hu hl] at h
    obtain ⟨ds, hds, rfl⟩ := map_eq_some_iff.mp h
    obtain ⟨n, hn⟩ : ∃ n, n = 0x10000 + (u.toNat - 0xD800) * 2 ^ 10 + (l.toNat - 0xDC00) := ⟨_, rfl⟩
    have hcode : (ofNat n).toNat = n := toNat_ofNat (.inr ⟨by omega, by omega⟩)
    have hhi : 0xD800 + (n - 0x10000) / 2 ^ 10 = u.toNat := by omega
    have hlo : 0xDC00 + (n - 0x10000) % 2 ^ 10 = l.toNat := by omega
    rw [← hn, utf16_cons, utf16Char, hcode, if_neg (by omega), hhi, hlo, UInt16.ofNat_toNat,
      UInt16.ofNat_toNat, ← ih hds]
    rfl
  | case5 u hno hhigh l us hlow =>
    intro cs h
    rw [fromUtf16, if_neg hno, if_pos hhigh] at h
    have h : (if 0xDC00 ≤ l ∧ l ≤ 0xDFFF then _ else none) = some cs := h
    rw [if_neg hlow] at h
    cases h
  | case6 u us hno hhigh =>
    intro cs h
    rw [fromUtf16.eq_def] at h
    dsimp only at h
    rw [if_neg hno, if_neg hhigh] at h
    cases h

lemma utf16_injective : Function.Injective utf16 := by
  intro cs ds h
  have hcs : fromUtf16 (utf16 cs) = some cs := fromUtf16_utf16
  rw [h, fromUtf16_utf16] at hcs
  exact (some.inj hcs).symm

end TouchHle.Lib
