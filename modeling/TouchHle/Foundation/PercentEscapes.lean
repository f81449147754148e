import TouchHle.Foundation.EncodingLengths

/-! Percent escapes: bytes that are written as a percent sign and two digits, and read again. -/

namespace TouchHle.Foundation

open Lib JsonWriter List Option

def hexValue (b : UInt8) : Option ℕ :=
  if 48 ≤ b.toNat ∧ b.toNat ≤ 57 then some (b.toNat - 48)
  else if 65 ≤ b.toNat ∧ b.toNat ≤ 70 then some (b.toNat - 55)
  else if 97 ≤ b.toNat ∧ b.toNat ≤ 102 then some (b.toNat - 87)
  else none

def isAsciiAlphanumeric (b : UInt8) : Bool :=
  48 ≤ b.toNat ∧ b.toNat ≤ 57 ∨ 65 ≤ b.toNat ∧ b.toNat ≤ 90 ∨ 97 ≤ b.toNat ∧ b.toNat ≤ 122

def isPlain (b : UInt8) : Bool :=
  isAsciiAlphanumeric b || ("-_.~".toList.map ascii).contains b ||
    ("!*'();:@&=+$,/?%#[]".toList.map ascii).contains b

def upperHexDigit (n : ℕ) : Char := Char.ofNat (if n < 10 then 48 + n else 55 + n)

def escapeByte (b : UInt8) : List Char :=
  if isPlain b then [asChar b] else ['%', upperHexDigit (b.toNat / 16), upperHexDigit (b.toNat % 16)]

def unescapeBytes : List UInt8 → List UInt8
  | b :: hi :: lo :: source =>
    if b = ascii '%' then
      match hexValue hi, hexValue lo with
      | some h, some l => UInt8.ofNat (h * 16 + l) :: unescapeBytes source
      | _, _ => b :: unescapeBytes (hi :: lo :: source)
    else b :: unescapeBytes (hi :: lo :: source)
  | b :: source => b :: unescapeBytes source
  | [] => []

namespace Codecs

variable (codecs : Codecs)

def stringByAddingPercentEscapes (string : List Char) (encoding : NSStringEncoding) : List Char :=
  (codecs.bytesForEncoding string encoding).flatMap escapeByte

def stringByReplacingPercentEscapes (string : List Char) (encoding : NSStringEncoding) : StringHostObject :=
  codecs.decode (unescapeBytes (utf8 string)) encoding

end Codecs

def urlCharacters : List Char :=
  "ABCDEFGHIJKLMNOPQRSTUVWXYZabcdefghijklmnopqrstuvwxyz0123456789-._~:/?#[]@!$&'()*+,;=%".toList

def Triple (source : List UInt8) (hi lo : ℕ) (rest : List UInt8) : Prop :=
  ∃ h l, source = ascii '%' :: h :: l :: rest ∧ hexValue h = some hi ∧ hexValue l = some lo

inductive Unescaped : List UInt8 → List UInt8 → Prop
  | nil : Unescaped [] []
  | triple {source rest target : List UInt8} {hi lo : ℕ} (found : Triple source hi lo rest)
    (unescaped : Unescaped rest target) : Unescaped source (UInt8.ofNat (hi * 16 + lo) :: target)
  | other {b : UInt8} {rest target : List UInt8} (missing : ∀ hi lo rest', ¬ Triple (b :: rest) hi lo rest')
    (unescaped : Unescaped rest target) : Unescaped (b :: rest) (b :: target)

def HasTriple (bs : List UInt8) : Prop := ∃ before hi lo rest source, bs = before ++ source ∧ Triple source hi lo rest

section Reading

variable {b : UInt8} {bs rest : List UInt8}

lemma unescapeBytes_triple {hi lo : ℕ} (h : Triple bs hi lo rest) :
    unescapeBytes bs = UInt8.ofNat (hi * 16 + lo) :: unescapeBytes rest := by
  obtain ⟨h, l, rfl, hhi, hlo⟩ := h
  rw [unescapeBytes, if_pos rfl, hhi, hlo]

lemma unescapeBytes_other (h : ∀ hi lo rest', ¬ Triple (b :: rest) hi lo rest') :
    unescapeBytes (b :: rest) = b :: unescapeBytes rest := by
  match rest, h with
  | [], _ => rfl
  | [_], _ => rfl
  | hi :: lo :: source, h =>
    rw [unescapeBytes]
    split
    next hb =>
      split
      next hhi hlo => exact absurd ⟨hi, lo, by rw [hb], hhi, hlo⟩ (h _ _ source)
      next => rfl
    next => rfl

lemma exists_triple_or (bs : List UInt8) : (∃ hi lo rest, Triple bs hi lo rest) ∨ ∀ hi lo rest, ¬ Triple bs hi lo rest := by
  by_cases h : ∃ hi lo rest, Triple bs hi lo rest
  · exact Or.inl h
  · exact Or.inr fun hi lo rest ht => h ⟨hi, lo, rest, ht⟩

lemma Triple.length {hi lo : ℕ} (h : Triple bs hi lo rest) : bs.length = rest.length + 3 := by
  obtain ⟨_, _, rfl, -, -⟩ := h
  rfl

lemma unescaped_unescapeBytes (bs : List UInt8) : Unescaped bs (unescapeBytes bs) := by
  induction hn : bs.length using Nat.strong_induction_on generalizing bs with
  | _ n ih =>
    subst hn
    obtain ⟨hi, lo, rest, h⟩ | h := exists_triple_or bs
    · rw [unescapeBytes_triple h]
      exact .triple h (ih _ (by have := h.length; omega) rest rfl)
    · match bs, h, ih with
      | [], _, _ => exact .nil
      | b :: rest, h, ih =>
        rw [unescapeBytes_other h]
        exact .other h (ih _ (Nat.lt_succ_self _) rest rfl)

theorem unescaped_iff {target : List UInt8} : Unescaped bs target ↔ target = unescapeBytes bs := by
  constructor
  · intro h
    induction h with
    | nil => rfl
    | triple found _ ih => rw [unescapeBytes_triple found, ih]
    | other missing _ ih => rw [unescapeBytes_other missing, ih]
  · rintro rfl
    exact unescaped_unescapeBytes bs

end Reading

section Writing

variable {b : UInt8} {bs : List UInt8}

lemma hexValue_upperHexDigit {n : ℕ} (h : n < 16) : hexValue (ascii (upperHexDigit n)) = some n := by
  interval_cases n <;> decide

lemma asChar_mem_urlCharacters (h : isPlain b = true) : asChar b ∈ urlCharacters := by
  have hall : ∀ n : Fin 256, isPlain (UInt8.ofNat n) = true → asChar (UInt8.ofNat n) ∈ urlCharacters := by
    decide +kernel
  have hb := hall ⟨b.toNat, b.toNat_lt⟩
  simp only [UInt8.ofNat_toNat] at hb
  exact hb h

lemma upperHexDigit_mem_urlCharacters {n : ℕ} (h : n < 16) : upperHexDigit n ∈ urlCharacters := by
  interval_cases n <;> decide

lemma escapeByte_subset : ∀ c ∈ escapeByte b, c ∈ urlCharacters := by
  have hlt := b.toNat_lt
  unfold escapeByte
  split
  next h => simpa using asChar_mem_urlCharacters h
  next =>
    simp only [forall_mem_cons, not_mem_nil, false_implies, implies_true, and_true]
    exact ⟨by decide, upperHexDigit_mem_urlCharacters (by omega), upperHexDigit_mem_urlCharacters (by omega)⟩

lemma utf8_escapeByte (b : UInt8) : utf8 (escapeByte b) = if isPlain b then [b] else
    [ascii '%', ascii (upperHexDigit (b.toNat / 16)), ascii (upperHexDigit (b.toNat % 16))] := by
  have hlt := b.toNat_lt
  have hdigit : ∀ n < 16, (upperHexDigit n).toNat < 0x80 := by
    intro n hn
    interval_cases n <;> decide
  have hplain : ∀ n : Fin 256, isPlain (UInt8.ofNat n) = true → UInt8.ofNat n < 0x80 := by decide +kernel
  unfold escapeByte
  split
  next h =>
    have hb := hplain ⟨b.toNat, b.toNat_lt⟩
    simp only [UInt8.ofNat_toNat] at hb
    exact utf8_asChar (hb h)
  next =>
    rw [utf8_ascii (by decide), utf8_ascii (hdigit _ (by omega)), utf8_ascii (hdigit _ (by omega)), utf8_nil]

lemma utf8_flatMap_escapeByte (bs : List UInt8) :
    utf8 (bs.flatMap escapeByte) = bs.flatMap fun b => utf8 (escapeByte b) := by
  induction bs with
  | nil => rfl
  | cons b bs ih => rw [flatMap_cons, utf8_append, ih, flatMap_cons]

lemma isPlain_of_hexValue {n : ℕ} (h : hexValue b = some n) : isPlain b = true := by
  have halphanumeric : isAsciiAlphanumeric b = true := by
    unfold hexValue at h
    unfold isAsciiAlphanumeric
    rw [decide_eq_true_eq]
    split_ifs at h <;> omega
  rw [isPlain, halphanumeric, Bool.true_or, Bool.true_or]

lemma eq_cons_of_flatMap {n : ℕ} {b : UInt8} {rest : List UInt8}
    (heq : (bs.flatMap fun b => utf8 (escapeByte b)) = b :: rest) (hb : hexValue b = some n) :
    ∃ bs', bs = b :: bs' ∧ (bs'.flatMap fun b => utf8 (escapeByte b)) = rest := by
  cases bs with
  | nil => nomatch heq
  | cons a bs' =>
    rw [flatMap_cons, utf8_escapeByte] at heq
    split_ifs at heq with hplain
    · obtain ⟨rfl, rfl⟩ := List.cons.inj heq
      exact ⟨bs', rfl, rfl⟩
    · rw [← (List.cons.inj heq).1] at hb
      nomatch hb

theorem unescapeBytes_escaped (bs : List UInt8) :
    unescapeBytes (utf8 (bs.flatMap escapeByte)) = unescapeBytes bs := by
  rw [utf8_flatMap_escapeByte]
  induction hn : bs.length using Nat.strong_induction_on generalizing bs with
  | _ n ih =>
    subst hn
    obtain ⟨hi, lo, rest, h⟩ | h := exists_triple_or bs
    · have hlength := h.length
      have hrest := ih rest.length (by omega) rest rfl
      rw [unescapeBytes_triple h, ← hrest]
      obtain ⟨_, _, rfl, hhi, hlo⟩ := h
      refine unescapeBytes_triple ⟨_, _, ?_, hhi, hlo⟩
      simp only [flatMap_cons, utf8_escapeByte, isPlain_of_hexValue hhi, isPlain_of_hexValue hlo, if_true,
        cons_append, nil_append]
      rfl
    · match bs, h, ih with
      | [], _, _ => rfl
      | b :: rest, h, ih =>
        rw [unescapeBytes_other h, ← ih rest.length (Nat.lt_succ_self _) rest rfl, flatMap_cons, utf8_escapeByte]
        split
        next hplain =>
          refine unescapeBytes_other fun hi lo rest' htriple => ?_
          obtain ⟨_, _, heq, hhi, hlo⟩ := htriple
          obtain ⟨rfl, htail⟩ := List.cons.inj heq
          obtain ⟨rest₁, rfl, htail₁⟩ := eq_cons_of_flatMap htail hhi
          obtain ⟨rest₂, rfl, -⟩ := eq_cons_of_flatMap htail₁ hlo
          exact h hi lo rest₂ ⟨_, _, rfl, hhi, hlo⟩
        next =>
          have hlt := b.toNat_lt
          rw [cons_append, cons_append, cons_append, nil_append,
            unescapeBytes_triple ⟨_, _, rfl, hexValue_upperHexDigit (by omega), hexValue_upperHexDigit (by omega)⟩]
          congr 1
          rw [Nat.div_add_mod']
          exact UInt8.ofNat_toNat

end Writing

section Measures

variable {b : UInt8} {bs : List UInt8}

lemma hasTriple_cons : HasTriple (b :: bs) ↔ (∃ hi lo rest, Triple (b :: bs) hi lo rest) ∨ HasTriple bs := by
  constructor
  · rintro ⟨before, hi, lo, rest, source, heq, h⟩
    cases before with
    | nil => exact Or.inl ⟨hi, lo, rest, heq ▸ h⟩
    | cons a before => exact Or.inr ⟨before, hi, lo, rest, source, (List.cons.inj heq).2, h⟩
  · rintro (⟨hi, lo, rest, h⟩ | ⟨before, hi, lo, rest, source, rfl, h⟩)
    · exact ⟨[], hi, lo, rest, b :: bs, rfl, h⟩
    · exact ⟨b :: before, hi, lo, rest, source, rfl, h⟩

lemma not_hasTriple_nil : ¬ HasTriple [] := by
  rintro ⟨before, hi, lo, rest, source, heq, _, _, rfl, -⟩
  cases before <;> nomatch heq

lemma unescapeBytes_eq (h : ¬ HasTriple bs) : unescapeBytes bs = bs := by
  induction bs with
  | nil => rfl
  | cons b bs ih =>
    obtain ⟨hfirst, hrest⟩ := not_or.mp fun h' => h (hasTriple_cons.mpr h')
    rw [unescapeBytes_other fun hi lo rest ht => hfirst ⟨hi, lo, rest, ht⟩, ih hrest]

lemma sum_unescapeBytes {w : UInt8 → ℕ}
    (hw : ∀ hi lo h l, hexValue h = some hi → hexValue l = some lo →
      w (UInt8.ofNat (hi * 16 + lo)) < w (ascii '%') + (w h + w l)) (bs : List UInt8) :
    ((unescapeBytes bs).map w).sum ≤ (bs.map w).sum ∧
      (HasTriple bs → ((unescapeBytes bs).map w).sum < (bs.map w).sum) := by
  have h := unescaped_unescapeBytes bs
  generalize unescapeBytes bs = target at h
  induction h with
  | nil => exact ⟨le_rfl, fun h => absurd h not_hasTriple_nil⟩
  | triple found _ ih =>
    obtain ⟨_, _, rfl, hhi, hlo⟩ := found
    have hless := hw _ _ _ _ hhi hlo
    simp only [map_cons, sum_cons]
    exact ⟨by omega, fun _ => by omega⟩
  | @other b rest target missing _ ih =>
    simp only [map_cons, sum_cons]
    refine ⟨by omega, fun h => ?_⟩
    obtain ⟨hi, lo, rest', h⟩ | h := hasTriple_cons.mp h
    · exact absurd h (missing hi lo rest')
    · have hless := ih.2 h
      omega

end Measures

variable {codecs : Codecs} {s : List Char} {c : Char} {e : NSStringEncoding} {bs : List UInt8}

def isDigitCode (n : ℕ) : Bool := n = 37 ∨ 48 ≤ n ∧ n ≤ 57

def countChars (s : List Char) : ℕ := s.countP fun c => isDigitCode c.toNat

def countBytes (bs : List UInt8) : ℕ := bs.countP fun b => isDigitCode b.toNat

lemma isDigitCode_lt {n : ℕ} (h : isDigitCode n = true) : n < 0x80 := by
  simp only [isDigitCode, decide_eq_true_eq] at h
  omega

lemma countBytes_append (bs bs' : List UInt8) : countBytes (bs ++ bs') = countBytes bs + countBytes bs' :=
  countP_append

lemma countBytes_eq_zero (h : ∀ b ∈ bs, 0x80 ≤ b.toNat) : countBytes bs = 0 :=
  List.countP_eq_zero.mpr fun b hb hdigit => absurd (isDigitCode_lt hdigit) (not_lt.mpr (h b hb))

lemma countBytes_unescapeBytes (h : HasTriple bs) : countBytes (unescapeBytes bs) < countBytes bs := by
  have hcount : ∀ bs, countBytes bs = (bs.map fun b => if isDigitCode b.toNat then 1 else 0).sum := by
    intro bs
    induction bs with
    | nil => rfl
    | cons b bs ih => rw [countBytes, countP_cons, ← countBytes, ih, map_cons, sum_cons, add_comm]
  rw [hcount, hcount]
  refine (sum_unescapeBytes (fun hi lo h l hhi hlo => ?_) bs).2 h
  have hpercent : isDigitCode (ascii '%').toNat = true := by decide
  rw [if_pos hpercent]
  split
  next hdigit =>
    have hboth : isDigitCode h.toNat = true := by
      unfold hexValue at hhi hlo
      simp only [isDigitCode, decide_eq_true_eq, UInt8.toNat_ofNat'] at hdigit ⊢
      split_ifs at hhi hlo <;> simp only [some.injEq] at hhi hlo <;> omega
    rw [if_pos hboth]
    omega
  next => omega

lemma length_unescapeBytes (h : HasTriple bs) : (unescapeBytes bs).length < bs.length := by
  have hsum := (sum_unescapeBytes (w := fun _ => 1) (fun _ _ _ _ _ _ => by omega) bs).2 h
  simpa using hsum

lemma countBytes_utf8 (s : List Char) : countBytes (Lib.utf8 s) = countChars s := by
  induction s with
  | nil => rfl
  | cons c s ih =>
    have hcons : countChars (c :: s) = (if isDigitCode c.toNat then 1 else 0) + countChars s := by
      rw [countChars, countP_cons, add_comm, ← countChars]
    rw [utf8_cons, countBytes_append, ih, hcons]
    congr 1
    by_cases hc : c.toNat < 0x80
    · rw [encode_ascii hc, countBytes, countP_singleton, toNat_ascii hc]
    · have hdigit : isDigitCode c.toNat = false := by
        by_contra h
        exact hc (isDigitCode_lt (Bool.eq_true_of_not_eq_false h))
      rw [hdigit, if_neg Bool.false_ne_true]
      exact countBytes_eq_zero fun b hb => not_lt.mp (utf8EncodeChar_high (not_lt.mp hc) b hb)

lemma countChars_fromUtf8Lossy (bs : List UInt8) : countChars (fromUtf8Lossy bs) ≤ countBytes bs := by
  have hgo : ∀ rounds bs, countChars (fromUtf8Lossy.go rounds bs) ≤ countBytes bs := by
    intro rounds
    induction rounds with
    | zero => exact fun _ => Nat.zero_le _
    | succ rounds ih =>
      intro bs
      match bs with
      | [] => exact Nat.zero_le _
      | b :: bs =>
        rw [fromUtf8Lossy.go]
        split
        next c hdecode =>
          have hbytes : b :: bs = Lib.utf8 [c] ++ (b :: bs).drop c.utf8Size := by
            obtain ⟨l, hl⟩ := ByteArray.exists_of_utf8DecodeChar?_eq_some hdecode
            have hlist : b :: bs = String.utf8EncodeChar c ++ l.data.toList := by
              simpa using congrArg (fun a => a.data.toList) hl
            have hutf8 : Lib.utf8 [c] = String.utf8EncodeChar c := by rw [utf8_cons, utf8_nil, append_nil]
            rw [hutf8, hlist, ← String.length_utf8EncodeChar c, drop_left]
          have hsplit := congrArg countBytes hbytes
          rw [countBytes_append, countBytes_utf8] at hsplit
          have hrest := ih ((b :: bs).drop c.utf8Size)
          rw [hsplit, countChars, countP_cons, ← countChars]
          have hone : countChars [c] = if isDigitCode c.toNat then 1 else 0 := countP_singleton
          omega
        next =>
          have hdrop : countBytes ((b :: bs).drop (brokenLength (b :: bs))) ≤ countBytes (b :: bs) :=
            (drop_sublist _ _).countP_le
          have hrest := ih ((b :: bs).drop (brokenLength (b :: bs)))
          rw [countChars, countP_cons_of_neg (by decide), ← countChars]
          omega
  exact hgo _ bs

lemma countBytes_map {f : Char → UInt8} (h : ∀ c ∈ s, isDigitCode (f c).toNat = isDigitCode c.toNat) :
    countBytes (s.map f) = countChars s := by
  rw [countBytes, countP_map]
  exact countP_congr fun c hc => by rw [Function.comp_apply, h c hc]

lemma countChars_map {f : UInt8 → Char} (h : ∀ b, isDigitCode (f b).toNat = true → isDigitCode b.toNat = true)
    (bs : List UInt8) : countChars (bs.map f) ≤ countBytes bs := by
  rw [countChars, countP_map]
  exact countP_mono_left fun b _ => h b

lemma countBytes_map_ascii (h : ∀ c ∈ s, c.toNat ≤ 0xFF) : countBytes (s.map ascii) = countChars s := by
  refine countBytes_map fun c hc => ?_
  have hle := h c hc
  rw [ascii, UInt8.toNat_ofNat', Nat.mod_eq_of_lt (by omega)]

lemma countBytes_encodeNextstep (s : List Char) : countBytes (encodeNextstep s) = countChars s := by
  refine countBytes_map fun c _ => ?_
  split
  next h => rw [toNat_ascii h]
  next h =>
    have hchar : isDigitCode c.toNat = false := by
      by_contra hdigit
      exact h (isDigitCode_lt (Bool.eq_true_of_not_eq_false hdigit))
    rw [hchar]
    cases hi : nextstepUpperToUnicode.findIdx? (· = c.toNat) with
    | none => rfl
    | some i =>
      obtain ⟨hlt, -⟩ := findIdx?_eq_some_iff_getElem.mp hi
      have hlen : nextstepUpperToUnicode.length = 128 := rfl
      have hcode : (UInt8.ofNat i + 0x80).toNat = i + 0x80 := by
        rw [UInt8.toNat_add, UInt8.toNat_ofNat']
        change (i % 2 ^ 8 + 128) % 2 ^ 8 = i + 128
        omega
      by_contra hdigit
      have hcontra := isDigitCode_lt (Bool.eq_true_of_not_eq_false hdigit)
      rw [map_some, getD_some, hcode] at hcontra
      omega

lemma countChars_decodeNextstep (bs : List UInt8) : countChars (decodeNextstep bs) ≤ countBytes bs := by
  refine countChars_map (fun b h => ?_) bs
  split at h
  next => rwa [toNat_asChar] at h
  next hb =>
    -- no byte of the upper half stands for a character of ASCII
    have hall : ∀ n : Fin 128, isDigitCode ((charFromU32 (nextstepUpperToUnicode.getD n 0)).getD '\uFFFD').toNat =
      false := by decide
    have hlt := b.toNat_lt
    have hnot := hall ⟨b.toNat - 0x80, by omega⟩
    rw [hnot] at h
    nomatch h

/-- In the encodings of the package but ISO-2022-JP, the percent sign and the decimal digits have the bytes that they
have in ASCII, and no other character has one of these. -/
structure Codecs.KeepsDigits (codecs : Codecs) : Prop where
  encode : ∀ r s, r ≠ .iso2022Jp → ((codecs.codec r).encode s).2 = false →
    countBytes ((codecs.codec r).encode s).1 = countChars s
  decode : ∀ r bs, r ≠ .iso2022Jp → countChars ((codecs.codec r).decode bs) ≤ countBytes bs

namespace Codecs

def TextLike : NSStringEncoding → Prop
  | .utf16 | .utf16BigEndian | .utf16LittleEndian | .utf32 | .utf32BigEndian | .utf32LittleEndian | .iso2022Jp => False
  | _ => True

lemma countBytes_bytesOf (hdigits : codecs.KeepsDigits) (he : TextLike e) (hs : codecs.Convertible s e) :
    countBytes (codecs.bytesOf s e) = countChars s := by
  have hcodec : ∀ r e, encodingRsFor e = some r → r ≠ .iso2022Jp → codecs.Convertible s e →
      (∀ enc, encodingRsFor e = some enc → ((codecs.codec enc).encode s).2 = false) →
      countBytes (((encodingRsFor e).map fun enc => ((codecs.codec enc).encode s).1).getD (Lib.utf8 s)) =
        countChars s := by
    intro r e hr hne _ h
    rw [hr]
    exact hdigits.encode r s hne (h r hr)
  cases e with
  | ascii => exact countBytes_map_ascii fun c hc => (hs c hc).trans (by decide)
  | isoLatin1 => exact countBytes_map_ascii hs
  | utf8 => exact countBytes_utf8 s
  | nonLossyAscii => exact countBytes_utf8 s
  | other => exact countBytes_utf8 s
  | nextstep => exact countBytes_encodeNextstep s
  | nextStepLatin => exact countBytes_encodeNextstep s
  | macOsRoman => exact hdigits.encode _ s (by decide) hs
  | utf16 | utf16BigEndian | utf16LittleEndian | utf32 | utf32BigEndian | utf32LittleEndian | iso2022Jp =>
    exact he.elim
  | japaneseEuc => exact hcodec .eucJp .japaneseEuc rfl (by decide) hs hs
  | shiftJis => exact hcodec .shiftJis .shiftJis rfl (by decide) hs hs
  | isoLatin2 => exact hcodec .iso8859_2 .isoLatin2 rfl (by decide) hs hs
  | windowsCp1250 => exact hcodec .windows1250 .windowsCp1250 rfl (by decide) hs hs
  | windowsCp1251 => exact hcodec .windows1251 .windowsCp1251 rfl (by decide) hs hs
  | windowsCp1252 => exact hcodec .windows1252 .windowsCp1252 rfl (by decide) hs hs
  | windowsCp1253 => exact hcodec .windows1253 .windowsCp1253 rfl (by decide) hs hs
  | windowsCp1254 => exact hcodec .windows1254 .windowsCp1254 rfl (by decide) hs hs

lemma decode_textLike (hdigits : codecs.KeepsDigits) (he : TextLike e) (bs : List UInt8) :
    ∃ t, codecs.decode bs e = .utf8 t ∧ countChars t ≤ countBytes bs := by
  by_cases hbs : bs = []
  · exact ⟨[], if_pos hbs, Nat.zero_le _⟩
  have hutf8 : countChars (codecs.decodeUtf8 bs) ≤ countBytes bs := by
    rw [decodeUtf8]
    cases h : fromUtf8 bs with
    | some t =>
      rw [getD_some, utf8_of_fromUtf8 h, countBytes_utf8]
    | none =>
      rw [getD_none]
      split
      · exact hdigits.decode _ bs (by decide)
      · exact countChars_fromUtf8Lossy bs
  have hlegacy : encodingRsFor e ≠ some .iso2022Jp → countChars (codecs.decodeLegacy bs e) ≤ countBytes bs := by
    intro hne
    rw [decodeLegacy]
    cases h : encodingRsFor e with
    | none => exact countChars_fromUtf8Lossy bs
    | some r => exact hdigits.decode r bs fun hr => hne (h.trans (congrArg some hr))
  unfold decode
  rw [if_neg hbs]
  cases e with
  | ascii =>
    refine ⟨_, rfl, countChars_map (fun b h => ?_) bs⟩
    split at h
    next => rwa [toNat_asChar] at h
    next => exact absurd h (by decide)
  | isoLatin1 => exact ⟨_, rfl, countChars_map (fun b h => by rwa [toNat_asChar] at h) bs⟩
  | utf8 => exact ⟨_, rfl, hutf8⟩
  | macOsRoman => exact ⟨_, rfl, hdigits.decode _ bs (by decide)⟩
  | nextstep | nextStepLatin => exact ⟨_, rfl, countChars_decodeNextstep bs⟩
  | utf16 | utf16BigEndian | utf16LittleEndian | utf32 | utf32BigEndian | utf32LittleEndian | iso2022Jp =>
    exact he.elim
  | _ => exact ⟨_, rfl, hlegacy (by simp [encodingRsFor])⟩

lemma length_chunksExact (k : ℕ) (l : List UInt8) : (chunksExact k l).length * k ≤ l.length := by
  have hgo : ∀ rounds l, (chunksExact.go (α := UInt8) k rounds l).length * k ≤ l.length := by
    intro rounds
    induction rounds with
    | zero => exact fun l => by simp [chunksExact.go]
    | succ rounds ih =>
      intro l
      rw [chunksExact.go]
      split
      next hk =>
        have hrest := ih (l.drop k)
        rw [length_drop] at hrest
        rw [length_cons, Nat.succ_mul]
        omega
      next => simp
  exact hgo _ l

lemma length_decodeUtf16 (bigEndian : Bool) (bs : List UInt8) : (decodeUtf16 bigEndian bs).length * 2 ≤ bs.length := by
  rw [decodeUtf16, length_map]
  exact length_chunksExact 2 bs

lemma length_decodeUtf32 (bigEndian : Bool) (bs : List UInt8) : (decodeUtf32 bigEndian bs).length * 4 ≤ bs.length := by
  rw [decodeUtf32, length_map]
  exact length_chunksExact 4 bs

lemma length_decode_utf16 (codecs : Codecs) (he : e = .utf16 ∨ e = .utf16BigEndian ∨ e = .utf16LittleEndian) (bs : List UInt8) :
    (codeUnits (codecs.decode bs e)).length * 2 ≤ bs.length := by
  unfold decode
  split
  next => exact Nat.zero_le _
  next =>
    obtain rfl | rfl | rfl := he
    · have hdrop := fun bigEndian => length_decodeUtf16 bigEndian (bs.drop 2)
      simp only [length_drop] at hdrop
      dsimp only
      split_ifs
      · exact (hdrop true).trans (Nat.sub_le _ _)
      · exact (hdrop false).trans (Nat.sub_le _ _)
      · exact length_decodeUtf16 false bs
    · exact length_decodeUtf16 true bs
    · exact length_decodeUtf16 false bs

lemma length_decode_utf32 (codecs : Codecs) (he : e = .utf32 ∨ e = .utf32BigEndian ∨ e = .utf32LittleEndian) (bs : List UInt8) :
    ∃ t, codecs.decode bs e = .utf8 t ∧ t.length * 4 ≤ bs.length := by
  unfold decode
  split
  next => exact ⟨[], rfl, Nat.zero_le _⟩
  next =>
    obtain rfl | rfl | rfl := he
    · have hdrop := fun bigEndian => length_decodeUtf32 bigEndian (bs.drop 4)
      simp only [length_drop] at hdrop
      dsimp only
      split_ifs
      · exact ⟨_, rfl, (hdrop true).trans (Nat.sub_le _ _)⟩
      · exact ⟨_, rfl, (hdrop false).trans (Nat.sub_le _ _)⟩
      · exact ⟨_, rfl, length_decodeUtf32 false bs⟩
    · exact ⟨_, rfl, length_decodeUtf32 true bs⟩
    · exact ⟨_, rfl, length_decodeUtf32 false bs⟩

lemma not_hasTriple_of_read (hdigits : codecs.KeepsDigits) (hs : codecs.Convertible s e) (he : e ≠ .iso2022Jp)
    (h : codeUnits (codecs.decode (unescapeBytes (codecs.bytesOf s e)) e) = Lib.utf16 s) :
    ¬ HasTriple (codecs.bytesOf s e) := by
  intro htriple
  have hlength := length_unescapeBytes htriple
  have htext : TextLike e → False := by
    intro htext
    obtain ⟨t, hdecode, ht⟩ := decode_textLike hdigits htext (unescapeBytes (codecs.bytesOf s e))
    rw [hdecode] at h
    have heq : t = s := utf16_injective h
    have hcount := countBytes_unescapeBytes htriple
    rw [countBytes_bytesOf hdigits htext hs] at hcount
    rw [heq] at ht
    omega
  have hutf16 : e = .utf16 ∨ e = .utf16BigEndian ∨ e = .utf16LittleEndian →
      (codecs.bytesOf s e).length = (Lib.utf16 s).length * 2 → False := by
    intro he hbytes
    have hunits := codecs.length_decode_utf16 he (unescapeBytes (codecs.bytesOf s e))
    rw [h] at hunits
    omega
  have hutf32 : e = .utf32 ∨ e = .utf32BigEndian ∨ e = .utf32LittleEndian →
      (codecs.bytesOf s e).length = s.length * 4 → False := by
    intro he hbytes
    obtain ⟨t, hdecode, ht⟩ := codecs.length_decode_utf32 he (unescapeBytes (codecs.bytesOf s e))
    rw [hdecode] at h
    have heq : t = s := utf16_injective h
    rw [heq] at ht
    omega
  cases e with
  | utf16 => exact hutf16 (by decide) (length_flatMap_const (fun _ => length_leBytes) _)
  | utf16LittleEndian => exact hutf16 (by decide) (length_flatMap_const (fun _ => length_leBytes) _)
  | utf16BigEndian => exact hutf16 (by decide) (length_flatMap_const (fun _ => length_beBytes) _)
  | utf32 => exact hutf32 (by decide) (length_flatMap_const (fun _ => length_beBytes) _)
  | utf32BigEndian => exact hutf32 (by decide) (length_flatMap_const (fun _ => length_beBytes) _)
  | utf32LittleEndian => exact hutf32 (by decide) (length_flatMap_const (fun _ => length_leBytes) _)
  | iso2022Jp => exact he rfl
  | _ => exact htext trivial

lemma replacing_adding {b : List UInt8} (hb : codecs.encodeString s e false = some b) :
    codecs.stringByReplacingPercentEscapes (codecs.stringByAddingPercentEscapes s e) e =
      codecs.decode (unescapeBytes b) e := by
  rw [stringByReplacingPercentEscapes, stringByAddingPercentEscapes, unescapeBytes_escaped, bytesForEncoding,
    lossy_of_lossless hb, getD_some]

lemma asciiCodecs_keepsDigits : asciiCodecs.KeepsDigits where
  encode _ s _ h := by
    refine countBytes_map fun c hc => ?_
    have hnot := any_eq_false.mp h c hc
    rw [decide_eq_true_eq, not_lt] at hnot
    rw [if_pos hnot, toNat_ascii (Nat.lt_succ_of_le hnot)]
  decode _ bs _ := countChars_map (fun b h => by rwa [toNat_asChar] at h) bs

end Codecs

end TouchHle.Foundation
