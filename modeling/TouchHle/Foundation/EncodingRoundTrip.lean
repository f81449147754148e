import TouchHle.Foundation.StringEncoding

/-! When an encoded string is decoded to the string it was, and when the methods agree about it. -/

namespace TouchHle.Foundation

open Lib JsonWriter List

def codeUnits : StringHostObject → List UInt16
  | .utf8 s => Lib.utf16 s
  | .utf16 units => units

variable {s t : List Char} {c : Char} {e : NSStringEncoding} {b : List UInt8}

lemma codeUnits_of_toUtf8 {h : StringHostObject} (hs : h.toUtf8 = some s) : codeUnits h = utf16 s := by
  cases h with
  | utf8 t => rw [codeUnits, Option.some.inj hs]
  | utf16 units => exact utf16_of_fromUtf16 hs

lemma encodeUpTo_eq_some {limit : ℕ} :
    encodeUpTo limit false s = some b ↔ (∀ c ∈ s, c.toNat ≤ limit) ∧ b = s.map ascii := by
  induction s generalizing b with
  | nil => simp [encodeUpTo, eq_comm]
  | cons c s ih =>
    rw [encodeUpTo]
    by_cases hc : c.toNat ≤ limit
    · rw [if_pos hc, Option.map_eq_some_iff]
      constructor
      · rintro ⟨b', hb', rfl⟩
        obtain ⟨hall, rfl⟩ := ih.mp hb'
        exact ⟨forall_mem_cons.mpr ⟨hc, hall⟩, rfl⟩
      · rintro ⟨hall, rfl⟩
        exact ⟨_, ih.mpr ⟨(forall_mem_cons.mp hall).2, rfl⟩, rfl⟩
    · rw [if_neg hc, if_neg (by decide)]
      constructor
      · rintro ⟨⟩
      · rintro ⟨hall, -⟩
        exact absurd (forall_mem_cons.mp hall).1 hc

lemma length_encodeUpTo {limit : ℕ} {lossy : Bool} (h : encodeUpTo limit lossy s = some b) :
    b.length = s.length := by
  induction s generalizing b with
  | nil =>
    obtain rfl := Option.some.inj h
    rfl
  | cons c s ih =>
    rw [encodeUpTo] at h
    split_ifs at h
    · obtain ⟨b', hb', rfl⟩ := Option.map_eq_some_iff.mp h
      rw [length_cons, length_cons, ih hb']
    · obtain ⟨b', hb', rfl⟩ := Option.map_eq_some_iff.mp h
      rw [length_cons, length_cons, ih hb']

lemma encodeUpTo_lossy (limit : ℕ) (s : List Char) : (encodeUpTo limit true s).isSome ∧
    (∀ b, encodeUpTo limit false s = some b → encodeUpTo limit true s = some b) := by
  induction s with
  | nil => exact ⟨rfl, fun _ => id⟩
  | cons c s ih =>
    obtain ⟨hsome, hsame⟩ := ih
    rw [encodeUpTo, encodeUpTo]
    by_cases hc : c.toNat ≤ limit
    · rw [if_pos hc, if_pos hc]
      refine ⟨by rw [Option.isSome_map]; exact hsome, fun b hb => ?_⟩
      obtain ⟨b', hb', rfl⟩ := Option.map_eq_some_iff.mp hb
      rw [hsame b' hb']
      rfl
    · rw [if_neg hc, if_neg hc, if_pos rfl, if_neg (by decide)]
      refine ⟨by rw [Option.isSome_map]; exact hsome, ?_⟩
      rintro b ⟨⟩

lemma asChar_ascii_byte (h : c.toNat ≤ 0xFF) : asChar (ascii c) = c := by
  have hbyte : (ascii c).toNat = c.toNat := by
    rw [ascii, UInt8.toNat_ofNat']
    omega
  rw [asChar, hbyte]
  exact Char.ofNat_toNat c

lemma decodeNextstep_encodeNextstep (h : ∀ c ∈ s, isNextstep c) : decodeNextstep (encodeNextstep s) = s := by
  rw [decodeNextstep, encodeNextstep, List.map_map]
  refine (map_congr_left fun c hc => ?_).trans (map_id s)
  have hbyte := h c hc
  dsimp only [Function.comp_apply, id]
  by_cases hsmall : c.toNat < 0x80
  · rw [if_pos hsmall, if_pos (by rwa [toNat_ascii hsmall]), asChar_ascii hsmall]
  · rw [if_neg hsmall]
    rw [isNextstep, decide_eq_false hsmall, Bool.false_or, any_eq_true] at hbyte
    obtain ⟨i, hi⟩ : ∃ i, nextstepUpperToUnicode.findIdx? (· = c.toNat) = some i := by
      rw [← Option.isSome_iff_exists, findIdx?_isSome, any_eq_true]
      exact hbyte
    obtain ⟨hlt, hfound, -⟩ := findIdx?_eq_some_iff_getElem.mp hi
    have hlen : nextstepUpperToUnicode.length = 128 := rfl
    have hcode : (UInt8.ofNat i + 0x80).toNat = i + 0x80 := by
      rw [UInt8.toNat_add, UInt8.toNat_ofNat']
      change (i % 2 ^ 8 + 128) % 2 ^ 8 = i + 128
      omega
    rw [hi, Option.map_some, Option.getD_some, hcode, if_neg (by omega), Nat.add_sub_cancel,
      getD_eq_getElem _ _ hlt, of_decide_eq_true hfound, charFromU32_toNat]
    rfl

lemma toNat_lt_byte (u : UInt16) : u.toNat < 256 ^ 2 := u.toNat_lt

lemma toNat_lt_word (c : Char) : c.toNat < 256 ^ 4 := by
  have hvalid := toNat_lt_or c
  omega

lemma decodeUtf16_le (us : List UInt16) : decodeUtf16 false (us.flatMap fun u => leBytes 2 u.toNat) = us := by
  rw [decodeUtf16, chunksExact_flatMap (by decide) fun _ => length_leBytes, List.map_map]
  refine (map_congr_left fun u _ => ?_).trans (map_id us)
  change UInt16.ofNat (fromLeBytes (leBytes 2 u.toNat)) = u
  rw [fromLeBytes_leBytes (toNat_lt_byte u), UInt16.ofNat_toNat]

lemma decodeUtf16_be (us : List UInt16) : decodeUtf16 true (us.flatMap fun u => beBytes 2 u.toNat) = us := by
  rw [decodeUtf16, chunksExact_flatMap (by decide) fun _ => length_beBytes, List.map_map]
  refine (map_congr_left fun u _ => ?_).trans (map_id us)
  change UInt16.ofNat (fromBeBytes (beBytes 2 u.toNat)) = u
  rw [fromBeBytes_beBytes (toNat_lt_byte u), UInt16.ofNat_toNat]

lemma decodeUtf32_le (s : List Char) : decodeUtf32 false (s.flatMap fun c => leBytes 4 c.toNat) = s := by
  rw [decodeUtf32, chunksExact_flatMap (by decide) fun _ => length_leBytes, List.map_map]
  refine (map_congr_left fun c _ => ?_).trans (map_id s)
  change (charFromU32 (fromLeBytes (leBytes 4 c.toNat))).getD '\uFFFD' = c
  rw [fromLeBytes_leBytes (toNat_lt_word c), charFromU32_toNat]
  rfl

lemma decodeUtf32_be (s : List Char) : decodeUtf32 true (s.flatMap fun c => beBytes 4 c.toNat) = s := by
  rw [decodeUtf32, chunksExact_flatMap (by decide) fun _ => length_beBytes, List.map_map]
  refine (map_congr_left fun c _ => ?_).trans (map_id s)
  change (charFromU32 (fromBeBytes (beBytes 4 c.toNat))).getD '\uFFFD' = c
  rw [fromBeBytes_beBytes (toNat_lt_word c), charFromU32_toNat]
  rfl

def swapped (c : Char) : Char := (charFromU32 (fromLeBytes (beBytes 4 c.toNat))).getD '\uFFFD'

lemma decodeUtf32_swapped (s : List Char) :
    decodeUtf32 false (s.flatMap fun c => beBytes 4 c.toNat) = s.map swapped := by
  rw [decodeUtf32, chunksExact_flatMap (by decide) fun _ => length_beBytes, List.map_map]
  rfl

/-- The strings that are recovered: with an encoding that has a byte order mark, those that do not seem
to start with one, and of four bytes a character those with characters of which the bytes read the
same in either order. -/
def Recoverable (s : List Char) : NSStringEncoding → Prop
  | .utf16 => s.head? ≠ some '\uFEFF' ∧ s.head? ≠ some '\uFFFE'
  | .utf32 => ∀ c ∈ s, swapped c = c
  | _ => True

def RsEncoding.SingleByte : RsEncoding → Prop
  | .shiftJis | .eucJp | .iso2022Jp => False
  | _ => True

/-- The package does what it is for: a text in which nothing was replaced is decoded again, only an empty
text has no bytes, and in the encodings with single bytes there is one for each character. -/
structure Codecs.Lawful (codecs : Codecs) : Prop where
  decode : ∀ r s, ((codecs.codec r).encode s).2 = false → (codecs.codec r).decode ((codecs.codec r).encode s).1 = s
  bytes : ∀ r s, ((codecs.codec r).encode s).1 = [] ↔ s = []
  nil : ∀ r, ((codecs.codec r).encode []).2 = false
  single : ∀ r s, r.SingleByte → ((codecs.codec r).encode s).2 = false →
    ((codecs.codec r).encode s).1.length = s.length

lemma utf16_ne_nil (h : s ≠ []) : utf16 s ≠ [] := by
  intro hnil
  exact h (utf16_injective hnil)

lemma utf16_head {n : ℕ} {us : List UInt16} (h : utf16 s = UInt16.ofNat n :: us) (hn : n < 0x10000)
    (hchar : n.isValidChar) (hn' : n < 0xD800 ∨ 0xDFFF < n) : s.head? = some (Char.ofNat n) := by
  cases s with
  | nil => cases h
  | cons c s =>
    rw [head?_cons]
    congr 1
    apply Char.toNat_inj.mp
    rw [toNat_ofNat hchar]
    have hvalid := toNat_lt_or c
    rw [utf16_cons, utf16Char] at h
    split_ifs at h with hsmall
    · have hunit := congrArg UInt16.toNat (List.cons.inj h).1
      rw [UInt16.toNat_ofNat', UInt16.toNat_ofNat'] at hunit
      omega
    · have hunit := congrArg UInt16.toNat (List.cons.inj h).1
      rw [UInt16.toNat_ofNat', UInt16.toNat_ofNat'] at hunit
      omega

lemma take_utf16 {n : ℕ} (hn : n < 0x10000) (hchar : n.isValidChar) (hn' : n < 0xD800 ∨ 0xDFFF < n) :
    ((utf16 s).flatMap fun u => leBytes 2 u.toNat).take 2 = leBytes 2 n ↔ s.head? = some (Char.ofNat n) := by
  constructor
  · intro h
    cases hs : utf16 s with
    | nil =>
      rw [hs] at h
      cases h
    | cons u us =>
      rw [hs, flatMap_cons, take_append_of_le_length (by simp), take_of_length_le (by simp)] at h
      have hu : u = UInt16.ofNat n := by
        have hnum := congrArg fromLeBytes h
        rw [fromLeBytes_leBytes (toNat_lt_byte u), fromLeBytes_leBytes (by omega)] at hnum
        rw [← hnum, UInt16.ofNat_toNat]
      exact utf16_head (hu ▸ hs) hn hchar hn'
  · intro h
    obtain ⟨t, rfl⟩ : ∃ t, s = Char.ofNat n :: t := by
      cases s with
      | nil => cases h
      | cons c t => exact ⟨t, by rw [Option.some.inj h]⟩
    have hunits : utf16Char (Char.ofNat n) = [UInt16.ofNat n] := by
      rw [utf16Char, toNat_ofNat hchar, if_pos hn]
    have hnum : (UInt16.ofNat n).toNat = n := by
      rw [UInt16.toNat_ofNat']
      omega
    rw [utf16_cons, hunits, singleton_append, flatMap_cons, hnum,
      take_append_of_le_length (by simp), take_of_length_le (by simp)]

lemma decode_utf16 (codecs : Codecs) (hs : s ≠ []) :
    codeUnits (codecs.decode ((utf16 s).flatMap fun u => leBytes 2 u.toNat) .utf16) = utf16 s ↔
      Recoverable s .utf16 := by
  obtain ⟨bytes, hbytes⟩ : ∃ bytes, bytes = (utf16 s).flatMap fun u => leBytes 2 u.toNat := ⟨_, rfl⟩
  have hlength : bytes.length = 2 * (utf16 s).length := by
    rw [hbytes, length_flatMap]
    simp [Nat.mul_comm]
  have hpos := length_pos_iff.mpr (utf16_ne_nil hs)
  have hne : bytes ≠ [] := fun h => by
    rw [h, length_nil] at hlength
    omega
  have hbig : bytes.take 2 = [0xFE, 0xFF] ↔ s.head? = some '\uFFFE' := by
    rw [hbytes]
    exact take_utf16 (n := 0xFFFE) (by decide) (.inr (by decide)) (.inr (by decide))
  have hlittle : bytes.take 2 = [0xFF, 0xFE] ↔ s.head? = some '\uFEFF' := by
    rw [hbytes]
    exact take_utf16 (n := 0xFEFF) (by decide) (.inr (by decide)) (.inr (by decide))
  -- without its mark the text is shorter
  have hshort : ∀ bigEndian, decodeUtf16 bigEndian (bytes.drop 2) ≠ utf16 s := by
    intro bigEndian h
    obtain ⟨u, us, hus⟩ := exists_cons_of_ne_nil (utf16_ne_nil hs)
    have hdrop : bytes.drop 2 = us.flatMap fun u => leBytes 2 u.toNat := by
      rw [hbytes, hus, flatMap_cons]
      exact drop_left' length_leBytes
    have hcount := congrArg List.length h
    rw [decodeUtf16, length_map, hdrop, chunksExact_flatMap (by decide) fun _ => length_leBytes,
      length_map, hus, length_cons] at hcount
    omega
  rw [← hbytes, Codecs.decode, if_neg hne, Recoverable]
  split_ifs with h h'
  · exact iff_of_false (hshort _) fun hnot => hnot.2 (hbig.mp h)
  · exact iff_of_false (hshort _) fun hnot => hnot.1 (hlittle.mp h')
  · refine iff_of_true ?_ ⟨fun h => h' (hlittle.mpr h), fun h'' => h (hbig.mpr h'')⟩
    rw [codeUnits, hbytes, decodeUtf16_le]

lemma decode_utf32 (codecs : Codecs) (hs : s ≠ []) :
    codeUnits (codecs.decode (s.flatMap fun c => beBytes 4 c.toNat) .utf32) = utf16 s ↔
      Recoverable s .utf32 := by
  obtain ⟨bytes, hbytes⟩ : ∃ bytes, bytes = s.flatMap fun c => beBytes 4 c.toNat := ⟨_, rfl⟩
  obtain ⟨c, t, rfl⟩ := exists_cons_of_ne_nil hs
  have hhead : bytes.take 4 = beBytes 4 c.toNat := by
    rw [hbytes, flatMap_cons]
    exact take_left' length_beBytes
  have hne : bytes ≠ [] := fun h => by
    have hlength := congrArg List.length hhead
    rw [h, length_beBytes] at hlength
    cases hlength
  have hnum : ∀ l, bytes.take 4 = l → c.toNat = fromBeBytes l := by
    intro l hl
    rw [← hl, hhead, fromBeBytes_beBytes (toNat_lt_word c)]
  have hvalid := toNat_lt_or c
  have htext : ∀ t, codeUnits (.utf8 t) = utf16 (c :: t) ↔ t = c :: t := fun t => utf16_injective.eq_iff
  rw [← hbytes, Codecs.decode, if_neg hne, Recoverable]
  split_ifs with h h'
  · have hcode : c.toNat = 0xFEFF := hnum _ h
    have hdrop : bytes.drop 4 = t.flatMap fun c => beBytes 4 c.toNat := by
      rw [hbytes, flatMap_cons]
      exact drop_left' length_beBytes
    apply iff_of_false
    · rw [hdrop, decodeUtf32_be]
      intro heq
      have hcount := congrArg List.length (utf16_injective heq)
      rw [length_cons] at hcount
      omega
    · intro hall
      have hsame := hall c mem_cons_self
      rw [swapped, hcode] at hsame
      rw [← hsame] at hcode
      exact absurd hcode (by decide)
  · have hcode : c.toNat = 0xFFFE0000 := hnum _ h'
    omega
  · rw [hbytes, decodeUtf32_swapped]
    refine utf16_injective.eq_iff.trans ⟨fun heq => ?_, fun hall => ?_⟩
    · exact map_inj_left.mp (heq.trans (map_id _).symm)
    · exact (map_congr_left hall).trans (map_id _)

namespace Codecs

variable {codecs : Codecs}

def Convertible (codecs : Codecs) (s : List Char) : NSStringEncoding → Prop
  | .ascii => ∀ c ∈ s, c.toNat ≤ 0x7F
  | .isoLatin1 => ∀ c ∈ s, c.toNat ≤ 0xFF
  | .nextstep | .nextStepLatin => ∀ c ∈ s, isNextstep c
  | .macOsRoman => ((codecs.codec .macintosh).encode s).2 = false
  | e => ∀ enc, encodingRsFor e = some enc → ((codecs.codec enc).encode s).2 = false

lemma codec_eq_some {codec : Codec} : codec.encodeString s false = some b ↔
    (codec.encode s).2 = false ∧ b = (codec.encode s).1 := by
  rw [Codec.encodeString]
  cases (codec.encode s).2
  · rw [Bool.false_and, if_neg (by decide), Option.some_inj, eq_comm]
    exact (and_iff_right rfl).symm
  · rw [Bool.not_false, Bool.and_true, if_pos rfl]
    exact ⟨fun h => (by cases h), fun h => (by cases h.1)⟩

lemma legacy_eq_some (codecs : Codecs) (e : NSStringEncoding) : codecs.encodeLegacy s e false = some b ↔
    (∀ enc, encodingRsFor e = some enc → ((codecs.codec enc).encode s).2 = false) ∧
      b = ((encodingRsFor e).map fun enc => ((codecs.codec enc).encode s).1).getD (utf8 s) := by
  rw [encodeLegacy]
  cases encodingRsFor e with
  | none =>
    rw [Option.some_inj, eq_comm]
    refine (and_iff_right ?_).symm
    rintro enc ⟨⟩
  | some enc =>
    refine codec_eq_some.trans (and_congr_left fun _ => ?_)
    refine ⟨fun h enc' h' => ?_, fun h => h enc rfl⟩
    rw [← Option.some.inj h', h]

def bytesOf (codecs : Codecs) (s : List Char) (e : NSStringEncoding) : List UInt8 :=
  match e with
  | .ascii | .isoLatin1 => s.map ascii
  | .utf8 => Lib.utf8 s
  | .macOsRoman => ((codecs.codec .macintosh).encode s).1
  | .nextstep | .nextStepLatin => encodeNextstep s
  | .utf16LittleEndian | .utf16 => (Lib.utf16 s).flatMap fun u => leBytes 2 u.toNat
  | .utf16BigEndian => (Lib.utf16 s).flatMap fun u => beBytes 2 u.toNat
  | .utf32LittleEndian => s.flatMap fun c => leBytes 4 c.toNat
  | .utf32BigEndian | .utf32 => s.flatMap fun c => beBytes 4 c.toNat
  | e => ((encodingRsFor e).map fun enc => ((codecs.codec enc).encode s).1).getD (Lib.utf8 s)

lemma encodeString_eq_some : codecs.encodeString s e false = some b ↔
    codecs.Convertible s e ∧ b = codecs.bytesOf s e := by
  have hnextstep : (if (!false && s.any (!isNextstep ·)) = true then none else some (encodeNextstep s)) = some b ↔
      (∀ c ∈ s, isNextstep c) ∧ b = encodeNextstep s := by
    rw [Bool.not_false, Bool.true_and]
    by_cases hall : ∀ c ∈ s, isNextstep c
    · rw [if_neg (by simpa using hall), Option.some_inj, eq_comm]
      exact (and_iff_right hall).symm
    · rw [if_pos (by simpa using hall)]
      exact ⟨fun h => (by cases h), fun h => absurd h.1 hall⟩
  have hall : ∀ {e} {l : List UInt8}, encodingRsFor e = none → (some l = some b ↔
      (∀ enc, encodingRsFor e = some enc → ((codecs.codec enc).encode s).2 = false) ∧ b = l) := by
    intro e l hnone
    rw [Option.some_inj, eq_comm]
    refine (and_iff_right fun enc h => ?_).symm
    rw [hnone] at h
    cases h
  cases e with
  | ascii => exact encodeUpTo_eq_some
  | isoLatin1 => exact encodeUpTo_eq_some
  | nextstep => exact hnextstep
  | nextStepLatin => exact hnextstep
  | macOsRoman => exact codec_eq_some
  | utf8 => exact hall rfl
  | utf16 => exact hall rfl
  | utf16BigEndian => exact hall rfl
  | utf16LittleEndian => exact hall rfl
  | utf32 => exact hall rfl
  | utf32BigEndian => exact hall rfl
  | utf32LittleEndian => exact hall rfl
  | japaneseEuc => exact legacy_eq_some codecs .japaneseEuc
  | nonLossyAscii => exact legacy_eq_some codecs .nonLossyAscii
  | shiftJis => exact legacy_eq_some codecs .shiftJis
  | isoLatin2 => exact legacy_eq_some codecs .isoLatin2
  | windowsCp1250 => exact legacy_eq_some codecs .windowsCp1250
  | windowsCp1251 => exact legacy_eq_some codecs .windowsCp1251
  | windowsCp1252 => exact legacy_eq_some codecs .windowsCp1252
  | windowsCp1253 => exact legacy_eq_some codecs .windowsCp1253
  | windowsCp1254 => exact legacy_eq_some codecs .windowsCp1254
  | iso2022Jp => exact legacy_eq_some codecs .iso2022Jp
  | other n => exact legacy_eq_some codecs (.other n)

def RoundTrips (codecs : Codecs) (s : List Char) (e : NSStringEncoding) : Prop :=
  ∀ b, codecs.encodeString s e false = some b → codeUnits (codecs.decode b e) = Lib.utf16 s

lemma roundTrips_iff_bytes : codecs.RoundTrips s e ↔
    (codecs.Convertible s e → codeUnits (codecs.decode (codecs.bytesOf s e) e) = utf16 s) := by
  constructor
  · exact fun h hconvertible => h _ (encodeString_eq_some.mpr ⟨hconvertible, rfl⟩)
  · intro h b hb
    obtain ⟨hconvertible, rfl⟩ := encodeString_eq_some.mp hb
    exact h hconvertible

lemma bytesOf_eq_nil (hlaw : codecs.Lawful) : codecs.bytesOf s e = [] ↔ s = [] := by
  have hutf8 : utf8 s = [] ↔ s = [] := by
    rw [← utf8_nil]
    exact utf8_injective.eq_iff
  have hutf16 : ∀ {f : UInt16 → List UInt8}, (∀ u, (f u).length = 2) →
      ((utf16 s).flatMap f = [] ↔ s = []) := by
    intro f hf
    constructor
    · intro h
      by_contra hne
      obtain ⟨u, us, hus⟩ := exists_cons_of_ne_nil (utf16_ne_nil hne)
      have hlength := congrArg List.length h
      rw [hus, flatMap_cons, length_append, hf, length_nil] at hlength
      omega
    · rintro rfl
      rfl
  have hutf32 : ∀ {f : Char → List UInt8}, (∀ c, (f c).length = 4) → (s.flatMap f = [] ↔ s = []) := by
    intro f hf
    constructor
    · intro h
      by_contra hne
      obtain ⟨c, t, rfl⟩ := exists_cons_of_ne_nil hne
      have hlength := congrArg List.length h
      rw [flatMap_cons, length_append, hf, length_nil] at hlength
      omega
    · rintro rfl
      rfl
  cases e with
  | ascii => exact map_eq_nil_iff
  | isoLatin1 => exact map_eq_nil_iff
  | nextstep => exact map_eq_nil_iff
  | nextStepLatin => exact map_eq_nil_iff
  | macOsRoman => exact hlaw.bytes .macintosh s
  | utf8 => exact hutf8
  | utf16 => exact hutf16 fun _ => length_leBytes
  | utf16BigEndian => exact hutf16 fun _ => length_beBytes
  | utf16LittleEndian => exact hutf16 fun _ => length_leBytes
  | utf32 => exact hutf32 fun _ => length_beBytes
  | utf32BigEndian => exact hutf32 fun _ => length_beBytes
  | utf32LittleEndian => exact hutf32 fun _ => length_leBytes
  | japaneseEuc => exact hlaw.bytes .eucJp s
  | nonLossyAscii => exact hutf8
  | shiftJis => exact hlaw.bytes .shiftJis s
  | isoLatin2 => exact hlaw.bytes .iso8859_2 s
  | windowsCp1250 => exact hlaw.bytes .windows1250 s
  | windowsCp1251 => exact hlaw.bytes .windows1251 s
  | windowsCp1252 => exact hlaw.bytes .windows1252 s
  | windowsCp1253 => exact hlaw.bytes .windows1253 s
  | windowsCp1254 => exact hlaw.bytes .windows1254 s
  | iso2022Jp => exact hlaw.bytes .iso2022Jp s
  | other n => exact hutf8

lemma roundTrips_iff_recoverable (hlaw : codecs.Lawful) : codecs.RoundTrips s e ↔ Recoverable s e := by
  rw [roundTrips_iff_bytes]
  by_cases hs : s = []
  · subst hs
    have hnil : codecs.bytesOf [] e = [] := (bytesOf_eq_nil hlaw).mpr rfl
    refine iff_of_true (fun _ => ?_) ?_
    · rw [hnil]
      rfl
    · cases e with
      | utf16 => exact ⟨(by rintro ⟨⟩), (by rintro ⟨⟩)⟩
      | utf32 => exact forall_mem_nil _
      | _ => trivial
  have hne : codecs.bytesOf s e ≠ [] := fun h => hs ((bytesOf_eq_nil hlaw).mp h)
  have hlegacy : ∀ {enc}, encodingRsFor e = some enc → codecs.bytesOf s e = ((codecs.codec enc).encode s).1 →
      codecs.decode (codecs.bytesOf s e) e = .utf8 (codecs.decodeLegacy (codecs.bytesOf s e) e) →
      ((∀ enc, encodingRsFor e = some enc → ((codecs.codec enc).encode s).2 = false) →
        codeUnits (codecs.decode (codecs.bytesOf s e) e) = utf16 s) := by
    intro enc henc hbytes hdecode hconvertible
    rw [hdecode, decodeLegacy, henc, hbytes]
    exact congrArg utf16 (hlaw.decode enc s (hconvertible enc henc))
  cases e with
  | ascii =>
    refine iff_of_true (fun hconvertible => ?_) trivial
    rw [decode, if_neg hne]
    refine congrArg utf16 ((List.map_map ..).trans ((map_congr_left fun c hc => ?_).trans (map_id s)))
    have hsmall : c.toNat < 0x80 := Nat.lt_succ_of_le (hconvertible c hc)
    rw [Function.comp_apply, if_pos (by rwa [toNat_ascii hsmall]), asChar_ascii hsmall]
    rfl
  | isoLatin1 =>
    refine iff_of_true (fun hconvertible => ?_) trivial
    rw [decode, if_neg hne]
    refine congrArg utf16 ((List.map_map ..).trans ((map_congr_left fun c hc => ?_).trans (map_id s)))
    exact asChar_ascii_byte (hconvertible c hc)
  | nextstep =>
    refine iff_of_true (fun hconvertible => ?_) trivial
    rw [decode, if_neg hne]
    exact congrArg utf16 (decodeNextstep_encodeNextstep hconvertible)
  | nextStepLatin =>
    refine iff_of_true (fun hconvertible => ?_) trivial
    rw [decode, if_neg hne]
    exact congrArg utf16 (decodeNextstep_encodeNextstep hconvertible)
  | macOsRoman =>
    refine iff_of_true (fun hconvertible => ?_) trivial
    rw [decode, if_neg hne]
    exact congrArg utf16 (hlaw.decode .macintosh s hconvertible)
  | utf8 =>
    refine iff_of_true (fun _ => ?_) trivial
    rw [decode, if_neg hne]
    change utf16 ((fromUtf8 (utf8 s)).getD _) = utf16 s
    rw [fromUtf8_utf8, Option.getD_some]
  | utf16 => exact (imp_iff_right (by rintro _ ⟨⟩)).trans (decode_utf16 codecs hs)
  | utf16BigEndian =>
    refine iff_of_true (fun _ => ?_) trivial
    rw [decode, if_neg hne]
    exact decodeUtf16_be (utf16 s)
  | utf16LittleEndian =>
    refine iff_of_true (fun _ => ?_) trivial
    rw [decode, if_neg hne]
    exact decodeUtf16_le (utf16 s)
  | utf32 => exact (imp_iff_right (by rintro _ ⟨⟩)).trans (decode_utf32 codecs hs)
  | utf32BigEndian =>
    refine iff_of_true (fun _ => ?_) trivial
    rw [decode, if_neg hne]
    exact congrArg utf16 (decodeUtf32_be s)
  | utf32LittleEndian =>
    refine iff_of_true (fun _ => ?_) trivial
    rw [decode, if_neg hne]
    exact congrArg utf16 (decodeUtf32_le s)
  | nonLossyAscii =>
    refine iff_of_true (fun _ => ?_) trivial
    have hdecode : codecs.decode (codecs.bytesOf s .nonLossyAscii) .nonLossyAscii = .utf8 (fromUtf8Lossy (utf8 s)) := if_neg hne
    rw [hdecode, fromUtf8Lossy_utf8]
    rfl
  | other n =>
    refine iff_of_true (fun _ => ?_) trivial
    have hdecode : codecs.decode (codecs.bytesOf s (.other n)) (.other n) = .utf8 (fromUtf8Lossy (utf8 s)) := if_neg hne
    rw [hdecode, fromUtf8Lossy_utf8]
    rfl
  | _ => exact iff_of_true (hlegacy rfl rfl (if_neg hne)) trivial

lemma lossy_of_lossless (h : codecs.encodeString s e false = some b) : codecs.encodeString s e true = some b := by
  have hcodec : ∀ {codec : Codec}, codec.encodeString s false = some b → codec.encodeString s true = some b := by
    intro codec h
    obtain ⟨-, rfl⟩ := codec_eq_some.mp h
    rw [Codec.encodeString, Bool.not_true, Bool.and_false, if_neg (by decide)]
  have hlegacy : ∀ e, codecs.encodeLegacy s e false = some b → codecs.encodeLegacy s e true = some b := by
    intro e h
    unfold encodeLegacy at h ⊢
    cases henc : encodingRsFor e with
    | none =>
      rw [henc] at h
      exact h
    | some enc =>
      rw [henc] at h
      exact hcodec h
  have hnextstep : (if (!false && s.any (!isNextstep ·)) = true then none else some (encodeNextstep s)) = some b →
      some (encodeNextstep s) = some b := by
    intro h
    split_ifs at h
    exact h
  cases e with
  | ascii => exact (encodeUpTo_lossy _ s).2 b h
  | isoLatin1 => exact (encodeUpTo_lossy _ s).2 b h
  | nextstep => exact hnextstep h
  | nextStepLatin => exact hnextstep h
  | macOsRoman => exact hcodec h
  | utf8 => exact h
  | utf16 => exact h
  | utf16BigEndian => exact h
  | utf16LittleEndian => exact h
  | utf32 => exact h
  | utf32BigEndian => exact h
  | utf32LittleEndian => exact h
  | japaneseEuc => exact hlegacy .japaneseEuc h
  | nonLossyAscii => exact hlegacy .nonLossyAscii h
  | shiftJis => exact hlegacy .shiftJis h
  | isoLatin2 => exact hlegacy .isoLatin2 h
  | windowsCp1250 => exact hlegacy .windowsCp1250 h
  | windowsCp1251 => exact hlegacy .windowsCp1251 h
  | windowsCp1252 => exact hlegacy .windowsCp1252 h
  | windowsCp1253 => exact hlegacy .windowsCp1253 h
  | windowsCp1254 => exact hlegacy .windowsCp1254 h
  | iso2022Jp => exact hlegacy .iso2022Jp h
  | other n => exact hlegacy (.other n) h

lemma bytesForEncoding_eq_nil (hlaw : codecs.Lawful) : codecs.bytesForEncoding s e = [] ↔ s = [] := by
  by_cases hconvertible : codecs.Convertible s e
  · have hsome := lossy_of_lossless (encodeString_eq_some.mpr ⟨hconvertible, rfl⟩)
    rw [bytesForEncoding, hsome, Option.getD_some, bytesOf_eq_nil hlaw]
  have hcodec : ∀ enc, (((codecs.codec enc).encodeString s true).getD (utf8 s)) = [] ↔ s = [] := by
    intro enc
    rw [Codec.encodeString, Bool.not_true, Bool.and_false, if_neg (by decide), Option.getD_some, hlaw.bytes]
  have hupTo : ∀ limit, ((encodeUpTo limit true s).getD (utf8 s)) = [] ↔ s = [] := by
    intro limit
    obtain ⟨b, hb⟩ := Option.isSome_iff_exists.mp (encodeUpTo_lossy limit s).1
    rw [hb, Option.getD_some, ← length_eq_zero_iff, length_encodeUpTo hb, length_eq_zero_iff]
  cases e with
  | ascii => exact hupTo _
  | isoLatin1 => exact hupTo _
  | nextstep => exact map_eq_nil_iff
  | nextStepLatin => exact map_eq_nil_iff
  | macOsRoman => exact hcodec _
  | japaneseEuc => exact hcodec .eucJp
  | shiftJis => exact hcodec .shiftJis
  | isoLatin2 => exact hcodec .iso8859_2
  | windowsCp1250 => exact hcodec .windows1250
  | windowsCp1251 => exact hcodec .windows1251
  | windowsCp1252 => exact hcodec .windows1252
  | windowsCp1253 => exact hcodec .windows1253
  | windowsCp1254 => exact hcodec .windows1254
  | iso2022Jp => exact hcodec .iso2022Jp
  | _ => exact absurd (by rintro _ ⟨⟩) hconvertible

end Codecs

end TouchHle.Foundation
