import TouchHle.Foundation.EncodingRoundTrip

/-! When the methods that tell whether a string can be encoded, how long it will be and what it will be
agree. -/

namespace TouchHle.Foundation

open Lib JsonWriter List

variable {codecs : Codecs} {s : List Char} {c : Char} {e : NSStringEncoding} {b : List UInt8}

lemma countP_utf8 : ((Lib.utf8 s).countP fun b => b.toNat < 0x80) = s.countP fun c => c.toNat ≤ 0x7F := by
  induction s with
  | nil => rfl
  | cons c s ih =>
    rw [utf8_cons, countP_append, ih, countP_cons, add_comm]
    congr 1
    by_cases hc : c.toNat < 0x80
    · have hle : c.toNat ≤ 0x7F := Nat.le_of_lt_succ hc
      rw [encode_ascii hc, countP_singleton, toNat_ascii hc, decide_eq_true hc, decide_eq_true hle]
    · have hle : ¬ c.toNat ≤ 0x7F := fun h => hc (Nat.lt_succ_of_le h)
      rw [decide_eq_false hle, if_neg (by decide), List.countP_eq_zero]
      intro b hb
      rw [decide_eq_true_eq]
      exact utf8EncodeChar_high (Nat.le_of_not_lt hc) b hb

lemma length_utf8 : (Lib.utf8 s).length = s.length ↔ ∀ c ∈ s, c.toNat ≤ 0x7F := by
  have hle : ∀ s : List Char, s.length ≤ (Lib.utf8 s).length := by
    intro s
    induction s with
    | nil => exact le_refl 0
    | cons c s ih =>
      have hpos := String.length_utf8EncodeChar c ▸ c.utf8Size_pos
      rw [utf8_cons, length_append, length_cons]
      omega
  induction s with
  | nil => exact iff_of_true rfl (forall_mem_nil _)
  | cons c s ih =>
    have htail := hle s
    have hpos := c.utf8Size_pos
    have hone : c.utf8Size = 1 ↔ c.toNat ≤ 0x7F := by
      rw [Char.utf8Size_eq_one_iff, UInt32.le_iff_toNat_le]
      rfl
    rw [utf8_cons, length_append, String.length_utf8EncodeChar, length_cons, forall_mem_cons]
    refine Iff.trans ?_ (and_congr hone ih)
    omega

lemma length_utf16 : ((Lib.utf16 s).length * 2) = (s.map fun c => if c.toNat ≤ 0xFFFF then 2 else 4).sum := by
  induction s with
  | nil => rfl
  | cons c s ih =>
    rw [utf16_cons, length_append, add_mul, ih, map_cons, sum_cons, utf16Char]
    congr 1
    by_cases hc : c.toNat < 0x10000
    · rw [if_pos hc, if_pos (Nat.le_of_lt_succ hc)]
      rfl
    · rw [if_neg hc, if_neg fun h => hc (Nat.lt_succ_of_le h)]
      rfl

lemma length_flatMap_const {α : Type} {f : α → List UInt8} {k : ℕ} (hf : ∀ a, (f a).length = k) (l : List α) :
    (l.flatMap f).length = l.length * k := by
  induction l with
  | nil => rw [flatMap_nil, length_nil, length_nil, zero_mul]
  | cons a l ih => rw [flatMap_cons, length_append, ih, hf, length_cons, Nat.succ_mul, add_comm]

lemma countP_eq_length {limit : ℕ} : (s.countP fun c => c.toNat ≤ limit) = s.length ↔ ∀ c ∈ s, c.toNat ≤ limit := by
  rw [List.countP_eq_length]
  simp only [decide_eq_true_eq]

lemma countP_eq_zero {limit : ℕ} : (s.countP fun c => c.toNat ≤ limit) = 0 ↔ ∀ c ∈ s, limit < c.toNat := by
  rw [List.countP_eq_zero]
  simp only [decide_eq_true_eq, not_le]

namespace Codecs

/-- What the methods tell of a string: it can be converted when there is data, the length is that of the
data, and without data it is zero. -/
structure MethodsAgree (codecs : Codecs) (s : List Char) (e : NSStringEncoding) (cls : StringClass) : Prop where
  success : codecs.canBeConvertedToEncoding s e = (codecs.dataUsingEncoding s e).isSome
  length : ∀ b, codecs.dataUsingEncoding s e = some b → codecs.lengthOfBytesUsingEncoding s e cls = b.length
  failure : codecs.dataUsingEncoding s e = none → codecs.lengthOfBytesUsingEncoding s e cls = 0

/-- The strings of which the length is right. One that is mutable has to be convertible. The method of the
others counts the characters or the bytes in UTF-8. -/
def Countable (codecs : Codecs) (s : List Char) (e : NSStringEncoding) : StringClass → Prop
  | .touchHleNSMutableString => codecs.Convertible s e
  | .touchHleNSString =>
    match e with
    | .ascii => (∀ c ∈ s, c.toNat ≤ 0x7F) ∨ ∀ c ∈ s, 0x7F < c.toNat
    | .isoLatin1 => (∀ c ∈ s, c.toNat ≤ 0xFF) ∨ ∀ c ∈ s, 0xFF < c.toNat
    | .windowsCp1252 =>
      (codecs.Convertible s .windowsCp1252 ∧ ∀ c ∈ s, c.toNat ≤ 0xFF) ∨
        ¬ codecs.Convertible s .windowsCp1252 ∧ ∀ c ∈ s, 0xFF < c.toNat
    | .shiftJis => codecs.Convertible s .shiftJis
    | .japaneseEuc =>
      codecs.Convertible s .japaneseEuc ∧ ((codecs.codec .eucJp).encode s).1.length = (Lib.utf8 s).length
    | .iso2022Jp =>
      codecs.Convertible s .iso2022Jp ∧ ((codecs.codec .iso2022Jp).encode s).1.length = (Lib.utf8 s).length
    | .macOsRoman | .nextstep | .nextStepLatin | .isoLatin2 | .windowsCp1250 | .windowsCp1251
    | .windowsCp1253 | .windowsCp1254 => codecs.Convertible s e ∧ ∀ c ∈ s, c.toNat ≤ 0x7F
    | _ => True

lemma methodsAgree_iff {cls : StringClass} : codecs.MethodsAgree s e cls ↔
    (codecs.Convertible s e → codecs.lengthOfBytesUsingEncoding s e cls = (codecs.bytesOf s e).length) ∧
      (¬ codecs.Convertible s e → codecs.lengthOfBytesUsingEncoding s e cls = 0) := by
  have hnone : codecs.dataUsingEncoding s e = none ↔ ¬ codecs.Convertible s e := by
    rw [Option.eq_none_iff_forall_not_mem]
    constructor
    · exact fun h hconvertible => h _ (encodeString_eq_some.mpr ⟨hconvertible, rfl⟩)
    · exact fun h b hb => h (encodeString_eq_some.mp hb).1
  constructor
  · rintro ⟨-, hlength, hfailure⟩
    exact ⟨fun h => hlength _ (encodeString_eq_some.mpr ⟨h, rfl⟩), fun h => hfailure (hnone.mpr h)⟩
  · rintro ⟨hlength, hfailure⟩
    refine ⟨rfl, fun b hb => ?_, fun h => hfailure (hnone.mp h)⟩
    obtain ⟨hconvertible, rfl⟩ := encodeString_eq_some.mp hb
    exact hlength hconvertible

lemma convertible_nil (hlaw : codecs.Lawful) : codecs.Convertible [] e := by
  have hlegacy : ∀ enc, encodingRsFor e = some enc → ((codecs.codec enc).encode []).2 = false :=
    fun enc _ => hlaw.nil enc
  cases e with
  | ascii => exact forall_mem_nil _
  | isoLatin1 => exact forall_mem_nil _
  | nextstep => exact forall_mem_nil _
  | nextStepLatin => exact forall_mem_nil _
  | macOsRoman => exact hlaw.nil .macintosh
  | _ => exact hlegacy

lemma ne_nil_of_not_convertible (hlaw : codecs.Lawful) (h : ¬ codecs.Convertible s e) : s ≠ [] := by
  rintro rfl
  exact h (convertible_nil hlaw)

lemma mutable_agrees (hlaw : codecs.Lawful) :
    codecs.MethodsAgree s e .touchHleNSMutableString ↔ codecs.Convertible s e := by
  rw [methodsAgree_iff]
  constructor
  · rintro ⟨-, hfailure⟩
    by_contra hnot
    have hbytes := length_eq_zero_iff.mp (hfailure hnot)
    exact ne_nil_of_not_convertible hlaw hnot ((bytesForEncoding_eq_nil hlaw).mp hbytes)
  · intro h
    refine ⟨fun _ => ?_, absurd h⟩
    have hsome := lossy_of_lossless (encodeString_eq_some.mpr ⟨h, rfl⟩)
    rw [lengthOfBytesUsingEncoding, bytesForEncoding, hsome]
    rfl

lemma bytes_agree {P : Prop} {n : ℕ} (hnil : ¬ P → s ≠ []) :
    ((P → (Lib.utf8 s).length = n) ∧ (¬ P → (Lib.utf8 s).length = 0)) ↔ P ∧ n = (Lib.utf8 s).length := by
  constructor
  · rintro ⟨hlength, hfailure⟩
    have hP : P := by
      by_contra hnot
      refine hnil hnot (utf8_injective ?_)
      rw [utf8_nil]
      exact length_eq_zero_iff.mp (hfailure hnot)
    exact ⟨hP, (hlength hP).symm⟩
  · rintro ⟨hP, hlength⟩
    exact ⟨fun _ => hlength.symm, absurd hP⟩

lemma utf8_agrees {P : Prop} {n : ℕ} (hnil : ¬ P → s ≠ []) (hn : P → n = s.length) :
    ((P → (Lib.utf8 s).length = n) ∧ (¬ P → (Lib.utf8 s).length = 0)) ↔ P ∧ ∀ c ∈ s, c.toNat ≤ 0x7F := by
  refine (bytes_agree hnil).trans (and_congr_right fun hP => ?_)
  rw [hn hP, eq_comm]
  exact length_utf8

lemma count_agrees {P : Prop} {limit n : ℕ} (hn : P → n = s.length) :
    ((P → (s.countP fun c => c.toNat ≤ limit) = n) ∧ (¬ P → (s.countP fun c => c.toNat ≤ limit) = 0)) ↔
      (P ∧ ∀ c ∈ s, c.toNat ≤ limit) ∨ ¬ P ∧ ∀ c ∈ s, limit < c.toNat := by
  by_cases hP : P
  · rw [hn hP, countP_eq_length]
    simp only [hP, true_implies, not_true_eq_false, false_implies, and_true, true_and, false_and, or_false]
  · rw [countP_eq_zero]
    simp only [hP, false_implies, not_false_eq_true, true_implies, true_and, false_and, false_or]

lemma limit_agrees {limit : ℕ} :
    (((∀ c ∈ s, c.toNat ≤ limit) ∧ ∀ c ∈ s, c.toNat ≤ limit) ∨
      ¬ (∀ c ∈ s, c.toNat ≤ limit) ∧ ∀ c ∈ s, limit < c.toNat) ↔
      (∀ c ∈ s, c.toNat ≤ limit) ∨ ∀ c ∈ s, limit < c.toNat := by
  rw [and_self]
  by_cases h : ∀ c ∈ s, c.toNat ≤ limit
  · exact iff_of_true (.inl h) (.inl h)
  · exact or_congr_right (and_iff_right h)

lemma length_encodeNextstep : (encodeNextstep s).length = s.length := length_map _

lemma object_agrees (hlaw : codecs.Lawful) :
    codecs.MethodsAgree s e .touchHleNSString ↔ codecs.Countable s e .touchHleNSString := by
  have hnil : ∀ {e}, ¬ codecs.Convertible s e → s ≠ [] := ne_nil_of_not_convertible hlaw
  have htotal : ∀ {P : Prop} {m n : ℕ}, P → m = n → (((P → m = n) ∧ (¬ P → m = 0)) ↔ True) :=
    fun hP h => iff_true_intro ⟨fun _ => h, absurd hP⟩
  have hnone : ∀ {e}, encodingRsFor e = none →
      ∀ enc, encodingRsFor e = some enc → ((codecs.codec enc).encode s).2 = false := by
    intro e hnone enc h
    rw [hnone] at h
    cases h
  rw [methodsAgree_iff]
  cases e with
  | ascii =>
    have hcount : codecs.lengthOfBytesUsingEncoding s .ascii .touchHleNSString =
        s.countP fun c => c.toNat ≤ 0x7F := countP_utf8
    rw [hcount]
    exact (count_agrees fun _ => length_map _).trans limit_agrees
  | isoLatin1 => exact (count_agrees fun _ => length_map _).trans limit_agrees
  | windowsCp1252 => exact count_agrees fun h => hlaw.single .windows1252 s trivial (h .windows1252 rfl)
  | shiftJis =>
    constructor
    · rintro ⟨-, hfailure⟩
      by_contra hnot
      have hne : s ≠ [] := ne_nil_of_not_convertible (e := .shiftJis) hlaw hnot
      exact hne ((hlaw.bytes .shiftJis s).mp (length_eq_zero_iff.mp (hfailure hnot)))
    · exact fun h => ⟨fun _ => rfl, absurd h⟩
  | nextstep => exact utf8_agrees hnil fun _ => length_encodeNextstep
  | nextStepLatin => exact utf8_agrees hnil fun _ => length_encodeNextstep
  | macOsRoman => exact utf8_agrees hnil fun h => hlaw.single .macintosh s trivial h
  | isoLatin2 => exact utf8_agrees hnil fun h => hlaw.single .iso8859_2 s trivial (h .iso8859_2 rfl)
  | windowsCp1250 => exact utf8_agrees hnil fun h => hlaw.single .windows1250 s trivial (h .windows1250 rfl)
  | windowsCp1251 => exact utf8_agrees hnil fun h => hlaw.single .windows1251 s trivial (h .windows1251 rfl)
  | windowsCp1253 => exact utf8_agrees hnil fun h => hlaw.single .windows1253 s trivial (h .windows1253 rfl)
  | windowsCp1254 => exact utf8_agrees hnil fun h => hlaw.single .windows1254 s trivial (h .windows1254 rfl)
  | japaneseEuc => exact bytes_agree hnil
  | iso2022Jp => exact bytes_agree hnil
  | utf8 => exact htotal (hnone rfl) rfl
  | nonLossyAscii => exact htotal (hnone rfl) rfl
  | other n => exact htotal (hnone rfl) rfl
  | utf16 => exact htotal (hnone rfl) (length_utf16.symm.trans (length_flatMap_const (fun _ => length_leBytes) _).symm)
  | utf16LittleEndian =>
    exact htotal (hnone rfl) (length_utf16.symm.trans (length_flatMap_const (fun _ => length_leBytes) _).symm)
  | utf16BigEndian =>
    exact htotal (hnone rfl) (length_utf16.symm.trans (length_flatMap_const (fun _ => length_beBytes) _).symm)
  | utf32 => exact htotal (hnone rfl) (length_flatMap_const (fun _ => length_beBytes) s).symm
  | utf32BigEndian => exact htotal (hnone rfl) (length_flatMap_const (fun _ => length_beBytes) s).symm
  | utf32LittleEndian => exact htotal (hnone rfl) (length_flatMap_const (fun _ => length_leBytes) s).symm

/-- A string object is encoded so that it is decoded again, lossy encoding does the same where nothing is
lost, and the methods agree about it, exactly if it can be recovered and its length can be counted. -/
theorem encodings_round_trip (hlaw : codecs.Lawful) (h : StringHostObject) (cls : StringClass)
    (hs : h.toUtf8 = some s) :
    ((∀ b, codecs.encodeString s e false = some b → codeUnits (codecs.decode b e) = codeUnits h) ∧
      (∀ b, codecs.encodeString s e false = some b → codecs.encodeString s e true = some b) ∧
      codecs.MethodsAgree s e cls) ↔ Recoverable s e ∧ codecs.Countable s e cls := by
  have hunits : codeUnits h = Lib.utf16 s := codeUnits_of_toUtf8 hs
  have hagree : codecs.MethodsAgree s e cls ↔ codecs.Countable s e cls := by
    cases cls with
    | touchHleNSString => exact object_agrees hlaw
    | touchHleNSMutableString => exact mutable_agrees hlaw
  rw [hunits]
  refine and_congr (roundTrips_iff_recoverable hlaw) ?_
  rw [← hagree]
  exact and_iff_right fun _ => lossy_of_lossless

def asciiCodec : Codec where
  encode s := (s.map fun c => if c.toNat ≤ 0x7F then ascii c else ascii '?', s.any (0x7F < ·.toNat))
  decode b := b.map asChar

def asciiCodecs : Codecs := ⟨fun _ => asciiCodec, false⟩

lemma asciiCodecs_lawful : asciiCodecs.Lawful where
  decode := by
    intro r s h
    have hall : ∀ c ∈ s, c.toNat ≤ 0x7F := by
      intro c hc
      have hnot := any_eq_false.mp h c hc
      rw [decide_eq_true_eq] at hnot
      exact Nat.le_of_not_lt hnot
    refine (List.map_map ..).trans ((map_congr_left fun c hc => ?_).trans (map_id s))
    rw [Function.comp_apply, if_pos (hall c hc), asChar_ascii (Nat.lt_succ_of_le (hall c hc))]
    rfl
  bytes _ _ := map_eq_nil_iff
  nil _ := rfl
  single _ _ _ _ := length_map _

theorem encodings_round_trip_plain :
    (∀ b, asciiCodecs.encodeString ['a'] .utf16 false = some b →
        codeUnits (asciiCodecs.decode b .utf16) = codeUnits (.utf16 [0x61])) ∧
      (∀ b, asciiCodecs.encodeString ['a'] .utf16 false = some b →
        asciiCodecs.encodeString ['a'] .utf16 true = some b) ∧
      asciiCodecs.MethodsAgree ['a'] .utf16 .touchHleNSString :=
  (encodings_round_trip asciiCodecs_lawful (.utf16 [0x61]) .touchHleNSString (by decide)).mpr
    ⟨⟨by decide, by decide⟩, trivial⟩

theorem utf32_is_not_recovered :
    ¬ (∀ b, asciiCodecs.encodeString ['a'] .utf32 false = some b →
        codeUnits (asciiCodecs.decode b .utf32) = codeUnits (.utf8 ['a'])) ∧
      ¬ asciiCodecs.MethodsAgree ['é', 'a'] .ascii .touchHleNSString := by
  constructor
  · intro h
    exact absurd (h [0, 0, 0, 0x61] (by decide)) (by decide)
  · intro h
    exact absurd (h.failure (by decide)) (by decide)

end Codecs

end TouchHle.Foundation
