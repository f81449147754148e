import TouchHle.Foundation.JsonObjects
import TouchHle.Foundation.JsonReading

namespace TouchHle.Foundation.JsonWriter

open Lib JsonParser NSNumberHostObject

variable {F : Type} {fl : Floats F} {f : F}

lemma hexDigit_hexChar : ∀ n < 16, hexDigit (hexChar n).toNat = some n := by decide

lemma item_encodeChar (c : Char) : Item c (encodeChar c) := by
  rw [encodeChar]
  split_ifs with hquote hslash hn hr ht hb hf hcontrol
  · subst hquote
    exact .escape (by decide)
  · subst hslash
    exact .escape (by decide)
  · subst hn
    exact .escape (by decide)
  · subst hr
    exact .escape (by decide)
  · subst ht
    exact .escape (by decide)
  · subst hb
    exact .escape (by decide)
  · subst hf
    exact .escape (by decide)
  · apply Item.unicode
    have hcode : ((0 * 16 + 0) * 16 + c.toNat / 16) * 16 + c.toNat % 16 = c.toNat := by omega
    have hzero : hexDigit '0'.toNat = some 0 := by decide
    have hhex := Hex4.mk hzero hzero (hexDigit_hexChar (c.toNat / 16) (by omega))
      (hexDigit_hexChar (c.toNat % 16) (by omega))
    rwa [hcode] at hhex
  · exact .plain (not_lt.mp hcontrol) hquote hslash

lemma items_encode (s : List Char) : Items s (s.flatMap encodeChar) := by
  induction s with
  | nil => exact .nil
  | cons c s ih => exact .cons (item_encodeChar c) ih

lemma decimal_concat (ds : List Digit) (d : Digit) : decimal (ds ++ [d]) = decimal ds * 10 + d := by
  rw [decimal, List.foldl_append]
  rfl

lemma decimalDigits_small {n : ℕ} (h : n < 10) : decimalDigits n = [Fin.ofNat 10 n] := by
  rw [decimalDigits]
  split_ifs with hzero
  · rw [hzero]
    rfl
  · rw [Nat.digits_of_lt 10 n hzero h]
    rfl

lemma decimalDigits_large {n : ℕ} (h : 10 ≤ n) :
    decimalDigits n = decimalDigits (n / 10) ++ [Fin.ofNat 10 (n % 10)] := by
  have hdiv : n / 10 ≠ 0 := by omega
  rw [decimalDigits, if_neg (by omega), decimalDigits, if_neg hdiv,
    Nat.digits_def' (by decide) (by omega)]
  rw [List.map_cons, List.reverse_cons]

lemma decimal_decimalDigits (n : ℕ) : decimal (decimalDigits n) = n := by
  induction n using Nat.strongRecOn with
  | ind n ih =>
    by_cases h : n < 10
    · rw [decimalDigits_small h]
      change 0 * 10 + n % 10 = n
      omega
    · rw [decimalDigits_large (not_lt.mp h), decimal_concat, ih (n / 10) (by omega)]
      change n / 10 * 10 + n % 10 % 10 = n
      omega

lemma decimalDigits_ne_nil (n : ℕ) : decimalDigits n ≠ [] := by
  by_cases h : n < 10
  · rw [decimalDigits_small h]
    exact List.cons_ne_nil _ _
  · rw [decimalDigits_large (not_lt.mp h)]
    exact List.append_ne_nil_of_right_ne_nil _ (List.cons_ne_nil _ _)

def integerNumeral (i : ℤ) : Numeral := ⟨i < 0, decimalDigits i.natAbs, none, none⟩

lemma integerText_eq (i : ℤ) : integerText i = (integerNumeral i).text := by
  rw [integerText, numeral_text]
  by_cases h : i < 0 <;> simp [integerNumeral, h, fractionText, exponentText]

lemma integerNumeral_value (i : ℤ) :
    (if (integerNumeral i).minus then -(decimal (integerNumeral i).int : ℤ)
      else decimal (integerNumeral i).int) = i := by
  rw [integerNumeral]
  dsimp only
  rw [decimal_decimalDigits]
  by_cases h : i < 0
  · rw [if_pos (decide_eq_true h)]
    omega
  · rw [if_neg (by simpa using h)]
    omega

lemma read_signed {i : ℤ} (h : -2 ^ 63 ≤ i ∧ i < 2 ^ 63) :
    readNumber fl.parse (integerNumeral i) = some (.longLong ⟨i, h⟩) := by
  have hi64 : parseI64 (integerNumeral i) = some ⟨i, h⟩ := by
    rw [parseI64]
    simp only [integerNumeral_value]
    exact dif_pos ⟨decimalDigits_ne_nil _, h⟩
  have hfloat : isFloat (integerNumeral i) = false := rfl
  rw [readNumber, hfloat, hi64]
  rfl

lemma read_unsigned {u : ℕ} (hlow : 2 ^ 63 ≤ u) (hlt : u < 2 ^ 64) :
    readNumber fl.parse (integerNumeral u) = some (.unsignedLongLong ⟨u, hlt⟩) := by
  have hi64 : parseI64 (integerNumeral u) = none := by
    rw [parseI64]
    simp only [integerNumeral_value]
    exact dif_neg fun h => by omega
  have hu64 : parseU64 (integerNumeral u) = some ⟨u, hlt⟩ := by
    have hdigits : decimal (integerNumeral u).int = u := decimal_decimalDigits u
    rw [parseU64]
    simp only [hdigits]
    exact dif_pos ⟨by simp [integerNumeral], decimalDigits_ne_nil _, hlt⟩
  have hfloat : isFloat (integerNumeral u) = false := rfl
  rw [readNumber, hfloat, hi64, hu64]
  rfl

def NSNumberHostObject.reading (fl : Floats F) : NSNumberHostObject F → ℚ × Bool
  | .bool b => (if b then 1 else 0, false)
  | .unsignedLongLong u => (u.toNat, false)
  | .unsignedInt u => (u.toNat, false)
  | .int i => (i.toInt, i.toInt < 0)
  | .longLong i => (i.toInt, i.toInt < 0)
  | .float f => (fl.real f, fl.negative f)
  | .double f => (fl.real f, fl.negative f)
  | .short i => (i.toInt, i.toInt < 0)
  | .unsignedShort u => (u.toNat, false)
  | .char i => (i.toInt, i.toInt < 0)

def readingOf (fl : Floats F) : NSNumber F → ℚ × Bool
  | .longLong i => ((i : ℤ), (i : ℤ) < 0)
  | .unsignedLongLong u => ((u : ℕ), false)
  | .double f => (fl.real f, fl.negative f)

def SameNumber (fl : Floats F) (n : NSNumberHostObject F) : Json (NSNumber F) → Prop
  | .bool b => n = .bool b
  | .number m => (∀ b, n ≠ .bool b) ∧ n.reading fl = readingOf fl m
  | _ => False

def NSNumberHostObject.IsFinite (fl : Floats F) : NSNumberHostObject F → Prop
  | .float f => fl.isFinite f
  | .double f => fl.isFinite f
  | _ => True

def NSNumberHostObject.IsNegativeZero (fl : Floats F) (n : NSNumberHostObject F) : Prop :=
  n.reading fl = (0, true)

/-- What the host's formatting and reading of finite numbers are for: the text is a plain decimal
that is read as the number again, and a zero after the point adds nothing. -/
structure Floats.Lawful (fl : Floats F) : Prop where
  display : ∀ f, fl.isFinite f → ∃ n : Numeral, fl.display f = n.text ∧ n.WellFormed ∧ n.exp = none ∧
    fl.parse n = f
  point : ∀ n : Numeral, n.frac = none → n.exp = none →
    fl.parse { n with frac := some [0] } = fl.parse n
  negative : ∀ f, fl.isFinite f → fl.real f ≠ 0 → (fl.negative f ↔ fl.real f < 0)

lemma spells_integer (fl : Floats F) {i : ℤ} (hlow : -2 ^ 63 ≤ i) (hhigh : i < 2 ^ 64) :
    ∃ m, Spells (readNumber fl.parse) (.value (.number m)) (integerText i) ∧
      readingOf fl m = ((i : ℚ), decide (i < 0)) := by
  rw [integerText_eq]
  have hstart : (integerNumeral i).minus = true ∨ (integerNumeral i).int ≠ [] :=
    .inr (decimalDigits_ne_nil _)
  by_cases h : i < 2 ^ 63
  · exact ⟨_, .number hstart (read_signed ⟨hlow, h⟩), rfl⟩
  · obtain ⟨u, rfl⟩ := Int.eq_ofNat_of_zero_le (show 0 ≤ i by omega)
    refine ⟨_, .number hstart (read_unsigned (by omega) (by omega)), ?_⟩
    rw [readingOf]
    have hpos : ¬ (u : ℤ) < 0 := by omega
    rw [decide_eq_false hpos]
    push_cast
    rfl

lemma char_notMem_digits {c : Char} (hc : c = '.' ∨ c = 'e' ∨ c = 'E') (ds : List Digit) :
    c ∉ ds.map Digit.char := by
  intro hmem
  obtain ⟨d, -, rfl⟩ := List.mem_map.mp hmem
  have hne : ∀ d : Digit, Digit.char d ≠ '.' ∧ Digit.char d ≠ 'e' ∧ Digit.char d ≠ 'E' := by decide
  obtain ⟨hpoint, hlower, hupper⟩ := hne d
  obtain h | h | h := hc
  · exact hpoint h
  · exact hlower h
  · exact hupper h

lemma plain_text {n : Numeral} (hfrac : n.frac = none) (hexp : n.exp = none) {c : Char}
    (hc : c = '.' ∨ c = 'e' ∨ c = 'E') : c ∉ n.text := by
  rw [numeral_text, hfrac, hexp]
  simp only [fractionText, exponentText, Option.elim, List.append_nil, List.mem_append, not_or]
  refine ⟨?_, char_notMem_digits hc _⟩
  split
  · obtain rfl | rfl | rfl := hc <;> decide
  · exact List.not_mem_nil

lemma read_double (fl : Floats F) {n : Numeral} (hwell : n.WellFormed) (hfloat : isFloat n = true) :
    readNumber fl.parse n = some (.double (fl.parse n)) := by
  rw [readNumber, if_pos hfloat, parseF64, if_pos ⟨.inl hwell.1, hwell.2.2.2⟩]
  rfl

lemma spells_float (hl : fl.Lawful) (hfin : fl.isFinite f) :
    ∃ m, Spells (readNumber fl.parse) (.value (.number m)) (encodeFloat fl f) ∧
      (readingOf fl m = (fl.real f, fl.negative f) ↔ (fl.real f, fl.negative f) ≠ (0, true)) := by
  rw [encodeFloat, if_pos hfin, formatFiniteF64]
  by_cases hwhole : (fl.real f).den = 1 ∧ |fl.real f| < 10 ^ 16
  · rw [if_pos hwhole]
    obtain ⟨hden, hsmall⟩ := hwhole
    have hreal : ((fl.real f).num : ℚ) = fl.real f := by
      rw [← Rat.num_div_den (fl.real f), hden]
      simp
    have hbound : |(fl.real f).num| < 10 ^ 16 := by
      rw [← hreal] at hsmall
      exact_mod_cast hsmall
    obtain ⟨hlow, hhigh⟩ := abs_lt.mp hbound
    obtain ⟨m, hspells, hm⟩ := spells_integer fl (i := (fl.real f).num) (by omega) (by omega)
    refine ⟨m, hspells, ?_⟩
    rw [hm, hreal]
    by_cases hzero : fl.real f = 0
    · rw [hzero]
      cases fl.negative f <;> simp
    · have hsign := hl.negative f hfin hzero
      have hnum : (fl.real f).num < 0 ↔ fl.real f < 0 := Rat.num_neg
      have hsame : decide ((fl.real f).num < 0) = fl.negative f := by
        rw [Bool.eq_iff_iff, decide_eq_true_iff, hnum, hsign]
      rw [hsame]
      exact ⟨fun _ h => hzero (Prod.mk.inj h).1, fun _ => rfl⟩
  · have hzero : fl.real f ≠ 0 := by
      intro hzero
      rw [hzero] at hwhole
      exact hwhole (by decide)
    have hread : readingOf fl (.double f) = (fl.real f, fl.negative f) ↔
        (fl.real f, fl.negative f) ≠ (0, true) :=
      ⟨fun _ h => hzero (Prod.mk.inj h).1, fun _ => rfl⟩
    obtain ⟨n, htext, hwell, hexp, hparse⟩ := hl.display f hfin
    refine ⟨.double f, ?_, hread⟩
    rw [if_neg hwhole, htext]
    dsimp only
    by_cases hfrac : n.frac = none
    · have hplain : ¬ ('.' ∈ n.text ∨ 'e' ∈ n.text ∨ 'E' ∈ n.text) := by
        rintro (h | h | h)
        · exact plain_text hfrac hexp (.inl rfl) h
        · exact plain_text hfrac hexp (.inr (.inl rfl)) h
        · exact plain_text hfrac hexp (.inr (.inr rfl)) h
      have htail : n.text ++ ['.', '0'] = ({ n with frac := some [0] } : Numeral).text := by
        rw [numeral_text, numeral_text, hfrac, hexp]
        simp only [fractionText, exponentText, Option.elim, List.append_nil]
        rfl
      have hnumber := read_double fl (n := { n with frac := some [0] })
        ⟨hwell.1, hwell.2.1, by simp, hwell.2.2.2⟩ rfl
      rw [hl.point n hfrac hexp, hparse] at hnumber
      rw [if_neg hplain, htail]
      exact .number (.inr hwell.1) hnumber
    · have hpoint : '.' ∈ n.text := by
        obtain ⟨ds, hds⟩ := Option.ne_none_iff_exists'.mp hfrac
        rw [numeral_text, hds]
        simp [fractionText]
      have hfloat : isFloat n = true := by
        rw [isFloat, Option.isSome_iff_ne_none.mpr hfrac]
        rfl
      have hnumber := read_double fl hwell hfloat
      rw [hparse] at hnumber
      rw [if_pos (.inl hpoint)]
      exact .number (.inr hwell.1) hnumber

lemma spells_number (hl : fl.Lawful) {n : NSNumberHostObject F} (hfin : n.IsFinite fl) :
    ∃ j, Spells (readNumber fl.parse) (.value j) (encodeNumber fl n) ∧
      (SameNumber fl n j ↔ ¬ n.IsNegativeZero fl) := by
  have hinteger : ∀ {i : ℤ}, -2 ^ 63 ≤ i → i < 2 ^ 64 → (∀ b, n ≠ .bool b) →
      n.reading fl = ((i : ℚ), decide (i < 0)) → ∃ j,
        Spells (readNumber fl.parse) (.value j) (integerText i) ∧
          (SameNumber fl n j ↔ ¬ n.IsNegativeZero fl) := by
    intro i hlow hhigh hbool hreading
    obtain ⟨m, hspells, hm⟩ := spells_integer fl hlow hhigh
    refine ⟨.number m, hspells, ?_⟩
    have hpos : ¬ n.IsNegativeZero fl := by
      rw [NSNumberHostObject.IsNegativeZero, hreading]
      intro h
      obtain ⟨hzero, hneg⟩ := Prod.mk.inj h
      have hi : i = 0 := by exact_mod_cast hzero
      rw [hi] at hneg
      exact absurd hneg (by decide)
    exact ⟨fun _ => hpos, fun _ => ⟨hbool, by rw [hreading, hm]⟩⟩
  have hfloat : ∀ {f : F}, fl.isFinite f → (∀ b, n ≠ .bool b) →
      n.reading fl = (fl.real f, fl.negative f) → ∃ j,
        Spells (readNumber fl.parse) (.value j) (encodeFloat fl f) ∧
          (SameNumber fl n j ↔ ¬ n.IsNegativeZero fl) := by
    intro f hfin hbool hreading
    obtain ⟨m, hspells, hm⟩ := spells_float hl hfin
    refine ⟨.number m, hspells, ?_⟩
    rw [NSNumberHostObject.IsNegativeZero, hreading, ← ne_eq, ← hm]
    constructor
    · rintro ⟨-, hsame⟩
      rw [← hsame, hreading]
    · intro hsame
      exact ⟨hbool, by rw [hreading, hsame]⟩
  cases n with
  | bool b =>
    have hpos : ¬ (bool b : NSNumberHostObject F).IsNegativeZero fl :=
      fun h => absurd (Prod.mk.inj h).2 (by decide)
    cases b with
    | true => exact ⟨.bool true, .true, fun _ => hpos, fun _ => rfl⟩
    | false => exact ⟨.bool false, .false, fun _ => hpos, fun _ => rfl⟩
  | unsignedLongLong u =>
    have hlt := u.toNat_lt
    exact hinteger (by omega) (by omega) (fun _ => (by rintro ⟨⟩)) (by simp [reading])
  | unsignedInt u =>
    have hlt := u.toNat_lt
    exact hinteger (by omega) (by omega) (fun _ => (by rintro ⟨⟩)) (by simp [reading])
  | unsignedShort u =>
    have hlt := u.toNat_lt
    exact hinteger (by omega) (by omega) (fun _ => (by rintro ⟨⟩)) (by simp [reading])
  | int i =>
    have hlow := i.le_toInt
    have hhigh := i.toInt_lt
    exact hinteger (by omega) (by omega) (fun _ => (by rintro ⟨⟩)) rfl
  | longLong i =>
    have hlow := i.le_toInt
    have hhigh := i.toInt_lt
    exact hinteger (by omega) (by omega) (fun _ => (by rintro ⟨⟩)) rfl
  | short i =>
    have hlow := i.le_toInt
    have hhigh := i.toInt_lt
    exact hinteger (by omega) (by omega) (fun _ => (by rintro ⟨⟩)) rfl
  | char i =>
    have hlow := i.le_toInt
    have hhigh := i.toInt_lt
    exact hinteger (by omega) (by omega) (fun _ => (by rintro ⟨⟩)) rfl
  | float f => exact hfloat hfin (fun _ => (by rintro ⟨⟩)) rfl
  | double f => exact hfloat hfin (fun _ => (by rintro ⟨⟩)) rfl

end TouchHle.Foundation.JsonWriter
