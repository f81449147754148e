import TouchHle.Stdio.DirectiveReading

namespace TouchHle.Stdio

open Lib Memory List Field Directive

variable {c : Conversion} {f : Field} {d : Directive} {args : Args} {v n : ℕ} {i : ℤ}
  {s t : List UInt8} {m : Mem}

namespace Field

structure SignedFits (f : Field) (i : ℤ) : Prop where
  positive : 0 ≤ i → f.plus → f.width = 0 ∨ f.zero ∧ f.precision = none ∧ f.left = false
  precision : i < 0 → ∀ p ∈ f.precision, p ≤ (digits 10 i.natAbs).length
  zeros : i < 0 → f.zero → f.precision = none → f.left = false → f.plus = false →
    f.width ≤ (digits 10 i.natAbs).length + 1

def UnsignedFits (f : Field) (v : ℕ) : Prop :=
  f.zero → f.precision ≠ none → f.left = false → f.width ≤ (f.precise 10 v).length

def OctalFits (f : Field) (v : ℕ) : Prop :=
  ∀ p ∈ f.precision, (p = 0 → v = 0 → f.hash) ∧
    if f.width = 0 then f.hash → v ≠ 0 → p ≤ (digits 8 v).length
    else p ≤ (digits 8 v).length ∨ p = (digits 8 v).length + 1 ∧ f.hash ∧ v ≠ 0

def HexFits (f : Field) (v : ℕ) : Prop := ¬ (0 < f.width ∧ f.precision = some 0 ∧ v = 0)

end Field

lemma fillLeft_length {b : UInt8} : (fillLeft b n s).length = max n s.length := by
  rw [fillLeft, length_append, length_replicate]
  omega

lemma digits_ne_nil (base v : ℕ) : digits base v ≠ [] := by
  rw [digits, ne_eq, map_eq_nil_iff]
  exact Nat.toDigits_ne_nil

lemma digits_zero (base : ℕ) : digits base 0 = [zero] := by
  rw [digits, Nat.toDigits_zero]
  rfl

lemma digits_head (base : ℕ) (hbase : 2 ≤ base) (hten : base ≤ 16) :
    ∀ v, v ≠ 0 → (digits base v).head? ≠ some zero := by
  intro v
  induction v using Nat.strong_induction_on with
  | _ v ih =>
    intro hv
    by_cases hlt : v < base
    · rw [digits, Nat.toDigits_of_lt_base hlt, map_cons, head?_cons]
      have hv16 : v < 16 := hlt.trans_le hten
      interval_cases v <;> first | exact absurd rfl hv | decide
    · have hdiv : v / base ≠ 0 := (Nat.div_pos (not_lt.mp hlt) (by omega)).ne'
      have hsmall : v / base < v := Nat.div_lt_self (Nat.pos_of_ne_zero hv) hbase
      have happend := Nat.toDigits_append_toDigits (b := base) (n := v / base) (d := v % base)
        hbase (Nat.pos_of_ne_zero hdiv) (Nat.mod_lt _ (by omega))
      rw [Nat.div_add_mod] at happend
      have hhead : (digits base (v / base) ++ digits base (v % base)).head? = _ :=
        head?_append_of_ne_nil (digits base (v / base)) (digits_ne_nil _ _)
      rw [digits, digits, ← map_append, happend] at hhead
      rw [digits, hhead]
      exact ih _ hsmall hdiv

namespace Field

lemma layout_narrow (h : f.width ≤ (s ++ t).length) : f.layout s t = s ++ t := by
  rw [layout, Nat.sub_eq_zero_of_le h]
  simp

lemma layout_left (h : f.left = true) : f.layout s t = fillRight blank f.width (s ++ t) := by
  rw [layout, if_pos h]
  rfl

lemma layout_zeros (hleft : f.left = false) (hzero : f.zero = true) (hprec : f.precision = none) :
    f.layout s t = s ++ fillLeft Stdio.zero (f.width - s.length) t := by
  rw [layout, if_neg (by simp [hleft]), if_pos ⟨hzero, hprec⟩, fillLeft, length_append,
    Nat.sub_add_eq]

lemma layout_right (hleft : f.left = false) (h : ¬ (f.zero = true ∧ f.precision = none)) :
    f.layout s t = fillLeft blank f.width (s ++ t) := by
  rw [layout, if_neg (by simp [hleft]), if_neg h]
  rfl

lemma precise_none (h : f.precision = none) (base v : ℕ) : f.precise base v = digits base v := by
  simp [precise, h]

lemma precise_succ {p : ℕ} (h : f.precision = some (p + 1)) (base v : ℕ) :
    f.precise base v = fillLeft Stdio.zero (p + 1) (digits base v) := by
  simp [precise, h, fillLeft]

lemma precise_zero (h : f.precision = some 0) (base v : ℕ) :
    f.precise base v = if v = 0 then [] else digits base v := by
  simp [precise, h]

end Field

lemma intWithPrec_eq (hmeans : Says d f) (hfits : f.SignedFits i) :
    d.intWithPrec i = (if i < 0 then [minus] else []) ++ f.precise 10 i.natAbs := by
  rw [intWithPrec, hmeans.precision]
  match hprec : f.precision with
  | none => rw [precise_none hprec, showInt]
  | some 0 =>
    rw [precise_zero hprec]
    by_cases hi : i = 0
    · subst hi
      rfl
    · simp only [if_neg hi, if_neg (Int.natAbs_ne_zero.mpr hi), showInt]
  | some (p + 1) =>
    rw [precise_succ hprec]
    by_cases hneg : i < 0
    · have hshort := hfits.precision hneg (p + 1) hprec
      simp only [showIntZeros, if_pos hneg, fillLeft, Nat.sub_eq_zero_of_le hshort,
        Nat.add_sub_cancel, Nat.sub_eq_zero_of_le (Nat.le_of_succ_le hshort)]
      rfl
    · simp only [showIntZeros, if_neg hneg, nil_append]

lemma Says.fills_iff (hmeans : Says d f) : d.zeroPad = true ∧ f.precision = none ∧ ¬ f.left = true ↔
    f.zero = true ∧ f.precision = none ∧ f.left = false := by
  constructor
  · rintro ⟨hzero, hprec, hleft⟩
    exact ⟨hmeans.zeros_of hzero, hprec, by simpa using hleft⟩
  · rintro ⟨hzero, hprec, hleft⟩
    exact ⟨(hmeans.zeros hleft).trans hzero, hprec, by simp [hleft]⟩

lemma applyIntPad_signed (hmeans : Says d f) (hspace : f.space = false) (hfits : f.SignedFits i) :
    d.applyIntPad i = f.signed i := by
  have hsign : 0 ≤ i → f.plus = false → f.sign i = [] := by
    intro hi hplus
    simp [sign, not_lt.mpr hi, hplus, hspace]
  have hneg : i < 0 → f.sign i = [minus] := fun hi => if_pos hi
  have hpos : 0 ≤ i → f.plus = true → f.sign i = [plus] := by
    intro hi hplus
    simp [sign, not_lt.mpr hi, hplus]
  have hbody := intWithPrec_eq hmeans hfits
  rw [applyIntPad, hbody, hmeans.width, hmeans.sign, hmeans.precision, hmeans.left, signed]
  by_cases hw : f.width = 0
  · rw [if_pos hw, layout_narrow (by omega)]
    by_cases hi : i < 0
    · rw [hneg hi, if_neg (by omega), if_pos hi]
    · rw [if_neg hi, nil_append]
      cases hplus : f.plus with
      | false => rw [hsign (by omega) hplus, if_neg (by simp), nil_append]
      | true => rw [hpos (by omega) hplus, if_pos ⟨rfl, by omega⟩, singleton_append]
  · rw [if_neg hw]
    by_cases hzeros : f.zero = true ∧ f.precision = none ∧ f.left = false
    · obtain ⟨hzero, hprec, hleft⟩ := hzeros
      rw [if_pos (hmeans.fills_iff.mpr ⟨hzero, hprec, hleft⟩), layout_zeros hleft hzero hprec,
        precise_none hprec]
      by_cases hi : i < 0
      · rw [hneg hi, length_singleton, singleton_append]
        cases hplus : f.plus with
        | true => rw [if_pos rfl, if_neg (by omega)]
        | false =>
          have hwide := hfits.zeros hi hzero hprec hleft hplus
          rw [if_neg (by simp), showInt, if_pos hi, singleton_append, fillLeft, fillLeft,
            length_cons, Nat.sub_eq_zero_of_le hwide, Nat.sub_eq_zero_of_le (by omega)]
          rfl
      · cases hplus : f.plus with
        | true =>
          rw [hpos (by omega) hplus, if_pos rfl, if_pos (by omega), length_singleton,
            singleton_append]
        | false =>
          rw [hsign (by omega) hplus, if_neg (by simp), showInt, if_neg hi, length_nil,
            Nat.sub_zero, nil_append, nil_append]
    · have hfield : f.sign i = if i < 0 then [minus] else [] := by
        by_cases hi : i < 0
        · rw [hneg hi, if_pos hi]
        · rw [if_neg hi]
          cases hplus : f.plus with
          | false => exact hsign (by omega) hplus
          | true => exact absurd (hfits.positive (by omega) hplus) (by tauto)
      rw [if_neg (mt hmeans.fills_iff.mp hzeros), hfield]
      cases hleft : f.left with
      | true => rw [if_pos rfl, layout_left hleft]
      | false =>
        rw [if_neg (by simp), layout_right hleft]
        exact fun h => hzeros ⟨h.1, h.2, hleft⟩

lemma uintWithPrec_eq (hmeans : Says d f) : d.uintWithPrec v = f.precise 10 v := by
  rw [uintWithPrec, hmeans.precision]
  match hprec : f.precision with
  | none => rw [precise_none hprec]
  | some 0 => rw [precise_zero hprec]
  | some (p + 1) => rw [precise_succ hprec]

lemma applyUintPad_unsigned (hmeans : Says d f) (hfits : f.UnsignedFits v) :
    d.applyUintPad v = f.unsigned v := by
  rw [applyUintPad, applyPad, uintWithPrec_eq hmeans, hmeans.width, hmeans.left,
    unsigned]
  by_cases hnarrow : f.width = 0 ∨ f.width ≤ (f.precise 10 v).length
  · rw [if_pos hnarrow, layout_narrow (by rw [nil_append]; omega), nil_append]
  · rw [if_neg hnarrow, fill]
    cases hleft : f.left with
    | true => rw [if_pos rfl, layout_left hleft, nil_append]
    | false =>
      rw [if_neg (by simp), hmeans.zeros hleft]
      cases hzero : f.zero with
      | true =>
        have hprec : f.precision = none := by
          by_contra hprec
          exact hnarrow (.inr (hfits hzero hprec hleft))
        rw [if_pos rfl, layout_zeros hleft hzero hprec, length_nil, Nat.sub_zero,
          nil_append]
      | false =>
        rw [if_neg (by simp), layout_right hleft (by simp [hzero]), nil_append]

lemma fillLeft_cons {b : UInt8} : fillLeft b n (b :: s) = b :: fillLeft b (n - 1) s := by
  have hcount : n - 1 - s.length = n - (s.length + 1) := by omega
  rw [fillLeft, fillLeft, length_cons, hcount, ← cons_append, ← replicate_succ,
    replicate_succ', append_assoc, singleton_append]

lemma fillLeft_short {b : UInt8} (h : n ≤ s.length) : fillLeft b n s = s := by
  rw [fillLeft, Nat.sub_eq_zero_of_le h, replicate_zero, nil_append]

namespace Field

def octalMark (f : Field) (v : ℕ) : List UInt8 := if f.hash ∧ v ≠ 0 then [Stdio.zero] else []

lemma octal_digits (h : f.precise 8 v = digits 8 v) : f.octalDigits v = f.octalMark v ++ digits 8 v := by
  rw [octalDigits, octalMark, h]
  by_cases hv : v = 0
  · subst hv
    simp [digits_zero]
  · have hhead := digits_head 8 (by omega) (by omega) v hv
    by_cases hhash : f.hash = true <;> simp [hhash, hhead, hv]

lemma octal_wide (hfits : f.OctalFits v) (h : f.width ≠ 0 ∨ f.precision = none ∨ f.precision = some 0) :
    f.octalDigits v = f.octalMark v ++ digits 8 v := by
  match hprec : f.precision with
  | none => exact octal_digits (precise_none hprec 8 v)
  | some 0 =>
    by_cases hv : v = 0
    · subst hv
      have hhash := (hfits 0 hprec).1 rfl rfl
      simp [octalDigits, octalMark, precise_zero hprec, hhash, digits_zero]
    · exact octal_digits (by rw [precise_zero hprec, if_neg hv])
  | some (p + 1) =>
    have hw : f.width ≠ 0 := by simpa [hprec] using h
    have hbound := (hfits _ hprec).2
    rw [if_neg hw] at hbound
    obtain hshort | ⟨hlong, hhash, hv⟩ := hbound
    · exact octal_digits (by rw [precise_succ hprec, fillLeft_short hshort])
    · have hp : p + 1 - (digits 8 v).length = 1 := by omega
      have hfill : f.precise 8 v = Stdio.zero :: digits 8 v := by
        rw [precise_succ hprec, fillLeft, hp]
        rfl
      rw [octalDigits, octalMark, hfill, if_neg (by simp), if_pos ⟨hhash, hv⟩]
      rfl

lemma octal_narrow {p : ℕ} (hfits : f.OctalFits v) (hw : f.width = 0) (hprec : f.precision = some (p + 1)) :
    f.octalDigits v = f.octalMark v ++ fillLeft Stdio.zero (p + 1) (digits 8 v) := by
  have hbound := (hfits _ hprec).2
  rw [if_pos hw] at hbound
  by_cases hmark : f.hash = true ∧ v ≠ 0
  · have hshort := hbound hmark.1 hmark.2
    rw [fillLeft_short hshort]
    exact octal_digits (by rw [precise_succ hprec, fillLeft_short hshort])
  · rw [octalDigits, octalMark, if_neg hmark, precise_succ hprec, nil_append]
    by_cases hhash : f.hash = true
    · obtain rfl : v = 0 := by simpa [hhash] using hmark
      have hhead : (fillLeft Stdio.zero (p + 1) (digits 8 0)).head? = some Stdio.zero := by
        rw [digits_zero, fillLeft_cons]
        rfl
      rw [if_neg (by simp [hhead])]
    · rw [if_neg (by simp [hhash])]

end Field

lemma formatOctal_octal (hmeans : Says d f) (hfits : f.OctalFits v) : d.formatOctal v = f.octal v := by
  have hmark : (if d.alternativeForm = true ∧ v ≠ 0 then [zero] else []) = f.octalMark v := by
    rw [octalMark, hmeans.alternative]
  rw [formatOctal, hmark, hmeans.width, hmeans.precision, hmeans.left, hmeans.alternative,
    octal]
  by_cases hw : f.width = 0
  · rw [if_neg (by omega), layout_narrow (by omega), nil_append]
    match hprec : f.precision with
    | none => rw [octal_wide hfits (.inr (.inl hprec))]
    | some 0 => rw [octal_wide hfits (.inr (.inr hprec))]
    | some (p + 1) => rw [octal_narrow hfits hw hprec]
  · rw [if_pos (by omega), octal_wide hfits (.inl hw)]
    by_cases hzeros : f.zero = true ∧ f.precision = none ∧ f.left = false
    · obtain ⟨hzero, hprec, hleft⟩ := hzeros
      rw [if_pos (hmeans.fills_iff.mpr ⟨hzero, hprec, hleft⟩), layout_zeros hleft hzero hprec, length_nil,
        Nat.sub_zero, nil_append, octalMark]
      by_cases halt : f.hash = true ∧ v ≠ 0
      · rw [if_pos halt, if_pos halt, singleton_append, fillLeft_cons]
      · rw [if_neg halt, if_neg halt, nil_append]
    · rw [if_neg (mt hmeans.fills_iff.mp hzeros)]
      cases hleft : f.left with
      | true => rw [if_pos rfl, layout_left hleft, nil_append]
      | false =>
        rw [if_neg (by simp), layout_right hleft, nil_append]
        exact fun h => hzeros ⟨h.1, h.2, hleft⟩

lemma map_fillLeft {letters : UInt8 → UInt8} (h : letters zero = zero) :
    (fillLeft zero n s).map letters = fillLeft zero n (s.map letters) := by
  rw [fillLeft, fillLeft, map_append, map_replicate, h, length_map]

lemma hexWithPrec_eq {letters : UInt8 → UInt8} (hletters : letters zero = zero) (hmeans : Says d f)
    (hfits : f.HexFits v) (hw : 0 < f.width) :
    d.hexWithPrec ((digits 16 v).map letters) = (f.precise 16 v).map letters := by
  rw [hexWithPrec, hmeans.precision]
  match hprec : f.precision with
  | none => rw [precise_none hprec]
  | some 0 =>
    have hv : v ≠ 0 := fun hv => hfits ⟨hw, hprec, hv⟩
    rw [precise_zero hprec, if_neg hv]
    exact fillLeft_short (Nat.zero_le _)
  | some (p + 1) => rw [precise_succ hprec, map_fillLeft hletters]

lemma formatHex_hex {letters : UInt8 → UInt8} (hletters : letters zero = zero) (hmeans : Says d f)
    (hfits : f.HexFits v) : d.formatHex letters v = f.hex letters v := by
  rw [formatHex, hmeans.width, hmeans.precision, hmeans.left, hmeans.alternative, hex]
  by_cases hw : 0 < f.width
  · have hdigits := hexWithPrec_eq hletters hmeans hfits hw
    simp only [if_pos hw, hdigits]
    by_cases hzeros : f.zero = true ∧ f.precision = none ∧ f.left = false
    · obtain ⟨hzero, hprec, hleft⟩ := hzeros
      rw [if_pos (hmeans.fills_iff.mpr ⟨hzero, hprec, hleft⟩), layout_zeros hleft hzero hprec,
        precise_none hprec]
      by_cases halt : f.hash = true ∧ v ≠ 0
      · rw [if_pos halt, if_pos halt]
        rfl
      · rw [if_neg halt, if_neg halt, length_nil, Nat.sub_zero, nil_append]
    · rw [if_neg (mt hmeans.fills_iff.mp hzeros)]
      cases hleft : f.left with
      | true => rw [if_pos rfl, layout_left hleft]
      | false =>
        rw [if_neg (by simp), layout_right hleft]
        exact fun h => hzeros ⟨h.1, h.2, hleft⟩
  · rw [if_neg hw, layout_narrow (by omega)]
    match hprec : f.precision with
    | none => rw [precise_none hprec]
    | some 0 =>
      rw [precise_zero hprec]
      by_cases hv : v = 0
      · simp [hv]
      · simp only [hv, and_false, if_false, fillLeft_short (Nat.zero_le _)]
    | some (p + 1) =>
      rw [precise_succ hprec, map_fillLeft hletters]
      simp

variable {f : Field} {d : Directive} {args : Args} {n p : ℕ} {s : List UInt8} {cs : List Char} {m : Mem}
  {ptr : UInt32}

lemma utf8_blanks : utf8 (List.replicate n ' ') = List.replicate n blank := by
  induction n with
  | zero => rfl
  | succ n ih =>
    rw [replicate_succ, utf8_ascii (by decide), ih]
    rfl

lemma padChars_justify (hmeans : Says d f) (hzero : f.zero = false)
    (hcount : f.width ≤ cs.length ∨ (utf8 cs).length = cs.length) :
    d.padChars cs = f.justify (utf8 cs) := by
  have hlength : f.width - (utf8 cs).length = f.width - cs.length := by
    have hle : cs.length ≤ _ := length_le_utf8
    omega
  rw [padChars, justify, hmeans.width, hmeans.left, hlength]
  by_cases hw : 0 < f.width
  · rw [if_pos hw, fill]
    cases hleft : f.left with
    | true =>
      rw [if_pos rfl, if_pos rfl, fillRight, utf8_append, utf8_blanks]
    | false =>
      rw [hmeans.zeros hleft, hzero, if_neg (by simp), if_neg (by simp), if_neg (by simp), fillLeft,
        utf8_append, utf8_blanks]
  · rw [if_neg hw, Nat.sub_eq_zero_of_le (by omega)]
    simp

lemma le_countUntil (stops : ℕ → Bool) : ∀ limit len, len ≤ countUntil stops limit len := by
  intro limit
  induction limit with
  | zero => exact fun len => le_rfl
  | succ limit ih =>
    intro len
    rw [countUntil]
    split_ifs
    · exact le_rfl
    · exact (Nat.le_succ len).trans (ih (len + 1))

lemma countUntil_skip {stops : ℕ → Bool} : ∀ {k limit len}, (∀ j < k, stops (len + j) = false) →
    countUntil stops (k + limit) len = countUntil stops limit (len + k) := by
  intro k
  induction k with
  | zero =>
    intro limit len _
    rw [zero_add, add_zero]
  | succ k ih =>
    intro limit len hstops
    have hfirst : stops len = false := hstops 0 (Nat.succ_pos k)
    have hrest : ∀ j < k, stops (len + 1 + j) = false := by
      intro j hj
      rw [add_assoc, add_comm 1 j]
      exact hstops (j + 1) (by omega)
    rw [add_right_comm, countUntil, hfirst, if_neg (by simp), ih hrest, add_assoc,
      add_comm 1 k]

lemma countUntil_stop {stops : ℕ → Bool} {k limit : ℕ} (hk : k ≤ limit)
    (hstops : ∀ j < k, stops j = false) (hstop : stops k = true) : countUntil stops limit 0 = k := by
  obtain ⟨limit, rfl⟩ := Nat.exists_eq_add_of_le hk
  rw [countUntil_skip (by simpa using hstops), zero_add]
  cases limit with
  | zero => rfl
  | succ limit => rw [countUntil, hstop, if_pos rfl]

lemma le_countUntil_of {stops : ℕ → Bool} {k limit : ℕ} (hk : k ≤ limit)
    (hstops : ∀ j < k, stops j = false) : k ≤ countUntil stops limit 0 := by
  obtain ⟨limit, rfl⟩ := Nat.exists_eq_add_of_le hk
  rw [countUntil_skip (by simpa using hstops), zero_add]
  exact le_countUntil _ _ _

lemma countUntil_le (stops : ℕ → Bool) : ∀ limit len, countUntil stops limit len ≤ len + limit := by
  intro limit
  induction limit with
  | zero => exact fun len => le_rfl
  | succ limit ih =>
    intro len
    have hnext := ih (len + 1)
    rw [countUntil]
    split_ifs <;> omega

lemma load_guest {a count : ℕ} (h : m.nullSegmentSize ≤ a) (hwithin : a + count ≤ 2 ^ 32) :
    m.load (m.bytesAt a count) = (List.range count).map fun i => m.bytes (a + i) := by
  have hview : m.bytesAt a count = ⟨.guest, a, count⟩ := by
    rw [Mem.bytesAt, Mem.view, if_neg (by omega), if_neg (by rw [bytesLen]; omega)]
  rw [hview]
  rfl

lemma read_guest {a : ℕ} (h : m.nullSegmentSize ≤ a) (hwithin : a < 2 ^ 32) : m.read a = m.bytes a := by
  have hview : m.bytesAt a 1 = ⟨.guest, a, 1⟩ := by
    rw [Mem.bytesAt, Mem.view, if_neg (by omega), if_neg (by rw [bytesLen]; omega)]
  rw [Mem.read, hview]
  rfl

lemma offsetBy_of_lt (h : ptr.toNat + n < 2 ^ 32) : offsetBy ptr n = ptr.toNat + n :=
  Nat.mod_eq_of_lt h

namespace HoldsBytes

variable (h : HoldsBytes m ptr s)

include h

lemma read {i : ℕ} (hi : i ≤ s.length) : m.read (offsetBy ptr i) = m.bytes (ptr.toNat + i) := by
  have hnull := h.notNull.1
  have hwithin := h.within
  rw [offsetBy_of_lt (by omega), read_guest (by omega) (by omega)]

lemma not_stop {i : ℕ} (hi : i < s.length) : decide (m.read (offsetBy ptr i) = 0) = false := by
  rw [h.read hi.le, h.bytes i hi, decide_eq_false_iff_not]
  intro hzero
  exact h.nonzero (hzero ▸ getElem_mem hi)

lemma load (hn : n ≤ s.length) : m.load (m.bytesAt ptr.toNat n) = s.take n := by
  have hwithin := h.within
  rw [load_guest h.notNull.1 (by omega)]
  apply ext_getElem
  · rw [length_map, length_range, length_take, min_eq_left hn]
  · intro i hi hi'
    rw [getElem_map, getElem_range, getElem_take, h.bytes i]

lemma le_strlen : s.length ≤ strlen m ptr := by
  have hwithin := h.within
  exact le_countUntil_of (by omega) fun i hi => h.not_stop hi

lemma count_eq {limit : ℕ} (hlimit : s.length ≤ limit) (hend : m.bytes (ptr.toNat + s.length) = 0) :
    countUntil (fun i => m.read (offsetBy ptr i) = 0) limit 0 = s.length := by
  refine countUntil_stop hlimit (fun i hi => h.not_stop hi) ?_
  rw [h.read le_rfl, hend]
  rfl

end HoldsBytes

structure Field.BytesFits (f : Field) (s : List UInt8) : Prop where
  limit : f.precision = none → s.length ≤ maxCstrLen
  text : f.width = 0 ∨ ∃ cs, f.truncate s = utf8 cs ∧
    (f.width ≤ cs.length ∨ (utf8 cs).length = cs.length)

lemma justify_narrow (h : f.width ≤ s.length) : f.justify s = s := by
  rw [justify, Nat.sub_eq_zero_of_le h]
  simp

section

variable {ended : Bool} (hmeans : Says d f)

include hmeans

lemma truncated_bytes (hholds : HoldsBytes m ptr s)
    (hend : if ended then m.bytes (ptr.toNat + s.length) = 0 else ∃ p ∈ f.precision, p ≤ s.length)
    (hfits : f.BytesFits s) : d.truncated m ptr = f.truncate s := by
  rw [truncated, hmeans.precision, truncate]
  have hwithin := hholds.within
  match hprec : f.precision with
  | none =>
    cases ended with
    | false =>
      obtain ⟨p, hp, _⟩ := hend
      exact absurd hp (by simp [hprec])
    | true =>
      have hcount := hholds.count_eq (hfits.limit hprec) hend
      change m.load (m.bytesAt ptr.toNat (countUntil _ _ 0)) = s
      rw [hcount, hholds.load le_rfl, take_length]
  | some p =>
    change m.load (m.bytesAt ptr.toNat (min (strlen m ptr) p)) = s.take p
    by_cases hp : p ≤ s.length
    · rw [min_eq_right (hp.trans hholds.le_strlen), hholds.load hp]
    · cases ended with
      | false =>
        obtain ⟨q, hq, hle⟩ := hend
        rw [hprec] at hq
        obtain rfl := Option.some.inj hq
        exact absurd hle hp
      | true =>
        have hcount : strlen m ptr = s.length := hholds.count_eq (by omega) hend
        rw [hcount, min_eq_left (by omega), hholds.load le_rfl, take_length,
          take_of_length_le (by omega)]

lemma formatString_bytes (hzero : f.zero = false) (hholds : HoldsBytes m ptr s)
    (hend : if ended then m.bytes (ptr.toNat + s.length) = 0 else ∃ p ∈ f.precision, p ≤ s.length)
    (hfits : f.BytesFits s) : d.formatString m ptr = f.justify (f.truncate s) := by
  rw [formatString, if_neg hholds.notNull.2, truncated_bytes hmeans hholds hend hfits,
    hmeans.width]
  obtain hw | ⟨cs, hcs, hcount⟩ := hfits.text
  · rw [if_neg (by omega), justify_narrow (by omega)]
  · by_cases hw : 0 < f.width
    · rw [if_pos hw, hcs, fromUtf8Lossy_utf8, padChars_justify hmeans hzero hcount]
    · rw [if_neg hw, justify_narrow (by omega)]

end

structure Field.WidesFits (f : Field) (ptr : UInt32) (cs : List Char) (ended : Bool) : Prop where
  limit : f.precision = none → cs.length ≤ maxWcstrLen
  precision : ∀ p ∈ f.precision, (utf8 (cs.take p)).length ≤ p ∧ min p cs.length ≤ maxWcstrLen
  room : ended = false → (∀ p ∈ f.precision, p ≤ cs.length) ∧ ptr.toNat + 4 * maxWcstrLen ≤ 2 ^ 32
  width : let t := match f.precision with | some p => cs.take p | none => cs
    f.width ≤ t.length ∨ (utf8 t).length = t.length

lemma chunks_append {a b c e : UInt8} :
    chunks (a :: b :: c :: e :: s) =
      (a.toNat + 256 * b.toNat + 256 ^ 2 * c.toNat + 256 ^ 3 * e.toNat) :: chunks s := rfl

lemma chunks_range {a count : ℕ} : ∀ start, chunks ((List.range' start (4 * count)).map fun i =>
    m.bytes (a + i)) = (List.range count).map fun i => wordIn m (a + start + 4 * i) := by
  induction count with
  | zero => exact fun _ => rfl
  | succ count ih =>
    intro start
    have hrange : List.range' start (4 * (count + 1)) =
        start :: (start + 1) :: (start + 2) :: (start + 3) :: List.range' (start + 4) (4 * count) := by
      rw [Nat.mul_succ]
      rfl
    rw [hrange, map_cons, map_cons, map_cons, map_cons, chunks_append,
      ih (start + 4), range_succ_eq_map, map_cons, List.map_map]
    congr 1
    apply map_congr_left
    intro i _
    simp only [Function.comp, Nat.succ_eq_add_one]
    congr 1
    omega

lemma readWchar_guest {a : ℕ} (h : m.nullSegmentSize ≤ a) (hwithin : a + 4 ≤ 2 ^ 32) :
    readWchar m a = wordIn m a := by
  rw [readWchar, load_guest h hwithin]
  rfl

namespace HoldsWides

variable (h : HoldsWides m ptr cs)

include h

lemma read {i : ℕ} (hi : i ≤ cs.length) :
    readWchar m (offsetBy ptr (4 * i)) = wordIn m (ptr.toNat + 4 * i) := by
  have hnull := h.notNull.1
  have hwithin := h.within
  rw [offsetBy_of_lt (by omega), readWchar_guest (by omega) (by omega)]

lemma not_stop {i : ℕ} (hi : i < cs.length) :
    decide (readWchar m (offsetBy ptr (4 * i)) = 0) = false := by
  rw [h.read hi.le, h.words i hi, decide_eq_false_iff_not]
  exact h.nonzero _ (getElem_mem hi)

lemma wcstrAt_take (hlimit : n ≤ maxWcstrLen) (hn : n ≤ cs.length)
    (hroom : ptr.toNat + 4 * countUntil (fun i => readWchar m (offsetBy ptr (4 * i)) = 0) maxWcstrLen 0 ≤
      2 ^ 32) :
    (wcstrAt m ptr).take n = cs.take n := by
  have hcount := le_countUntil_of hlimit fun i hi => h.not_stop (hi.trans_le hn)
  rw [wcstrAt, load_guest h.notNull.1 hroom, range_eq_range', chunks_range, List.map_map]
  apply ext_getElem
  · rw [length_take, length_map, length_range, length_take]
    omega
  · intro i hi hi'
    have hlt : i < cs.length := by
      rw [length_take] at hi'
      omega
    rw [getElem_take, getElem_map, getElem_range, getElem_take, Function.comp,
      add_zero, h.words i hlt, charFromU32_toNat, Option.getD_some]

lemma count_eq (hlimit : cs.length ≤ maxWcstrLen)
    (hend : wordIn m (ptr.toNat + 4 * cs.length) = 0) :
    countUntil (fun i => readWchar m (offsetBy ptr (4 * i)) = 0) maxWcstrLen 0 = cs.length := by
  refine countUntil_stop hlimit (fun i hi => h.not_stop hi) ?_
  rw [h.read le_rfl, hend]
  rfl

lemma room_ended (hend : wordIn m (ptr.toNat + 4 * cs.length) = 0) :
    ptr.toNat + 4 * countUntil (fun i => readWchar m (offsetBy ptr (4 * i)) = 0) maxWcstrLen 0 ≤
      2 ^ 32 := by
  have hwithin := h.within
  by_cases hlimit : cs.length ≤ maxWcstrLen
  · rw [h.count_eq hlimit hend]
    omega
  · have hle := countUntil_le (fun i => readWchar m (offsetBy ptr (4 * i)) = 0) maxWcstrLen 0
    omega

lemma wcstrAt_ended (hlimit : cs.length ≤ maxWcstrLen)
    (hend : wordIn m (ptr.toNat + 4 * cs.length) = 0) : wcstrAt m ptr = cs := by
  have htake := h.wcstrAt_take hlimit le_rfl (h.room_ended hend)
  have hlength : (wcstrAt m ptr).length = cs.length := by
    rw [wcstrAt, h.count_eq hlimit hend, load_guest h.notNull.1 (by have := h.within; omega),
      range_eq_range', chunks_range, length_map, length_map, length_range]
  rw [take_length, ← hlength, take_length] at htake
  exact htake

end HoldsWides

lemma takeBytes_eq : ∀ {cs : List Char} {q n : ℕ}, (utf8 (cs.take n)).length ≤ q →
    (cs.length ≤ n ∨ q = (utf8 (cs.take n)).length) → takeBytes q cs = utf8 (cs.take n) := by
  intro cs
  induction cs with
  | nil =>
    intro q n _ _
    rw [take_nil]
    rfl
  | cons c cs ih =>
    intro q n hle hall
    have hpos := c.utf8Size_pos
    have hlen := String.length_utf8EncodeChar c
    cases n with
    | zero =>
      obtain hall | hall := hall
      · simp at hall
      · obtain rfl : q = 0 := hall
        rw [takeBytes]
        exact if_neg (by omega)
    | succ n =>
      rw [take_succ_cons, utf8_cons, length_append] at hle hall
      rw [take_succ_cons, utf8_cons, takeBytes]
      have hrest := ih (q := q - (String.utf8EncodeChar c).length) (n := n) (by omega) (by
        simp only [length_cons, Nat.add_le_add_iff_right] at hall
        omega)
      rw [← hrest]
      exact if_pos (by omega)

lemma takeBytes_take {p : ℕ} (h : (utf8 (cs.take p)).length ≤ p) :
    takeBytes p cs = utf8 (cs.take p) := by
  refine takeBytes_eq h ?_
  by_cases hp : cs.length ≤ p
  · exact .inl hp
  · have hle : (cs.take p).length ≤ _ := length_le_utf8
    rw [length_take, min_eq_left (by omega)] at hle
    exact .inr (by omega)

section

variable {ended : Bool} (hmeans : Says d f)

include hmeans

lemma truncatedWide_wides (hholds : HoldsWides m ptr cs)
    (hend : if ended then wordIn m (ptr.toNat + 4 * cs.length) = 0
      else ∃ p ∈ f.precision, p ≤ (utf8 cs).length)
    (hfits : f.WidesFits ptr cs ended) :
    utf8 (d.truncatedWide m ptr) = f.truncateWide cs ∧
      d.truncatedWide m ptr = match f.precision with | some p => cs.take p | none => cs := by
  rw [truncatedWide, hmeans.precision, truncateWide]
  match hprec : f.precision with
  | none =>
    cases ended with
    | false =>
      obtain ⟨p, hp, _⟩ := hend
      exact absurd hp (by simp [hprec])
    | true =>
      have hread := hholds.wcstrAt_ended (hfits.limit hprec) hend
      exact ⟨congrArg utf8 hread, hread⟩
  | some p =>
    obtain ⟨hbytes, hlimit⟩ := hfits.precision p hprec
    have hread : (wcstrAt m ptr).take p = cs.take p := by
      cases ended with
      | false =>
        obtain ⟨hshort, hroom⟩ := hfits.room rfl
        have hp := hshort p hprec
        have hle := countUntil_le (fun i => readWchar m (offsetBy ptr (4 * i)) = 0) maxWcstrLen 0
        exact hholds.wcstrAt_take (by omega) hp (by omega)
      | true =>
        by_cases hp : p ≤ cs.length
        · exact hholds.wcstrAt_take (by omega) hp (hholds.room_ended hend)
        · rw [hholds.wcstrAt_ended (by omega) hend]
    exact ⟨(congrArg utf8 hread).trans (takeBytes_take hbytes).symm, hread⟩

lemma formatWideString_wides (hzero : f.zero = false) (hholds : HoldsWides m ptr cs)
    (hend : if ended then wordIn m (ptr.toNat + 4 * cs.length) = 0
      else ∃ p ∈ f.precision, p ≤ (utf8 cs).length)
    (hfits : f.WidesFits ptr cs ended) :
    d.formatWideString m ptr = f.justify (f.truncateWide cs) := by
  obtain ⟨hbytes, hchars⟩ := truncatedWide_wides hmeans hholds hend hfits
  rw [formatWideString, if_neg hholds.notNull.2, ← hbytes]
  refine padChars_justify hmeans hzero ?_
  rw [hchars]
  exact hfits.width

end

end TouchHle.Stdio
