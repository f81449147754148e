import TouchHle.Trainer.Hacks

namespace TouchHle.Trainer.Hacks

open Lib Lib.Text List

variable {p : Patch} {t : VType} {bits n : ℕ} {c : Char} {text value : List Char} {read : VType.ReadF32}
  {app : List Char}

def numberChars : List Char :=
  ['0', '1', '2', '3', '4', '5', '6', '7', '8', '9', 'A', 'B', 'C', 'D', 'E', 'F', '-', '.', 'N', 'a', 'i', 'n',
    'f']

def PlainNumber (c : Char) : Prop :=
  isWhitespace c = false ∧ c ≠ '\n' ∧ c ≠ '#' ∧ c ≠ ':' ∧ c ≠ '=' ∧ c ≠ 'x' ∧ c ≠ '+' ∧ c ≠ ']' ∧
    c.toLower ≠ 'z'

instance (c : Char) : Decidable (PlainNumber c) := by
  unfold PlainNumber
  infer_instance

lemma numberChars_plain (hc : c ∈ numberChars) : PlainNumber c := by
  have hall : (numberChars.all fun c => PlainNumber c) = true := by decide
  exact of_decide_eq_true (all_eq_true.mp hall c hc)

def integerChars : List Char := ['0', '1', '2', '3', '4', '5', '6', '7', '8', '9', '-']

lemma integerChars_subset (hc : c ∈ integerChars) : c ∈ numberChars := by
  have hall : (integerChars.all fun c => c ∈ numberChars) = true := by decide
  exact of_decide_eq_true (all_eq_true.mp hall c hc)

lemma decimal_digit (n : ℕ) : ∀ c ∈ Nat.toDigits 10 n, c ∈ integerChars ∧ c ≠ '-' := by
  have hdigit : ∀ d < 10, Nat.digitChar d ∈ integerChars ∧ Nat.digitChar d ≠ '-' := by decide
  intro c hc
  obtain ⟨d, hd, rfl⟩ := mem_toDigits (by decide) n c hc
  exact hdigit d hd

lemma upperHex_digit (n : ℕ) : ∀ c ∈ upperHex n, c ∈ numberChars ∧ c ≠ '-' := by
  have hdigit : ∀ d < 16, (Nat.digitChar d).toUpper ∈ numberChars ∧ (Nat.digitChar d).toUpper ≠ '-' := by
    decide
  intro c hc
  obtain ⟨x, hx, rfl⟩ := mem_map.mp hc
  obtain ⟨d, hd, rfl⟩ := mem_toDigits (by decide) n x hx
  exact hdigit d hd

lemma formatInt_chars (i : ℤ) : ∀ c ∈ formatInt i, c ∈ integerChars := by
  intro c hc
  unfold formatInt at hc
  split at hc
  · obtain rfl | hc := mem_cons.mp hc
    · decide
    · exact (decimal_digit _ c hc).1
  · exact (decimal_digit _ c hc).1

lemma formatInt_ne_nil (i : ℤ) : formatInt i ≠ [] := by
  unfold formatInt
  split
  · exact cons_ne_nil _ _
  · exact Nat.toDigits_ne_nil

lemma formatF32_chars (bits : ℕ) : ∀ c ∈ formatF32 bits, c ∈ numberChars := by
  have hdigit : ∀ d < 10, Nat.digitChar d ∈ numberChars := by decide
  have hminus : ∀ negative : Bool, ∀ c ∈ if negative then ['-'] else [], c ∈ numberChars := by
    intro negative
    cases negative <;> simp [numberChars]
  have hinfinite : ∀ negative : Bool, ∀ c ∈ if negative then ['-', 'i', 'n', 'f'] else ['i', 'n', 'f'],
      c ∈ numberChars := by
    intro negative
    cases negative <;> simp [numberChars]
  have hnan : ∀ c ∈ ['N', 'a', 'N'], c ∈ numberChars := by simp [numberChars]
  intro c hc
  unfold formatF32 at hc
  cases hdecode : binary32.decode bits with
  | nan =>
    rw [hdecode] at hc
    exact hnan c hc
  | infinite negative =>
    rw [hdecode] at hc
    exact hinfinite negative c hc
  | finite negative magnitude =>
    rw [hdecode] at hc
    simp only [mem_append, mem_cons, mem_map] at hc
    obtain (hc | hc) | rfl | ⟨i, -, rfl⟩ := hc
    · exact hminus negative c hc
    · exact integerChars_subset (decimal_digit _ c hc).1
    · decide
    · exact hdigit _ (Nat.mod_lt _ (by decide))

lemma formatF32_ne_nil (bits : ℕ) : formatF32 bits ≠ [] := by
  unfold formatF32
  cases binary32.decode bits with
  | nan => exact cons_ne_nil _ _
  | infinite negative => cases negative <;> exact cons_ne_nil _ _
  | finite => simp

lemma format_chars (t : VType) (bits : ℕ) : ∀ c ∈ t.format bits, c ∈ numberChars := by
  have hint : ∀ i, ∀ c ∈ formatInt i, c ∈ numberChars := fun i c hc =>
    integerChars_subset (formatInt_chars i c hc)
  cases t with
  | f32 => exact formatF32_chars _
  | auto | u8 | i8 | u16 | i16 | u32 | i32 => exact hint _

lemma format_ne_nil (t : VType) (bits : ℕ) : t.format bits ≠ [] := by
  cases t with
  | f32 => exact formatF32_ne_nil _
  | auto | u8 | i8 | u16 | i16 | u32 | i32 => exact formatInt_ne_nil _

lemma dropWhile_whitespace (h : ∀ c ∈ text, isWhitespace c = false) :
    text.dropWhile isWhitespace = text := by
  cases text with
  | nil => rfl
  | cons c cs => simp [h c mem_cons_self]

lemma trim_plain (h : ∀ c ∈ text, isWhitespace c = false) : trim text = text := by
  rw [trim, dropWhile_whitespace h, dropWhile_whitespace, reverse_reverse]
  intro c hc
  exact h c (mem_reverse.mp hc)

lemma trim_space (hne : text ≠ []) (h : ∀ c ∈ text, isWhitespace c = false) :
    trim (text ++ [' ']) = text := by
  obtain ⟨c, cs, rfl⟩ := exists_cons_of_ne_nil hne
  have hfirst : (c :: cs ++ [' ']).dropWhile isWhitespace = c :: cs ++ [' '] := by
    simp [h c mem_cons_self]
  have hspace : isWhitespace ' ' = true := rfl
  rw [trim, hfirst, reverse_append, reverse_singleton, singleton_append, dropWhile_cons,
    if_pos hspace, dropWhile_whitespace, reverse_reverse]
  intro x hx
  exact h x (mem_reverse.mp hx)

lemma stripHex_eq_none (h : 'x' ∉ text) (h' : 'X' ∉ text) : stripHex text = none := by
  unfold stripHex
  split
  · exact (h (by simp)).elim
  · exact (h' (by simp)).elim
  · rfl

lemma fromStrRadix_formatInt {low high i : ℤ} (hneg : low < 0) (hlow : low ≤ i) (hhigh : i ≤ high) :
    fromStrRadix low high 10 (formatInt i) = some i := by
  have hvalue := fromDigits_decimal i.natAbs
  have hplus : '+' ∉ Nat.toDigits 10 i.natAbs := fun hmem =>
    absurd (decimal_digit _ _ hmem).1 (by decide)
  have hminus : '-' ∉ Nat.toDigits 10 i.natAbs := fun hmem => (decimal_digit _ _ hmem).2 rfl
  unfold formatInt
  split
  next hi =>
    have habs : -(i.natAbs : ℤ) = i := by omega
    rw [fromStrRadix_negative Nat.toDigits_ne_nil hvalue hneg (by omega) (by omega), habs]
  next hi =>
    have habs : (i.natAbs : ℤ) = i := by omega
    rw [fromStrRadix_unsigned Nat.toDigits_ne_nil hplus hminus hvalue (by omega) (by omega), habs]

lemma parseHackInteger_formatInt {i : ℤ} (hlow : -2 ^ 63 ≤ i) (hhigh : i ≤ 2 ^ 63 - 1) :
    parseHackInteger (formatInt i) = VType.ofInt i % 2 ^ 32 := by
  have hx : 'x' ∉ formatInt i := fun hmem => absurd (formatInt_chars _ _ hmem) (by decide)
  have hX : 'X' ∉ formatInt i := fun hmem => absurd (formatInt_chars _ _ hmem) (by decide)
  rw [parseHackInteger, stripHex_eq_none hx hX, Option.bind_none,
    fromStrRadix_formatInt (by decide) hlow hhigh]

lemma trim_format (t : VType) (bits : ℕ) : trim (t.format bits) = t.format bits :=
  trim_plain fun c hc => (numberChars_plain (format_chars t bits c hc)).1

lemma parseHackValue_formatInt (read : VType.ReadF32) {i : ℤ} (hlow : -2 ^ 63 ≤ i) (hhigh : i ≤ 2 ^ 63 - 1) :
    parseHackValue read (formatInt i) = (.i32, VType.ofInt i % 2 ^ 32) := by
  have htrim : trim (formatInt i) = formatInt i := trim_plain fun c hc =>
    (numberChars_plain (integerChars_subset (formatInt_chars i c hc))).1
  have hpoint : ¬ ('.' ∈ formatInt i ∨ 'e' ∈ formatInt i ∨ 'E' ∈ formatInt i) := by
    rintro (hmem | hmem | hmem) <;> exact absurd (formatInt_chars _ _ hmem) (by decide)
  rw [parseHackValue, htrim]
  split
  · rw [if_neg hpoint, parseHackInteger_formatInt hlow hhigh]
  · rw [parseHackInteger_formatInt hlow hhigh]

lemma ofInt_lowSigned (bits : ℕ) : VType.ofInt (lowSigned 32 bits) % 2 ^ 32 = bits % 2 ^ 32 := by
  have hlt : bits % 2 ^ 32 < 2 ^ 32 := Nat.mod_lt _ (by decide)
  rw [VType.ofInt, lowSigned]
  split <;> omega

def keepsDecimals (read : VType.ReadF32) (bits : ℕ) : Prop :=
  (∃ negative magnitude, binary32.decode bits = .finite negative magnitude) ∧
    (read (formatF32 bits)).map UInt32.toNat = some bits

lemma parseHackValue_formatF32 (read : VType.ReadF32) (bits n : ℕ) :
    parseHackValue read (formatF32 bits) = (.f32, n) ↔
      (∃ negative magnitude, binary32.decode bits = .finite negative magnitude) ∧
        (read (formatF32 bits)).map UInt32.toNat = some n := by
  have htrim : trim (formatF32 bits) = formatF32 bits := trim_plain fun c hc =>
    (numberChars_plain (formatF32_chars bits c hc)).1
  have hpoint : ('.' ∈ formatF32 bits ∨ 'e' ∈ formatF32 bits ∨ 'E' ∈ formatF32 bits) ↔
      ∃ negative magnitude, binary32.decode bits = .finite negative magnitude := by
    unfold formatF32
    cases binary32.decode bits with
    | nan => simp
    | infinite negative => cases negative <;> simp
    | finite => simp
  rw [parseHackValue, htrim, ← hpoint]
  cases hread : read (formatF32 bits) with
  | none => simp
  | some f =>
    by_cases h : '.' ∈ formatF32 bits ∨ 'e' ∈ formatF32 bits ∨ 'E' ∈ formatF32 bits
    · simp [h]
    · simp [h]

def Reloads (read : VType.ReadF32) (t : VType) (bits : ℕ) : Prop :=
  t = .i32 ∧ bits < 2 ^ 32 ∨ t = .f32 ∧ bits < 2 ^ 32 ∧ keepsDecimals read bits

lemma parseHackValue_format (read : VType.ReadF32) (t : VType) (bits : ℕ) :
    parseHackValue read (t.format bits) = (t, bits) ↔ Reloads read t bits := by
  have hsigned : ∀ k ≤ 32, 0 < k → -2 ^ 63 ≤ lowSigned k bits ∧ lowSigned k bits ≤ 2 ^ 63 - 1 := by
    intro k hk hpos
    have hpow : 2 ^ k ≤ 2 ^ 32 := Nat.pow_le_pow_right (by decide) hk
    have hlt : bits % 2 ^ k < 2 ^ k := Nat.mod_lt _ (Nat.two_pow_pos k)
    have hcast : ((2 ^ k : ℕ) : ℤ) = 2 ^ k := by push_cast; rfl
    rw [lowSigned, ← hcast]
    split <;> omega
  have hunsigned : ∀ k ≤ 32, -2 ^ 63 ≤ ((bits % 2 ^ k : ℕ) : ℤ) ∧ ((bits % 2 ^ k : ℕ) : ℤ) ≤ 2 ^ 63 - 1 := by
    intro k hk
    have hpow : 2 ^ k ≤ 2 ^ 32 := Nat.pow_le_pow_right (by decide) hk
    have hlt : bits % 2 ^ k < 2 ^ k := Nat.mod_lt _ (Nat.two_pow_pos k)
    omega
  have hother : ∀ {i : ℤ}, -2 ^ 63 ≤ i ∧ i ≤ 2 ^ 63 - 1 → ∀ t, t ≠ .i32 → t ≠ .f32 →
      (parseHackValue read (formatInt i) = (t, bits) ↔ Reloads read t bits) := by
    intro i hi t ht ht'
    rw [parseHackValue_formatInt read hi.1 hi.2]
    simp [Reloads, ht, ht', Ne.symm ht]
  cases t with
  | auto => exact hother (hsigned 32 (by decide) (by decide)) _ (by decide) (by decide)
  | u8 => exact hother (hunsigned 8 (by decide)) _ (by decide) (by decide)
  | i8 => exact hother (hsigned 8 (by decide) (by decide)) _ (by decide) (by decide)
  | u16 => exact hother (hunsigned 16 (by decide)) _ (by decide) (by decide)
  | i16 => exact hother (hsigned 16 (by decide) (by decide)) _ (by decide) (by decide)
  | u32 => exact hother (hunsigned 32 (by decide)) _ (by decide) (by decide)
  | i32 =>
    have hi := hsigned 32 (by decide) (by decide)
    rw [VType.format, parseHackValue_formatInt read hi.1 hi.2, ofInt_lowSigned]
    simp [Reloads]
  | f32 =>
    rw [VType.format, parseHackValue_formatF32]
    by_cases hlt : bits < 2 ^ 32
    · rw [Nat.mod_eq_of_lt hlt, Reloads, keepsDecimals]
      exact ⟨fun h => .inr ⟨rfl, hlt, h⟩, fun h => (h.resolve_left fun h => nomatch h.1).2.2⟩
    · have hnot : (read (formatF32 (bits % 2 ^ 32))).map UInt32.toNat ≠ some bits := by
        intro h
        obtain ⟨f, -, rfl⟩ := Option.map_eq_some_iff.mp h
        exact hlt f.toNat_lt
      refine iff_of_false (fun h => hnot h.2) ?_
      rintro (⟨-, h⟩ | ⟨-, h, -⟩) <;> exact hlt h

def written (p : Patch) : List Char := '0' :: 'x' :: upperHex p.addr ++ '=' :: p.vtype.format p.bits

lemma hackLine_eq (p : Patch) : hackLine p = (written p ++ [' ']) ++ '#' :: (' ' :: p.vtype.name ++
    if p.freeze then ' ' :: freezeWord else []) := by
  simp [hackLine, written]

lemma written_chars (hc : c ∈ written p) : c = 'x' ∨ c = '=' ∨ c ∈ numberChars := by
  have hzero : '0' ∈ numberChars := by decide
  simp only [written, cons_append, mem_cons, mem_append] at hc
  obtain rfl | rfl | hc | rfl | hc := hc
  · exact .inr (.inr hzero)
  · exact .inl rfl
  · exact .inr (.inr (upperHex_digit _ c hc).1)
  · exact .inr (.inl rfl)
  · exact .inr (.inr (format_chars _ _ c hc))

lemma written_not (hx : c ≠ 'x') (heq : c ≠ '=') (hnumber : c ∉ numberChars) : c ∉ written p := by
  intro hc
  obtain h | h | h := written_chars hc
  · exact hx h
  · exact heq h
  · exact hnumber h

lemma written_plain (hc : c ∈ written p) : isWhitespace c = false ∧ c.toLower ≠ 'z' := by
  obtain rfl | rfl | hc := written_chars hc
  · exact ⟨rfl, by decide⟩
  · exact ⟨rfl, by decide⟩
  · obtain ⟨hspace, -, -, -, -, -, -, -, hlower⟩ := numberChars_plain hc
    exact ⟨hspace, hlower⟩

lemma strippedLine_hackLine (p : Patch) : strippedLine (hackLine p) = written p := by
  have hmark : '#' ∉ written p ++ [' '] := by
    intro hmem
    obtain hmem | hmem := mem_append.mp hmem
    · exact written_not (by decide) (by decide) (by decide) hmem
    · cases mem_singleton.mp hmem
  have hne : written p ≠ [] := cons_ne_nil _ _
  rw [strippedLine, hackLine_eq, upTo_append hmark, trim_space hne]
  intro c hc
  exact (written_plain hc).1

lemma freezes_hackLine (p : Patch) : freezes (hackLine p) = p.freeze := by
  rw [freezes, hackLine_eq]
  cases hfreeze : p.freeze with
  | false =>
    have hname : ∀ t : VType, 'z' ∉ t.name.map Char.toLower := by
      intro t
      cases t <;> decide
    have hz : 'z' ∉ (written p).map Char.toLower := by
      intro hmem
      obtain ⟨c, hc, hlower⟩ := mem_map.mp hmem
      exact (written_plain hc).2 hlower
    have hword : 'z' ∈ freezeWord := by decide
    have hspace : 'z' ≠ ' '.toLower := by decide
    have hmark : 'z' ≠ '#'.toLower := by decide
    refine decide_eq_false fun hinfix => ?_
    have hmem := hinfix.subset hword
    simp only [Bool.false_eq_true, if_false, append_nil, map_append, map_cons, map_nil,
      mem_append, mem_cons, not_mem_nil, or_false, hz, hspace, hmark, hname p.vtype] at hmem
  | true =>
    have hword : freezeWord.map Char.toLower = freezeWord := by decide
    let before := written p ++ [' '] ++ '#' :: ' ' :: p.vtype.name ++ [' ']
    refine decide_eq_true ⟨before.map Char.toLower, [], ?_⟩
    simp [before, hword]

lemma splitOn_hackLine (p : Patch) : (hackLine p).splitOn '\n' = [hackLine p] := by
  have hname : ∀ t : VType, '\n' ∉ t.name := by
    intro t
    cases t <;> decide
  have hline : '\n' ∉ hackLine p := by
    have hwritten : '\n' ∉ written p := written_not (by decide) (by decide) (by decide)
    have hword : '\n' ∉ freezeWord := by decide
    rw [hackLine_eq]
    cases p.freeze <;> simp [hwritten, hname p.vtype, hword]
  apply splitOnP_eq_singleton
  intro c hc
  have hne : c ≠ '\n' := fun heq => hline (heq ▸ hc)
  simpa using hne

lemma upperHex_ne_nil (n : ℕ) : upperHex n ≠ [] := by
  rw [upperHex, Ne, map_eq_nil_iff]
  exact Nat.toDigits_ne_nil

lemma upperHex_plain (hc : c ∈ upperHex n) : PlainNumber c := numberChars_plain (upperHex_digit n c hc).1

lemma fromStrRadix_upperHex (h : n < 2 ^ 32) :
    fromStrRadix 0 (2 ^ 32 - 1) 16 (upperHex n) = some (n : ℤ) := by
  have hvalue : fromDigits 16 (upperHex n) = some n := fromDigits_toDigits (by decide) (by decide) n
  have hplus : '+' ∉ upperHex n := fun hmem => (upperHex_plain hmem).2.2.2.2.2.2.1 rfl
  have hminus : '-' ∉ upperHex n := fun hmem => (upperHex_digit n _ hmem).2 rfl
  exact fromStrRadix_unsigned (upperHex_ne_nil n) hplus hminus hvalue (by omega) (by omega)

lemma trimStartHex_upperHex (n : ℕ) : trimStartHex ('0' :: 'x' :: upperHex n) = upperHex n := by
  have hx : 'x' ∉ upperHex n := fun hmem => (upperHex_plain hmem).2.2.2.2.2.1 rfl
  rw [trimStartHex]
  unfold trimStartHex
  split
  next heq =>
    rw [heq] at hx
    exact (hx (by simp)).elim
  next => rfl

lemma parseAddrValue_written (p : Patch) :
    parseAddrValue (written p) = some ('0' :: 'x' :: upperHex p.addr, p.vtype.format p.bits) := by
  have hequals : '=' ∉ '0' :: 'x' :: upperHex p.addr := by
    intro hmem
    simp only [mem_cons] at hmem
    obtain h | h | hmem := hmem
    · cases h
    · cases h
    · exact (upperHex_plain hmem).2.2.2.2.1 rfl
  have haddr : trim ('0' :: 'x' :: upperHex p.addr) = '0' :: 'x' :: upperHex p.addr := by
    apply trim_plain
    intro c hc
    exact (written_plain (p := p) (mem_append_left _ hc)).1
  have hwritten : trim (written p) = written p := trim_plain fun c hc => (written_plain hc).1
  rw [parseAddrValue, hwritten, written, splitOnce_append hequals]
  simp [haddr, trim_format, format_ne_nil]

lemma parseHackText_hackLine (read : VType.ReadF32) (haddr : p.addr < 2 ^ 32) (app : List Char) :
    parseHackText read (hackLine p) (some app) (some app) =
      [⟨p.addr, (parseHackValue read (p.vtype.format p.bits)).1,
        (parseHackValue read (p.vtype.format p.bits)).2, p.freeze⟩] := by
  have hne : written p ≠ [] := cons_ne_nil _ _
  have hheader : sectionHeader (written p) = none := by
    rw [sectionHeader, if_neg]
    rintro ⟨h, -⟩
    cases h
  have hcolon : splitOnce ':' (written p) = none :=
    splitOnce_eq_none.mpr (written_not (by decide) (by decide) (by decide))
  have htag : inlineTag (written p) = (none, written p) := by rw [inlineTag, hcolon]
  have hline : parseLine read (some app) (some app) none p.freeze (written p) =
      some ⟨p.addr, (parseHackValue read (p.vtype.format p.bits)).1,
        (parseHackValue read (p.vtype.format p.bits)).2, p.freeze⟩ := by
    rw [parseLine, patchApp, htag, parseAddrValue_written]
    dsimp only
    rw [trimStartHex_upperHex, fromStrRadix_upperHex haddr]
    simp
  rw [parseHackText, splitOn_hackLine, parseLines, strippedLine_hackLine, if_neg hne, hheader]
  dsimp only
  rw [freezes_hackLine, hline]
  rfl

lemma parseHackText_saved (read : VType.ReadF32) (haddr : p.addr < 2 ^ 32) (app : List Char) :
    parseHackText read (hackLine p) (some app) (some app) = [p] ↔ Reloads read p.vtype p.bits := by
  rw [parseHackText_hackLine read haddr, ← parseHackValue_format, List.cons.injEq]
  obtain ⟨addr, t, bits, freeze⟩ := p
  simp [Prod.ext_iff]

def sectionAfter (lines : List (List Char)) : Option (List Char) :=
  (lines.filterMap fun raw => sectionHeader (strippedLine raw)).getLast?

lemma mem_parseLines {fileApp currentApp : Option (List Char)} :
    ∀ {lines : List (List Char)} {sectionApp : Option (List Char)},
      p ∈ parseLines read fileApp currentApp sectionApp lines →
      ∃ before raw after, lines = before ++ raw :: after ∧
        parseLine read fileApp currentApp ((sectionAfter before).or sectionApp) (freezes raw)
          (strippedLine raw) = some p := by
  intro lines
  induction lines with
  | nil =>
    intro sectionApp h
    cases h
  | cons raw rest ih =>
    intro sectionApp h
    rw [parseLines] at h
    have hnext : ∀ sectionApp', p ∈ parseLines read fileApp currentApp sectionApp' rest →
        (∀ before, (sectionAfter before).or sectionApp' = (sectionAfter (raw :: before)).or sectionApp) →
        ∃ before raw' after, raw :: rest = before ++ raw' :: after ∧
          parseLine read fileApp currentApp ((sectionAfter before).or sectionApp) (freezes raw')
            (strippedLine raw') = some p := by
      intro sectionApp' hmem hsection
      obtain ⟨before, raw', after, rfl, hline⟩ := ih hmem
      refine ⟨raw :: before, raw', after, rfl, ?_⟩
      rwa [← hsection]
    have hkeep : sectionHeader (strippedLine raw) = none →
        ∀ before, (sectionAfter before).or sectionApp = (sectionAfter (raw :: before)).or sectionApp := by
      intro hheader before
      simp [sectionAfter, hheader]
    split at h
    next hempty =>
      refine hnext sectionApp h (hkeep ?_)
      rw [hempty]
      rfl
    next hempty =>
      split at h
      next app hheader =>
        refine hnext _ h fun before => ?_
        have hcons : ((raw :: before).filterMap fun raw => sectionHeader (strippedLine raw)) =
            app :: before.filterMap fun raw => sectionHeader (strippedLine raw) := by
          simp [hheader]
        rw [sectionAfter, sectionAfter, hcons]
        cases hlast : (before.filterMap fun raw => sectionHeader (strippedLine raw)).getLast? with
        | none => simp [getLast?_eq_none_iff.mp hlast]
        | some app' => simp [getLast?_cons, hlast]
      next hheader =>
        obtain h | h := mem_append.mp h
        · exact ⟨[], raw, rest, rfl, by simpa [sectionAfter] using h⟩
        · exact hnext _ h (hkeep hheader)

lemma parseLine_app {fileApp currentApp sectionApp : Option (List Char)} {freeze : Bool} {line : List Char}
    (h : parseLine read fileApp currentApp sectionApp freeze line = some p) (app : List Char)
    (happ : patchApp fileApp sectionApp line = some app) : some app = currentApp := by
  rw [parseLine, happ] at h
  split at h
  next => cases h
  next =>
    by_contra hne
    simp [hne] at h

end TouchHle.Trainer.Hacks
