import TouchHle.Lib.Unicode
import TouchHle.Strings.Searching

namespace TouchHle.Strings

open Lib

inductive StringHostObject
  | utf8 (chars : List Char)
  | utf16 (units : List UInt16)

def StringHostObject.iterCodeUnits : StringHostObject → List UInt16
  | utf8 chars => Lib.utf16 chars
  | utf16 units => units

def StringHostObject.toUtf8 : StringHostObject → Option (List Char)
  | utf8 chars => some chars
  | utf16 units => fromUtf16 units

inductive NSComparisonResult
  | orderedAscending
  | orderedSame
  | orderedDescending
  deriving DecidableEq

def fromRustOrdering : Ordering → NSComparisonResult
  | .lt => .orderedAscending
  | .eq => .orderedSame
  | .gt => .orderedDescending

def nil : ℕ := 0

def numericSearch : ℕ := 64

def compareEnds (a b : List UInt16) : Ordering := compare a.head? b.head?

def charOrder (a b : Char) : Ordering := compare a.toNat b.toNat

def isDigitUnit (u : UInt16) : Bool := (charFromU32 u).any Char.isDigit

def toDigit (c : Char) : ℕ := c.toNat - 48

def mulU32 (x y : ℕ) : Checked ℕ := if x * y < u32Bound then .ok (x * y) else .error .overflow

def unitDigit (u : UInt16) : ℕ := ((charFromU32 u).map toDigit).getD 0

def asciiNumber (iter : List UInt16) (leftmostDigit : Char) : Checked ℕ :=
  (iter.takeWhile isDigitUnit).foldlM
    (fun num u => do addU32 (← mulU32 num 10) (unitDigit u)) (toDigit leftmostDigit)

def afterNumber (iter : List UInt16) : List UInt16 := iter.dropWhile isDigitUnit

lemma length_afterNumber_le (iter : List UInt16) : (afterNumber iter).length ≤ iter.length :=
  (List.dropWhile_suffix _).length_le

section

-- `char::to_lowercase`
variable (toLowercase : Char → List Char)

def insensitiveOrder (a b : UInt16) : Ordering :=
  match charFromU32 a, charFromU32 b with
  | some c, some d => (toLowercase c).compareLex charOrder (toLowercase d)
  | _, _ => compare a b

def compareInsensitive : List UInt16 → List UInt16 → Ordering
  | a :: as, b :: bs =>
    if insensitiveOrder toLowercase a b ≠ .eq then insensitiveOrder toLowercase a b
    else compareInsensitive as bs
  | as, bs => compareEnds as bs

def compareNumeric : List UInt16 → List UInt16 → Checked Ordering
  | a :: as, b :: bs =>
    match charFromU32 a, charFromU32 b with
    | some c, some d =>
      if c.isDigit && d.isDigit then do
        let m ← asciiNumber as c
        let n ← asciiNumber bs d
        if compare m n ≠ .eq then return compare m n
        else compareNumeric (afterNumber as) (afterNumber bs)
      else if charOrder c d ≠ .eq then return charOrder c d
      else compareNumeric as bs
    | _, _ => if compare a b ≠ .eq then return compare a b else compareNumeric as bs
  | as, bs => return compareEnds as bs
termination_by as => as.length
decreasing_by
  · exact Nat.lt_succ_of_le (length_afterNumber_le as)
  · exact Nat.lt_succ_self as.length
  · exact Nat.lt_succ_self as.length

def compareOptions (strings : ℕ → StringHostObject) (this other mask : ℕ) :
    Checked NSComparisonResult :=
  if other = nil then .ok .orderedDescending
  else
    let a := (strings this).iterCodeUnits
    let b := (strings other).iterCodeUnits
    let mask := if mask = 0 then literalSearch else mask
    if mask = caseInsensitiveSearch then
      .ok (fromRustOrdering (compareInsensitive toLowercase a b))
    else if mask = literalSearch then .ok (fromRustOrdering (compare a b))
    else if mask = numericSearch then fromRustOrdering <$> compareNumeric a b
    else .ok (fromRustOrdering (compare a b))

end

def toRustString (strings : ℕ → StringHostObject) (string : ℕ) : Checked (List Char) :=
  if string = nil then .ok []
  else ((strings string).toUtf8).elim (.error .unwrap) .ok

def isEqual (strings : ℕ → StringHostObject) (this other : ℕ) : Checked Bool :=
  if this = other then .ok true
  else if other = nil then .ok false
  else do return (← toRustString strings this) == (← toRustString strings other)

variable {a b : UInt16} {as bs l : List UInt16} {c d : Char} {m n v : ℕ}

section Keys

/-- What is known of case folding: a character is folded to some characters, the first of which
lies on the same side of the surrogates. -/
structure Lowercase where
  map : Char → List Char
  head : ∀ c : Char, c.toNat < 0x10000 →
    ∃ d l, map c = d :: l ∧ (d.toNat < 0xD800 ↔ c.toNat < 0xD800)

inductive Token
  | unit (u : UInt16)
  | number (n : ℕ)

def digitsValue (l : List UInt16) : ℕ := Nat.ofDigits 10 (l.map unitDigit).reverse

def tokens : List UInt16 → List Token
  | [] => []
  | u :: us =>
    if isDigitUnit u then
      .number (digitsValue (u :: us.takeWhile isDigitUnit)) :: tokens (afterNumber us)
    else .unit u :: tokens us
termination_by us => us.length
decreasing_by
  · exact Nat.lt_succ_of_le (length_afterNumber_le us)
  · exact Nat.lt_succ_self us.length

def Token.key : Token → List ℕ
  | unit u => [u.toNat]
  | number n => [48, n]

def foldedKey (lower : Lowercase) (u : UInt16) : List ℕ :=
  (charFromU32 u).elim [u.toNat] fun c => (lower.map c).map Char.toNat

def keys (lower : Lowercase) (mask : ℕ) (units : List UInt16) : List (List ℕ) :=
  if mask = caseInsensitiveSearch then units.map (foldedKey lower)
  else if mask = numericSearch then (tokens units).map Token.key
  else units.map fun u => [u.toNat]

end Keys

lemma charFromU32_eq_some (h : charFromU32 a = some c) :
    c.toNat = a.toNat ∧ (a.toNat < 0xD800 ∨ 0xDFFF < a.toNat) := by
  unfold charFromU32 at h
  split_ifs at h with hin
  rw [UInt16.lt_iff_toNat_lt, UInt16.lt_iff_toNat_lt] at hin
  have hin : a.toNat < 0xD800 ∨ 0xDFFF < a.toNat := hin
  have hlt := a.toNat_lt
  obtain rfl := Option.some.inj h
  exact ⟨toNat_ofNat (hin.imp_right fun h => ⟨h, by omega⟩), hin⟩

lemma charFromU32_eq_none (h : charFromU32 a = none) : 0xD800 ≤ a.toNat ∧ a.toNat ≤ 0xDFFF := by
  unfold charFromU32 at h
  split_ifs at h with hin
  rw [UInt16.lt_iff_toNat_lt, UInt16.lt_iff_toNat_lt] at hin
  change ¬ (a.toNat < 0xD800 ∨ 0xDFFF < a.toNat) at hin
  omega

lemma isDigit_iff : c.isDigit = true ↔ 48 ≤ c.toNat ∧ c.toNat ≤ 57 := by
  simp [Char.isDigit, UInt32.le_iff_toNat_le]

lemma isDigitUnit_iff : isDigitUnit a = true ↔ 48 ≤ a.toNat ∧ a.toNat ≤ 57 := by
  unfold isDigitUnit
  cases h : charFromU32 a with
  | none =>
    have hsurrogate := charFromU32_eq_none h
    simp
    omega
  | some c => simp [isDigit_iff, (charFromU32_eq_some h).1]

lemma compare_units (a b : UInt16) : compare a b = compare a.toNat b.toNat := by
  simp only [compare, compareOfLessAndEq, UInt16.lt_iff_toNat_lt, ← UInt16.toNat_inj]

lemma compare_singleton (x y : ℕ) : compare [x] [y] = compare x y := by
  rw [List.compare_cons_cons]
  cases compare x y <;> rfl

lemma compareLex_map {α : Type} {β : Type} [Ord β] {o : α → α → Ordering} {f : α → β}
    (h : ∀ x y, o x y = compare (f x) (f y)) (xs ys : List α) :
    xs.compareLex o ys = compare (xs.map f) (ys.map f) := by
  induction xs generalizing ys with
  | nil =>
    cases ys with
    | nil => rfl
    | cons y ys => rfl
  | cons x xs ih =>
    cases ys with
    | nil => rfl
    | cons y ys =>
      rw [List.compareLex_cons_cons, h, ih, List.map_cons, List.map_cons, List.compare_cons_cons]

lemma compareEnds_eq {f : UInt16 → List ℕ}
    (h : as = [] ∨ bs = []) : compareEnds as bs = compare (as.map f) (bs.map f) := by
  obtain rfl | rfl := h
  · cases bs with
    | nil => rfl
    | cons b bs => rfl
  · cases as with
    | nil => rfl
    | cons a as => rfl

lemma then_eq (o o' : Ordering) : o.then o' = if o ≠ .eq then o else o' := by
  cases o <;> rfl

lemma insensitiveOrder_eq (lower : Lowercase) (a b : UInt16) :
    insensitiveOrder lower.map a b = compare (foldedKey lower a) (foldedKey lower b) := by
  have hmixed : ∀ {x y : UInt16} {c : Char}, charFromU32 x = none → charFromU32 y = some c →
      compare x.toNat y.toNat = compare [x.toNat] ((lower.map c).map Char.toNat) ∧
      compare y.toNat x.toNat = compare ((lower.map c).map Char.toNat) [x.toNat] := by
    intro x y c hx hy
    have hsurrogate := charFromU32_eq_none hx
    obtain ⟨hc, hside⟩ := charFromU32_eq_some hy
    obtain ⟨d, l, hd, hiff⟩ := lower.head c (by rw [hc]; exact y.toNat_lt)
    have hvalid := toNat_lt_or d
    rw [hd, List.map_cons, List.compare_cons_cons, List.compare_cons_cons]
    by_cases hlow : y.toNat < 0xD800
    · have hgt : compare x.toNat y.toNat = .gt := Nat.compare_eq_gt.mpr (by omega)
      have hlt : compare y.toNat x.toNat = .lt := Nat.compare_eq_lt.mpr (by omega)
      have hgt' : compare x.toNat d.toNat = .gt := Nat.compare_eq_gt.mpr (by omega)
      have hlt' : compare d.toNat x.toNat = .lt := Nat.compare_eq_lt.mpr (by omega)
      rw [hgt, hlt, hgt', hlt']
      exact ⟨rfl, rfl⟩
    · have hlt : compare x.toNat y.toNat = .lt := Nat.compare_eq_lt.mpr (by omega)
      have hgt : compare y.toNat x.toNat = .gt := Nat.compare_eq_gt.mpr (by omega)
      have hlt' : compare x.toNat d.toNat = .lt := Nat.compare_eq_lt.mpr (by omega)
      have hgt' : compare d.toNat x.toNat = .gt := Nat.compare_eq_gt.mpr (by omega)
      rw [hgt, hlt, hgt', hlt']
      exact ⟨rfl, rfl⟩
  unfold insensitiveOrder foldedKey
  cases ha : charFromU32 a with
  | none =>
    cases hb : charFromU32 b with
    | none => exact (compare_units a b).trans (compare_singleton _ _).symm
    | some d => exact (compare_units a b).trans (hmixed ha hb).1
  | some c =>
    cases hb : charFromU32 b with
    | none => exact (compare_units a b).trans (hmixed hb ha).2
    | some d => exact compareLex_map (fun _ _ => rfl) _ _

lemma compareInsensitive_eq (lower : Lowercase) : compareInsensitive lower.map as bs =
    compare (as.map (foldedKey lower)) (bs.map (foldedKey lower)) := by
  induction as generalizing bs with
  | nil => exact compareEnds_eq (.inl rfl)
  | cons a as ih =>
    cases bs with
    | nil => exact compareEnds_eq (.inr rfl)
    | cons b bs =>
      rw [compareInsensitive, insensitiveOrder_eq, ih, List.map_cons, List.map_cons,
        List.compare_cons_cons, then_eq]

lemma compare_literal : compare as bs =
    compare (as.map fun u => [u.toNat]) (bs.map fun u => [u.toNat]) := by
  refine compareLex_map (o := compare) (fun a b => ?_) as bs
  rw [compare_units, compare_singleton]

section Numbers

lemma tokens_digit (h : isDigitUnit a = true) : tokens (a :: as) =
    .number (digitsValue (a :: as.takeWhile isDigitUnit)) :: tokens (afterNumber as) := by
  rw [tokens, if_pos h]

lemma tokens_unit (h : ¬ isDigitUnit a = true) : tokens (a :: as) = .unit a :: tokens as := by
  rw [tokens, if_neg h]

def addDigit (n : ℕ) (u : UInt16) : ℕ := n * 10 + unitDigit u

lemma foldl_addDigit (l : List UInt16) (n : ℕ) :
    l.foldl addDigit n = Nat.ofDigits 10 (l.map unitDigit).reverse + n * 10 ^ l.length := by
  induction l generalizing n with
  | nil => simp
  | cons u l ih =>
    rw [List.foldl_cons, ih, List.map_cons, List.reverse_cons, Nat.ofDigits_append,
      Nat.ofDigits_singleton, List.length_reverse, List.length_map, List.length_cons, addDigit,
      pow_succ]
    ring

lemma digitsValue_cons : digitsValue (a :: as) = as.foldl addDigit (unitDigit a) := by
  rw [foldl_addDigit, digitsValue, List.map_cons, List.reverse_cons, Nat.ofDigits_append,
    Nat.ofDigits_singleton, List.length_reverse, List.length_map]
  ring

lemma le_foldl_addDigit (l : List UInt16) (n : ℕ) : n ≤ l.foldl addDigit n := by
  rw [foldl_addDigit]
  have hmul : n ≤ n * 10 ^ l.length := Nat.le_mul_of_pos_right n (by positivity)
  omega

def word (v : ℕ) : Checked ℕ := if v < 2 ^ 32 then .ok v else .error .overflow

lemma word_eq_ok : word m = .ok n ↔ m < 2 ^ 32 ∧ n = m := by
  unfold word
  split_ifs with h
  · rw [and_iff_right h, Except.ok.injEq, eq_comm]
  · exact iff_of_false (by simp) fun hm => h hm.1

lemma addDigit_step (n : ℕ) (u : UInt16) :
    (do addU32 (← mulU32 n 10) (unitDigit u)) = word (addDigit n u) := by
  unfold mulU32
  split_ifs with hmul
  · rfl
  · have hbig : ¬ addDigit n u < 2 ^ 32 := by
      unfold addDigit u32Bound at *
      omega
    rw [word, if_neg hbig]
    rfl

lemma foldlM_addDigit (l : List UInt16) (n : ℕ) (hn : n < 2 ^ 32) :
    l.foldlM (fun num u => do addU32 (← mulU32 num 10) (unitDigit u)) n =
      word (l.foldl addDigit n) := by
  induction l generalizing n with
  | nil => exact (if_pos hn).symm
  | cons u l ih =>
    have hle := le_foldl_addDigit l (addDigit n u)
    rw [List.foldlM_cons, addDigit_step, List.foldl_cons]
    by_cases hfits : addDigit n u < 2 ^ 32
    · rw [word, if_pos hfits, ok_bind, ih _ hfits]
    · rw [word, if_neg hfits, error_bind, word, if_neg (by omega)]

lemma asciiNumber_eq (hc : charFromU32 a = some c) (hdigit : isDigitUnit a = true) :
    asciiNumber as c = word (digitsValue (a :: as.takeWhile isDigitUnit)) := by
  have hrange := isDigitUnit_iff.mp hdigit
  have hcode := (charFromU32_eq_some hc).1
  have hfirst : unitDigit a = toDigit c := by
    rw [unitDigit, hc]
    rfl
  have hsmall : toDigit c < 2 ^ 32 := by
    rw [toDigit, hcode]
    omega
  rw [asciiNumber, foldlM_addDigit _ _ hsmall, digitsValue_cons, hfirst]

lemma compareNumeric_cons : compareNumeric (a :: as) (b :: bs) =
    if isDigitUnit a = true ∧ isDigitUnit b = true then do
      let m ← word (digitsValue (a :: as.takeWhile isDigitUnit))
      let n ← word (digitsValue (b :: bs.takeWhile isDigitUnit))
      if compare m n ≠ .eq then return compare m n
      else compareNumeric (afterNumber as) (afterNumber bs)
    else if compare a b ≠ .eq then return compare a b
    else compareNumeric as bs := by
  rw [compareNumeric]
  cases ha : charFromU32 a with
  | none =>
    have hno : isDigitUnit a = false := by rw [isDigitUnit, ha]; rfl
    simp [hno]
  | some c =>
    have hdigit : c.isDigit = isDigitUnit a := by rw [isDigitUnit, ha]; rfl
    cases hb : charFromU32 b with
    | none =>
      have hno : isDigitUnit b = false := by rw [isDigitUnit, hb]; rfl
      simp [hno]
    | some d =>
      have hdigit' : d.isDigit = isDigitUnit b := by rw [isDigitUnit, hb]; rfl
      have hchars : charOrder c d = compare a b := by
        rw [compare_units, ← (charFromU32_eq_some ha).1, ← (charFromU32_eq_some hb).1]
        rfl
      simp only [hdigit, hdigit', hchars, Bool.and_eq_true]
      by_cases hboth : isDigitUnit a = true ∧ isDigitUnit b = true
      · rw [if_pos hboth, if_pos hboth, asciiNumber_eq ha hboth.1, asciiNumber_eq hb hboth.2]
      · rw [if_neg hboth, if_neg hboth]

def Fits (units : List UInt16) : Prop := ∀ n, .number n ∈ tokens units → n < 2 ^ 32

lemma fits_digit (h : isDigitUnit a = true) : Fits (a :: as) ↔
    digitsValue (a :: as.takeWhile isDigitUnit) < 2 ^ 32 ∧ Fits (afterNumber as) := by
  unfold Fits
  rw [tokens_digit h]
  simp

lemma fits_unit (h : ¬ isDigitUnit a = true) : Fits (a :: as) ↔ Fits as := by
  unfold Fits
  rw [tokens_unit h]
  simp

lemma Fits.tail (h : Fits (a :: as)) (ha : ¬ isDigitUnit a = true) : Fits as := (fits_unit ha).mp h

lemma compare_number (m n : ℕ) : compare [48, m] [48, n] = compare m n := by
  rw [List.compare_cons_cons, compare_singleton]
  rfl

lemma compare_keys_cons (h : ¬ (isDigitUnit a = true ∧ isDigitUnit b = true)) :
    compare ((tokens (a :: as)).map Token.key) ((tokens (b :: bs)).map Token.key) =
      if compare a b ≠ .eq then compare a b
      else compare ((tokens as).map Token.key) ((tokens bs).map Token.key) := by
  rw [compare_units]
  by_cases ha : isDigitUnit a = true
  · have hb : ¬ isDigitUnit b = true := fun hb => h ⟨ha, hb⟩
    have hdigit := isDigitUnit_iff.mp ha
    have hother := mt isDigitUnit_iff.mpr hb
    rw [tokens_digit ha, tokens_unit hb, List.map_cons, List.map_cons, List.compare_cons_cons,
      Token.key, Token.key, List.compare_cons_cons]
    by_cases hlt : a.toNat < b.toNat
    · have hkey : compare 48 b.toNat = .lt := Nat.compare_eq_lt.mpr (by omega)
      rw [Nat.compare_eq_lt.mpr hlt, hkey]
      rfl
    · have hgt : compare a.toNat b.toNat = .gt := Nat.compare_eq_gt.mpr (by omega)
      have hkey : compare 48 b.toNat = .gt := Nat.compare_eq_gt.mpr (by omega)
      rw [hgt, hkey]
      rfl
  · by_cases hb : isDigitUnit b = true
    · have hdigit := isDigitUnit_iff.mp hb
      have hother := mt isDigitUnit_iff.mpr ha
      rw [tokens_unit ha, tokens_digit hb, List.map_cons, List.map_cons, List.compare_cons_cons,
        Token.key, Token.key, List.compare_cons_cons]
      by_cases hlt : a.toNat < b.toNat
      · have hkey : compare a.toNat 48 = .lt := Nat.compare_eq_lt.mpr (by omega)
        rw [Nat.compare_eq_lt.mpr hlt, hkey]
        rfl
      · have hgt : compare a.toNat b.toNat = .gt := Nat.compare_eq_gt.mpr (by omega)
        have hkey : compare a.toNat 48 = .gt := Nat.compare_eq_gt.mpr (by omega)
        rw [hgt, hkey]
        rfl
    · rw [tokens_unit ha, tokens_unit hb, List.map_cons, List.map_cons, List.compare_cons_cons,
        Token.key, Token.key, compare_singleton, then_eq]

lemma compareNumeric_ends (h : as = [] ∨ bs = []) : compareNumeric as bs =
    .ok (compare ((tokens as).map Token.key) ((tokens bs).map Token.key)) := by
  have hcons : ∀ x xs, ∃ y ys, (tokens (x :: xs)).map Token.key = y :: ys := by
    intro x xs
    by_cases hx : isDigitUnit x = true
    · rw [tokens_digit hx]
      exact ⟨_, _, rfl⟩
    · rw [tokens_unit hx]
      exact ⟨_, _, rfl⟩
  have hnil : (tokens []).map Token.key = [] := by rw [tokens]; rfl
  obtain rfl | rfl := h
  · cases bs with
    | nil =>
      rw [compareNumeric, hnil]
      · rfl
      · simp
    | cons b bs =>
      obtain ⟨y, ys, hy⟩ := hcons b bs
      rw [compareNumeric, hnil, hy]
      · rfl
      · simp
  · cases as with
    | nil =>
      rw [compareNumeric, hnil]
      · rfl
      · simp
    | cons a as =>
      obtain ⟨y, ys, hy⟩ := hcons a as
      rw [compareNumeric, hnil, hy]
      · rfl
      · simp

lemma compareNumeric_eq (ha : Fits as) (hb : Fits bs) : compareNumeric as bs =
    .ok (compare ((tokens as).map Token.key) ((tokens bs).map Token.key)) := by
  induction hlen : as.length using Nat.strong_induction_on generalizing as bs with
  | _ k ih =>
    cases as with
    | nil => exact compareNumeric_ends (.inl rfl)
    | cons a as =>
      cases bs with
      | nil => exact compareNumeric_ends (.inr rfl)
      | cons b bs =>
        rw [List.length_cons] at hlen
        have hshorter := length_afterNumber_le as
        rw [compareNumeric_cons]
        by_cases hboth : isDigitUnit a = true ∧ isDigitUnit b = true
        · obtain ⟨hfit, ha⟩ := (fits_digit hboth.1).mp ha
          obtain ⟨hfit', hb⟩ := (fits_digit hboth.2).mp hb
          rw [if_pos hboth, word_eq_ok.mpr ⟨hfit, rfl⟩, word_eq_ok.mpr ⟨hfit', rfl⟩, ok_bind,
            ok_bind, ih _ (by omega) ha hb rfl, tokens_digit hboth.1, tokens_digit hboth.2,
            List.map_cons, List.map_cons, List.compare_cons_cons, Token.key, Token.key,
            compare_number, then_eq]
          split_ifs <;> rfl
        · rw [if_neg hboth, compare_keys_cons hboth]
          split_ifs with hne
          · rfl
          · have heq : compare a b = .eq := not_not.mp hne
            have hab : a = b := Std.LawfulEqOrd.eq_of_compare heq
            have hdigit : ¬ isDigitUnit a = true := fun h => hboth ⟨h, hab ▸ h⟩
            exact ih _ (by omega) (ha.tail hdigit) (hb.tail (hab ▸ hdigit)) rfl

lemma fits_of_compareNumeric_self {o : Ordering} (h : compareNumeric as as = .ok o) : Fits as := by
  induction hlen : as.length using Nat.strong_induction_on generalizing as with
  | _ k ih =>
    cases as with
    | nil =>
      intro n hn
      rw [tokens] at hn
      cases hn
    | cons a as =>
      rw [List.length_cons] at hlen
      have hshorter := length_afterNumber_le as
      rw [compareNumeric_cons] at h
      by_cases hdigit : isDigitUnit a = true
      · rw [if_pos ⟨hdigit, hdigit⟩] at h
        obtain ⟨m, hm, h⟩ := bind_eq_ok.mp h
        rw [hm, ok_bind, if_neg (by simp)] at h
        exact (fits_digit hdigit).mpr ⟨(word_eq_ok.mp hm).1, ih _ (by omega) h rfl⟩
      · rw [if_neg fun hboth => hdigit hboth.1, if_neg (by simp)] at h
        exact (fits_unit hdigit).mpr (ih _ (by omega) h rfl)

end Numbers

section Orders

def NSComparisonResult.swap : NSComparisonResult → NSComparisonResult
  | orderedAscending => orderedDescending
  | orderedSame => orderedSame
  | orderedDescending => orderedAscending

structure TotalPreorder {α : Type} (order : α → α → Checked NSComparisonResult) (S : Set α) :
    Prop where
  defined : ∀ a ∈ S, ∀ b ∈ S, ∃ r, order a b = .ok r
  refl : ∀ a ∈ S, order a a = .ok .orderedSame
  swap : ∀ a ∈ S, ∀ b ∈ S, ∀ r, order a b = .ok r → order b a = .ok r.swap
  trans : ∀ a ∈ S, ∀ b ∈ S, ∀ c ∈ S, order a b ≠ .ok .orderedDescending →
    order b c ≠ .ok .orderedDescending → order a c ≠ .ok .orderedDescending

structure StringId where
  address : ℕ
  ne_nil : address ≠ nil

def IsDigitRun (units : List UInt16) : Prop := units ≠ [] ∧ ∀ u ∈ units, isDigitUnit u = true

variable {lower : Lowercase} {strings : ℕ → StringHostObject} {mask : ℕ} {S : Set StringId}

def units (strings : ℕ → StringHostObject) (s : StringId) : List UInt16 :=
  (strings s.address).iterCodeUnits

def compared (lower : Lowercase) (strings : ℕ → StringHostObject) (mask : ℕ) (s t : StringId) :
    Checked NSComparisonResult :=
  compareOptions lower.map strings s.address t.address mask

structure ComparesStrings (lower : Lowercase) (strings : ℕ → StringHostObject) (mask : ℕ)
    (S : Set StringId) : Prop where
  preorder : TotalPreorder (compared lower strings mask) S
  equal : mask = literalSearch → ∀ s ∈ S, ∀ t ∈ S, ∃ e,
    isEqual strings s.address t.address = .ok e ∧
      (compared lower strings mask s t = .ok .orderedSame ↔ e = true)
  runs : mask = numericSearch → ∀ s ∈ S, ∀ t ∈ S, IsDigitRun (units strings s) →
    IsDigitRun (units strings t) → compared lower strings mask s t =
      .ok (fromRustOrdering (compare (digitsValue (units strings s))
        (digitsValue (units strings t))))

def Comparable (strings : ℕ → StringHostObject) (mask : ℕ) (S : Set StringId) : Prop :=
  (mask = literalSearch → ∀ s ∈ S, ∀ t ∈ S, s ≠ t → (strings s.address).toUtf8 ≠ none) ∧
    (mask = numericSearch → ∀ s ∈ S, Fits (units strings s))

lemma compared_eq (s t : StringId)
    (h : mask = numericSearch → Fits (units strings s) ∧ Fits (units strings t)) :
    compared lower strings mask s t = .ok (fromRustOrdering
      (compare (keys lower mask (units strings s)) (keys lower mask (units strings t)))) := by
  unfold compared compareOptions keys
  rw [if_neg t.ne_nil]
  dsimp only
  by_cases hzero : mask = 0
  · rw [hzero]
    exact congrArg (fun o => Except.ok (fromRustOrdering o)) compare_literal
  rw [if_neg hzero]
  by_cases hcase : mask = caseInsensitiveSearch
  · rw [if_pos hcase, if_pos hcase, if_pos hcase, compareInsensitive_eq]
    rfl
  rw [if_neg hcase, if_neg hcase, if_neg hcase]
  by_cases hnumeric : mask = numericSearch
  · have hliteral : mask ≠ literalSearch := by rw [hnumeric]; decide
    obtain ⟨hs, ht⟩ := h hnumeric
    have hok := compareNumeric_eq hs ht
    rw [if_neg hliteral, if_pos hnumeric, if_pos hnumeric, if_pos hnumeric]
    exact congrArg (fromRustOrdering <$> ·) hok
  · rw [if_neg hnumeric, if_neg hnumeric, if_neg hnumeric, ite_self]
    exact congrArg (fun o => Except.ok (fromRustOrdering o)) compare_literal

lemma fromRustOrdering_swap (o : Ordering) :
    fromRustOrdering o.swap = (fromRustOrdering o).swap := by
  cases o <;> rfl

lemma ne_descending_iff (o : Ordering) :
    (.ok (fromRustOrdering o) : Checked NSComparisonResult) ≠ .ok .orderedDescending ↔
      o.isLE = true := by
  cases o <;> simp [fromRustOrdering]

lemma totalPreorder_of_keys {α : Type} {T : Set α} {order : α → α → Checked NSComparisonResult}
    (key : α → List (List ℕ))
    (h : ∀ a ∈ T, ∀ b ∈ T, order a b = .ok (fromRustOrdering (compare (key a) (key b)))) :
    TotalPreorder order T where
  defined a ha b hb := ⟨_, h a ha b hb⟩
  refl a ha := by
    rw [h a ha a ha, Std.ReflOrd.compare_self]
    rfl
  swap a ha b hb r hr := by
    rw [h a ha b hb] at hr
    obtain rfl := Except.ok.inj hr
    rw [h b hb a ha, Std.OrientedOrd.eq_swap, fromRustOrdering_swap]
  trans a ha b hb c hc hab hbc := by
    rw [h a ha b hb, ne_descending_iff] at hab
    rw [h b hb c hc, ne_descending_iff] at hbc
    rw [h a ha c hc, ne_descending_iff]
    exact Std.TransOrd.isLE_trans hab hbc

lemma iterCodeUnits_of_toUtf8 {o : StringHostObject} {cs : List Char} (h : o.toUtf8 = some cs) :
    o.iterCodeUnits = utf16 cs := by
  cases o with
  | utf8 chars =>
    obtain rfl := Option.some.inj h
    rfl
  | utf16 us => exact utf16_of_fromUtf16 h

lemma isEqual_eq {s t : StringId} {cs ds : List Char} (hne : s.address ≠ t.address)
    (hs : (strings s.address).toUtf8 = some cs) (ht : (strings t.address).toUtf8 = some ds) :
    isEqual strings s.address t.address = .ok (cs == ds) := by
  unfold isEqual toRustString
  rw [if_neg hne, if_neg t.ne_nil, if_neg s.ne_nil, if_neg t.ne_nil, hs, ht]
  rfl

lemma same_iff (o : Ordering) :
    (.ok (fromRustOrdering o) : Checked NSComparisonResult) = .ok .orderedSame ↔
      o = .eq := by
  cases o <;> simp [fromRustOrdering]

lemma compared_literal (s t : StringId) : compared lower strings literalSearch s t =
    .ok (fromRustOrdering (compare (units strings s) (units strings t))) := by
  unfold compared compareOptions
  rw [if_neg t.ne_nil]
  rfl

lemma StringId.ext_address {s t : StringId} (h : s.address = t.address) : s = t := by
  cases s
  cases t
  congr

lemma literal_equal {s t : StringId} (h : s ≠ t →
    (strings s.address).toUtf8 ≠ none ∧ (strings t.address).toUtf8 ≠ none) :
    ∃ e, isEqual strings s.address t.address = .ok e ∧
      (compared lower strings literalSearch s t = .ok .orderedSame ↔ e = true) := by
  rw [compared_literal, same_iff, Std.LawfulEqOrd.compare_eq_iff_eq]
  by_cases hst : s = t
  · subst hst
    exact ⟨true, if_pos rfl, by simp⟩
  · obtain ⟨hs, ht⟩ := h hst
    obtain ⟨cs, hs⟩ := Option.ne_none_iff_exists'.mp hs
    obtain ⟨ds, ht⟩ := Option.ne_none_iff_exists'.mp ht
    refine ⟨_, isEqual_eq (fun h => hst (StringId.ext_address h)) hs ht, ?_⟩
    rw [units, units, iterCodeUnits_of_toUtf8 hs, iterCodeUnits_of_toUtf8 ht, beq_iff_eq]
    exact utf16_injective.eq_iff

lemma toUtf8_of_isEqual {s t : StringId} {e : Bool} (hne : s ≠ t)
    (h : isEqual strings s.address t.address = .ok e) : (strings s.address).toUtf8 ≠ none := by
  intro hnone
  have haddress : s.address ≠ t.address := fun h => hne (StringId.ext_address h)
  unfold isEqual toRustString at h
  rw [if_neg haddress, if_neg t.ne_nil, if_neg s.ne_nil, hnone] at h
  cases h

lemma tokens_digitRun (h : IsDigitRun l) : tokens l = [.number (digitsValue l)] := by
  obtain ⟨hne, hdigits⟩ := h
  obtain ⟨u, us, rfl⟩ := List.exists_cons_of_ne_nil hne
  have hrest : ∀ v ∈ us, isDigitUnit v = true := fun v hv => hdigits v (List.mem_cons_of_mem u hv)
  have hafter : afterNumber us = [] := List.dropWhile_eq_nil_iff.mpr hrest
  rw [tokens_digit (hdigits u List.mem_cons_self), hafter, List.takeWhile_eq_self_iff.mpr hrest,
    tokens]

lemma ComparesStrings.fits (h : ComparesStrings lower strings mask S) (hmask : mask = numericSearch)
    (s : StringId) (hs : s ∈ S) : Fits (units strings s) := by
  have hself := h.preorder.refl s hs
  rw [hmask, compared, compareOptions, if_neg s.ne_nil] at hself
  obtain ⟨o, ho, -⟩ := map_eq_ok.mp hself
  exact fits_of_compareNumeric_self ho

/-- Strings are sorted by value, case or code unit, and are the same when they are equal, exactly
when their surrogates are paired and their numbers fit. -/
theorem comparesStrings_iff (lower : Lowercase) (strings : ℕ → StringHostObject) (mask : ℕ)
    (S : Set StringId) :
    ComparesStrings lower strings mask S ↔ Comparable strings mask S := by
  constructor
  · intro h
    refine ⟨fun hmask s hs t ht hne => ?_, h.fits⟩
    obtain ⟨e, he, -⟩ := h.equal hmask s hs t ht
    exact toUtf8_of_isEqual hne he
  · rintro ⟨hpaired, hfits⟩
    have horder : ∀ s ∈ S, ∀ t ∈ S, compared lower strings mask s t = .ok (fromRustOrdering
        (compare (keys lower mask (units strings s)) (keys lower mask (units strings t)))) :=
      fun s hs t ht => compared_eq s t fun hmask => ⟨hfits hmask s hs, hfits hmask t ht⟩
    refine ⟨totalPreorder_of_keys _ horder, fun hmask s hs t ht => ?_,
      fun hmask s hs t ht hrun hrun' => ?_⟩
    · rw [hmask]
      exact literal_equal fun hne => ⟨hpaired hmask s hs t ht hne, hpaired hmask t ht s hs hne.symm⟩
    · have hkeys : ∀ l, keys lower numericSearch l = (tokens l).map Token.key := fun l => rfl
      rw [horder s hs t ht, hmask, hkeys, hkeys, tokens_digitRun hrun, tokens_digitRun hrun',
        List.map_singleton, List.map_singleton, List.compare_cons_cons, Token.key, Token.key,
        compare_number]
      cases compare (digitsValue (units strings s)) (digitsValue (units strings t)) <;> rfl

end Orders

lemma toLower_side (c : Char) : c.toLower.toNat < 0xD800 ↔ c.toNat < 0xD800 := by
  rw [Char.toLower]
  split_ifs with h
  · have hcode : c.val.toNat ≤ 90 := UInt32.le_iff_toNat_le.mp h.2
    have hsum : (c.val + 32).toNat = c.val.toNat + 32 := by
      rw [UInt32.toNat_add]
      exact Nat.mod_eq_of_lt (by change _ + 32 < _; omega)
    change (c.val + 32).toNat < 0xD800 ↔ c.val.toNat < 0xD800
    omega
  · rfl

def asciiCase : Lowercase where
  map c := [c.toLower]
  head c _ := ⟨c.toLower, [], rfl, toLower_side c⟩

def bigNumber (_ : ℕ) : StringHostObject := .utf16 [52, 50, 57, 52, 57, 54, 55, 50, 57, 54]

def someString : StringId := ⟨1, by decide⟩

theorem numbers_overflow : ¬ ∀ lower strings mask S, ComparesStrings lower strings mask S := by
  intro h
  have hfits := (h asciiCase bigNumber numericSearch Set.univ).fits rfl someString trivial
  have hdigits : ∀ u ∈ units bigNumber someString, 48 ≤ u.toNat ∧ u.toNat ≤ 57 := by
    intro u hu
    simp only [units, bigNumber, StringHostObject.iterCodeUnits, List.mem_cons] at hu
    rcases hu with rfl | rfl | rfl | rfl | rfl | rfl | rfl | rfl | rfl | rfl | hu
    all_goals first | decide | cases hu
  have hrun : IsDigitRun (units bigNumber someString) :=
    ⟨by decide, fun u hu => isDigitUnit_iff.mpr (hdigits u hu)⟩
  have htoken : .number 4294967296 ∈ tokens (units bigNumber someString) := by
    rw [tokens_digitRun hrun]
    exact List.mem_singleton.mpr (congrArg Token.number (by decide))
  exact absurd (hfits _ htoken) (by decide)

end TouchHle.Strings
