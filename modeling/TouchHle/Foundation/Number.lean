import TouchHle.Lib.Ieee

namespace TouchHle.Foundation

open Lib FloatFormat FloatValue

inductive NSNumberHostObject
  | bool (x : Bool)
  | unsignedLongLong (x : UInt64)
  | unsignedInt (x : UInt32)
  | int (x : Int32)
  | longLong (x : Int64)
  | float (bits : UInt32)
  | double (bits : UInt64)
  | short (x : Int16)
  | unsignedShort (x : UInt16)
  | char (x : Int8)
  deriving DecidableEq

namespace NSNumberHostObject

def isFloat : NSNumberHostObject → Bool
  | float _ | double _ => true
  | _ => false

def asI128 : NSNumberHostObject → ℤ
  | bool x => x.toNat
  | unsignedLongLong x => x.toNat
  | unsignedInt x => x.toNat
  | int x => x.toInt
  | longLong x => x.toInt
  | float bits => (binary32.decode bits.toNat).toInt (-2 ^ 127) (2 ^ 127 - 1)
  | double bits => (binary64.decode bits.toNat).toInt (-2 ^ 127) (2 ^ 127 - 1)
  | short x => x.toInt
  | unsignedShort x => x.toNat
  | char x => x.toInt

def asDouble : NSNumberHostObject → FloatValue
  | float bits => binary32.decode bits.toNat
  | double bits => binary64.decode bits.toNat
  | num => doubleOfInt num.asI128

def compare (num other : NSNumberHostObject) : Ordering :=
  if !num.isFloat && !other.isFloat then Ord.compare num.asI128 other.asI128
  else
    let d1 := num.asDouble
    let d2 := other.asDouble
    if d1.isNan && d2.isNan then .eq
    else if d1.isNan then if d2.negative then .gt else .lt
    else if d2.isNan then if d1.negative then .lt else .gt
    else if d1.negative && !d2.negative then .lt
    else if d2.negative && !d1.negative then .gt
    else if d1.lt d2 then .lt
    else if d2.lt d1 then .gt
    else Ord.compare num.asI128 other.asI128

def isEqualToNumber (num other : NSNumberHostObject) : Bool := num.compare other == .eq

def bits : NSNumberHostObject → UInt64
  | bool x => if x then 1 else 0
  | unsignedLongLong x => x
  | unsignedInt x => x.toUInt64
  | int x => x.toInt64.toUInt64
  | longLong x => x.toUInt64
  | float bits => bits.toUInt64
  | double bits => bits
  | short x => x.toInt64.toUInt64
  | unsignedShort x => x.toUInt64
  | char x => x.toInt64.toUInt64

def value : NSNumberHostObject → FloatValue
  | float bits => (binary32.decode bits.toNat).number
  | double bits => (binary64.decode bits.toNat).number
  | num => .finite (num.asI128 < 0) (num.asI128.natAbs * floatOne)

variable {a b : NSNumberHostObject} {i j : ℤ} {d d' : FloatValue}

lemma integer_bounds (h : a.isFloat = false) : -2 ^ 63 ≤ a.asI128 ∧ a.asI128 < 2 ^ 64 := by
  cases a with
  | bool x =>
    cases x
    · exact ⟨by decide, by decide⟩
    · exact ⟨by decide, by decide⟩
  | unsignedLongLong x =>
    have hx := x.toNat_lt
    rw [asI128]
    omega
  | unsignedInt x =>
    have hx := x.toNat_lt
    rw [asI128]
    omega
  | int x =>
    have hlow := x.le_toInt
    have hhigh := x.toInt_lt
    rw [asI128]
    omega
  | longLong x =>
    have hlow := x.le_toInt
    have hhigh := x.toInt_lt
    rw [asI128]
    omega
  | float bits => cases h
  | double bits => cases h
  | short x =>
    have hlow := x.le_toInt
    have hhigh := x.toInt_lt
    rw [asI128]
    omega
  | unsignedShort x =>
    have hx := x.toNat_lt
    rw [asI128]
    omega
  | char x =>
    have hlow := x.le_toInt
    have hhigh := x.toInt_lt
    rw [asI128]
    omega

lemma integer_value (h : a.isFloat = false) : a.value = .finite (a.asI128 < 0) (a.asI128.natAbs * floatOne) := by
  cases a with
  | float bits => cases h
  | double bits => cases h
  | _ => rfl

lemma integer_asDouble (h : a.isFloat = false) : a.asDouble = doubleOfInt a.asI128 := by
  cases a with
  | float bits => cases h
  | double bits => cases h
  | _ => rfl

lemma float_value (h : a.isFloat = true) : a.value = a.asDouble.number ∧
    a.asI128 = a.asDouble.toInt (-2 ^ 127) (2 ^ 127 - 1) ∧
    ∀ s m, a.asDouble = .finite s m → ∃ k j, m = k * 2 ^ j ∧ k < 2 ^ 53 := by
  cases a with
  | float bits =>
    refine ⟨rfl, rfl, fun s m h => ?_⟩
    obtain ⟨k, j, hm, hk⟩ := decode_representable h
    exact ⟨k, j, hm, hk.trans (by decide)⟩
  | double bits => exact ⟨rfl, rfl, fun s m h => decode_representable h⟩
  | _ => cases h

lemma finite_iff {s t : Bool} {m n : ℕ} : finite s m = .finite t n ↔ s = t ∧ m = n := by
  rw [finite.injEq]

lemma compare_eq_iff : Ord.compare i j = .eq ↔ i = j := compare_eq_iff_eq

lemma integer_eq_iff : (finite (i < 0) (i.natAbs * floatOne) = .finite (j < 0) (j.natAbs * floatOne)) ↔
    i = j := by
  rw [finite_iff, decide_eq_decide, Nat.mul_left_inj floatOne_pos.ne']
  omega

lemma not_lt_iff (hd : d.isNan = false) (hd' : d'.isNan = false) (hsign : d.negative = d'.negative) :
    (d.lt d' = false ∧ d'.lt d = false) ↔ d = d' := by
  cases d with
  | nan s => cases hd
  | infinite s =>
    cases d' with
    | nan t => cases hd'
    | infinite t =>
      obtain rfl : s = t := hsign
      cases s
      · exact iff_of_true ⟨rfl, rfl⟩ rfl
      · exact iff_of_true ⟨rfl, rfl⟩ rfl
    | finite t n =>
      obtain rfl : s = t := hsign
      cases s
      · exact iff_of_false (by rintro ⟨-, ⟨⟩⟩) (by rintro ⟨⟩)
      · exact iff_of_false (by rintro ⟨⟨⟩, -⟩) (by rintro ⟨⟩)
  | finite s m =>
    cases d' with
    | nan t => cases hd'
    | infinite t =>
      obtain rfl : s = t := hsign
      cases s
      · exact iff_of_false (by rintro ⟨⟨⟩, -⟩) (by rintro ⟨⟩)
      · exact iff_of_false (by rintro ⟨-, ⟨⟩⟩) (by rintro ⟨⟩)
    | finite t n =>
      obtain rfl : s = t := hsign
      rw [lt, lt, decide_eq_false_iff_not, decide_eq_false_iff_not, finite_iff]
      cases s
      · simp only [signed_false, true_and]
        omega
      · simp only [signed_true, true_and]
        omega

lemma float_compare (h : a.isFloat = true ∨ b.isFloat = true) : a.compare b = .eq ↔
    (a.asDouble.isNan = true ∧ b.asDouble.isNan = true) ∨
      a.asDouble.isNan = false ∧ a.asDouble = b.asDouble ∧ a.asI128 = b.asI128 := by
  have hmixed : (!a.isFloat && !b.isFloat) = false := by
    obtain h | h := h
    · rw [h]
      rfl
    · rw [h, Bool.not_true, Bool.and_false]
  rw [compare, hmixed, if_neg (by decide)]
  dsimp only
  cases hd : a.asDouble.isNan with
  | true =>
    cases hd' : b.asDouble.isNan with
    | true => exact iff_of_true rfl (.inl ⟨rfl, rfl⟩)
    | false =>
      refine iff_of_false ?_ (by rintro (⟨-, ⟨⟩⟩ | ⟨⟨⟩, -⟩))
      simp only [Bool.and_false, Bool.false_eq_true, if_false, if_true]
      split_ifs <;> decide
  | false =>
    cases hd' : b.asDouble.isNan with
    | true =>
      refine iff_of_false ?_ ?_
      · simp only [Bool.false_and, Bool.false_eq_true, if_false, if_true]
        split_ifs <;> decide
      · rintro (⟨⟨⟩, -⟩ | ⟨-, heq, -⟩)
        rw [heq, hd'] at hd
        cases hd
    | false =>
      simp only [Bool.false_and, Bool.false_eq_true, if_false, false_and, false_or, true_and]
      by_cases hsign : a.asDouble.negative = b.asDouble.negative
      · have hsame : (a.asDouble.negative && !b.asDouble.negative) = false := by
          rw [hsign, Bool.and_not_self]
        have hsame' : (b.asDouble.negative && !a.asDouble.negative) = false := by
          rw [hsign, Bool.and_not_self]
        rw [hsame, hsame', if_neg (by decide), if_neg (by decide), ← not_lt_iff hd hd' hsign]
        cases a.asDouble.lt b.asDouble with
        | true =>
          rw [if_pos rfl]
          exact iff_of_false (by decide) (by rintro ⟨⟨⟨⟩, -⟩, -⟩)
        | false =>
          cases b.asDouble.lt a.asDouble with
          | true =>
            rw [if_neg (by decide), if_pos rfl]
            exact iff_of_false (by decide) (by rintro ⟨⟨-, ⟨⟩⟩, -⟩)
          | false =>
            simp only [Bool.false_eq_true, if_false, and_self, true_and]
            exact compare_eq_iff
      · refine iff_of_false ?_ fun h => hsign (congrArg negative h.1)
        cases ha : a.asDouble.negative
        · cases hb : b.asDouble.negative
          · exact absurd (ha.trans hb.symm) hsign
          · simp
        · cases hb : b.asDouble.negative
          · simp
          · exact absurd (ha.trans hb.symm) hsign

lemma number_eq_iff : d.number = d'.number ↔
    (d.isNan = true ∧ d'.isNan = true) ∨ d.isNan = false ∧ d = d' := by
  cases d with
  | nan s =>
    cases d' with
    | nan t => exact iff_of_true rfl (.inl ⟨rfl, rfl⟩)
    | infinite t => exact iff_of_false (by rintro ⟨⟩) (by rintro (⟨-, ⟨⟩⟩ | ⟨⟨⟩, -⟩))
    | finite t n => exact iff_of_false (by rintro ⟨⟩) (by rintro (⟨-, ⟨⟩⟩ | ⟨⟨⟩, -⟩))
  | infinite s =>
    cases d' with
    | nan t => exact iff_of_false (by rintro ⟨⟩) (by rintro (⟨⟨⟩, -⟩ | ⟨-, ⟨⟩⟩))
    | infinite t => exact ⟨fun h => .inr ⟨rfl, h⟩, by rintro (⟨⟨⟩, -⟩ | ⟨-, h⟩); exact h⟩
    | finite t n => exact iff_of_false (by rintro ⟨⟩) (by rintro (⟨⟨⟩, -⟩ | ⟨-, ⟨⟩⟩))
  | finite s m =>
    cases d' with
    | nan t => exact iff_of_false (by rintro ⟨⟩) (by rintro (⟨⟨⟩, -⟩ | ⟨-, ⟨⟩⟩))
    | infinite t => exact iff_of_false (by rintro ⟨⟩) (by rintro (⟨⟨⟩, -⟩ | ⟨-, ⟨⟩⟩))
    | finite t n => exact ⟨fun h => .inr ⟨rfl, h⟩, by rintro (⟨⟨⟩, -⟩ | ⟨-, h⟩); exact h⟩

lemma signed_natAbs (i : ℤ) : signed (i < 0) i.natAbs = i := by
  rw [signed]
  split_ifs with h
  · have hneg : i < 0 := of_decide_eq_true h
    omega
  · have hpos : ¬ i < 0 := of_decide_eq_false (Bool.eq_false_iff.mpr h)
    omega

lemma rounded_iff (hi : -2 ^ 63 ≤ i ∧ i < 2 ^ 64)
    (hrep : ∀ s m, d = .finite s m → ∃ k j, m = k * 2 ^ j ∧ k < 2 ^ 53) :
    (d.isNan = false ∧ d = doubleOfInt i ∧ d.toInt (-2 ^ 127) (2 ^ 127 - 1) = i) ↔
      d.number = .finite (i < 0) (i.natAbs * floatOne) := by
  constructor
  · rintro ⟨-, rfl, hint⟩
    rw [doubleOfInt, toInt, Nat.mul_div_cancel _ floatOne_pos] at hint
    have hround : signed (i < 0) (roundEven 53 i.natAbs) = i := by omega
    have habs : roundEven 53 i.natAbs = i.natAbs := by
      rw [signed] at hround
      split_ifs at hround <;> omega
    rw [doubleOfInt, habs]
    rfl
  · intro h
    have hd : d = .finite (i < 0) (i.natAbs * floatOne) := by
      cases d with
      | nan s => cases h
      | infinite s => cases h
      | finite s m => exact h
    subst hd
    obtain ⟨k, j, hm, hk⟩ := hrep _ _ rfl
    refine ⟨rfl, ?_, ?_⟩
    · rw [doubleOfInt, roundEven_scaled (l := floatScale) hm hk]
    · rw [toInt, Nat.mul_div_cancel _ floatOne_pos, signed_natAbs]
      omega

lemma isEqualToNumber_iff : a.isEqualToNumber b = true ↔ a.value = b.value := by
  rw [isEqualToNumber, beq_iff_eq]
  cases ha : a.isFloat with
  | false =>
    cases hb : b.isFloat with
    | false =>
      rw [integer_value ha, integer_value hb, integer_eq_iff, compare, ha, hb]
      exact compare_eq_iff
    | true =>
      obtain ⟨hvalue, hint, hrep⟩ := float_value hb
      rw [float_compare (.inr hb), integer_value ha, hvalue, integer_asDouble ha, eq_comm (b := b.asDouble.number),
        ← rounded_iff (integer_bounds ha) hrep, hint]
      constructor
      · rintro (⟨⟨⟩, -⟩ | ⟨-, heq, hsame⟩)
        exact ⟨by rw [← heq]; rfl, heq.symm, hsame.symm⟩
      · rintro ⟨-, heq, hsame⟩
        exact .inr ⟨rfl, heq.symm, hsame.symm⟩
  | true =>
    obtain ⟨hvalue, hint, hrep⟩ := float_value ha
    cases hb : b.isFloat with
    | false =>
      rw [float_compare (.inl ha), integer_value hb, hvalue, integer_asDouble hb,
        ← rounded_iff (integer_bounds hb) hrep, hint]
      constructor
      · rintro (⟨-, ⟨⟩⟩ | h)
        exact h
      · exact .inr
    | true =>
      obtain ⟨hvalue', hint', -⟩ := float_value hb
      rw [float_compare (.inl ha), hvalue, hvalue', number_eq_iff, hint, hint']
      refine or_congr_right (and_congr_right fun _ => ?_)
      exact ⟨And.left, fun h => ⟨h, by rw [h]⟩⟩

lemma toNat_toUInt64 (x : Int64) (i : ℤ) (h : x.toInt = i) : (x.toUInt64.toNat : ℤ) = i % 2 ^ 64 := by
  have hbits : x.toInt = (x.toUInt64.toNat : ℤ).bmod (2 ^ 64) :=
    BitVec.toInt_eq_toNat_bmod x.toBitVec
  have hlt := x.toUInt64.toNat_lt
  rw [← h, hbits, Int.bmod_def]
  split_ifs <;> omega

lemma integer_bits (h : a.isFloat = false) : (a.bits.toNat : ℤ) = a.asI128 % 2 ^ 64 := by
  cases a with
  | bool x =>
    cases x
    · rfl
    · rfl
  | unsignedLongLong x =>
    have hx := x.toNat_lt
    rw [bits, asI128]
    omega
  | unsignedInt x =>
    have hx := x.toNat_lt
    rw [bits, asI128, UInt32.toNat_toUInt64]
    omega
  | int x => exact toNat_toUInt64 _ _ (Int32.toInt_toInt64 x)
  | longLong x => exact toNat_toUInt64 _ _ rfl
  | float bits => cases h
  | double bits => cases h
  | short x => exact toNat_toUInt64 _ _ (Int16.toInt_toInt64 x)
  | unsignedShort x =>
    have hx := x.toNat_lt
    rw [bits, asI128, UInt16.toNat_toUInt64]
    omega
  | char x => exact toNat_toUInt64 _ _ (Int8.toInt_toInt64 x)

end NSNumberHostObject

end TouchHle.Foundation

namespace TouchHle.Foundation.NSNumberHostObject

open Lib FloatFormat FloatValue

/-- Numbers of which what is hashed is the same if they are equal: those of one kind, unless they are no
numbers and have different bits, and of different kinds only zero without a sign. -/
def Kindred (a b : NSNumberHostObject) : Prop :=
  match a, b with
  | float x, float y => (binary32.decode x.toNat).isNan = false ∨ x = y
  | double x, double y => (binary64.decode x.toNat).isNan = false ∨ x = y
  | a, b => (a.isFloat = false ∧ b.isFloat = false) ∨ a.value = .finite false 0

variable {a b : NSNumberHostObject} {i : ℤ} {x : UInt32} {y : UInt64} {n : ℕ}

lemma binary64_parts (n : ℕ) (h : n < 2 ^ 64) :
    n = (if binary64.sign n then 2 ^ 63 else 0) + binary64.exp n * 2 ^ 52 + binary64.frac n ∧
      binary64.exp n < 2048 ∧ binary64.frac n < 2 ^ 52 := by
  have hsign : binary64.sign n = decide (n / 2 ^ 63 % 2 = 1) := rfl
  have hexp : binary64.exp n = n / 2 ^ 52 % 2 ^ 11 := rfl
  have hfrac : binary64.frac n = n % 2 ^ 52 := rfl
  rw [hsign, hexp, hfrac]
  simp only [decide_eq_true_eq]
  split_ifs <;> omega

lemma binary32_parts (n : ℕ) (h : n < 2 ^ 32) :
    n = (if binary32.sign n then 2 ^ 31 else 0) + binary32.exp n * 2 ^ 23 + binary32.frac n ∧
      binary32.exp n < 256 ∧ binary32.frac n < 2 ^ 23 := by
  have hsign : binary32.sign n = decide (n / 2 ^ 31 % 2 = 1) := rfl
  have hexp : binary32.exp n = n / 2 ^ 23 % 2 ^ 8 := rfl
  have hfrac : binary32.frac n = n % 2 ^ 23 := rfl
  rw [hsign, hexp, hfrac]
  simp only [decide_eq_true_eq]
  split_ifs <;> omega

lemma scaled_cases {q e l : ℕ} (h : n * 2 ^ l = q * 2 ^ (e - 1)) (he : e ≠ 0) :
    (e ≤ l ∧ 2 * n ≤ q) ∨ ∃ d, e = l + 1 + d ∧ n = q * 2 ^ d := by
  by_cases hle : e ≤ l
  · left
    refine ⟨hle, ?_⟩
    have hn : n * 2 ^ (l - (e - 1)) = q := by
      apply Nat.eq_of_mul_eq_mul_right (Nat.two_pow_pos (e - 1))
      rw [mul_assoc, ← pow_add, Nat.sub_add_cancel (by omega), h]
    have htwo : 2 ≤ 2 ^ (l - (e - 1)) := by
      calc
        2 = 2 ^ 1 := rfl
        _ ≤ 2 ^ (l - (e - 1)) := Nat.pow_le_pow_right (by decide) (by omega)
    calc
      2 * n = n * 2 := Nat.mul_comm _ _
      _ ≤ n * 2 ^ (l - (e - 1)) := Nat.mul_le_mul_left n htwo
      _ = q := hn
  · right
    refine ⟨e - 1 - l, by omega, ?_⟩
    apply Nat.eq_of_mul_eq_mul_right (Nat.two_pow_pos l)
    rw [h, mul_assoc, ← pow_add]
    congr 2
    omega

lemma finite_of_number {d : FloatValue} {s : Bool} {m : ℕ} (h : d.number = .finite s m) : d = .finite s m := by
  cases d with
  | nan t => cases h
  | infinite t => cases h
  | finite t n => exact h

lemma parts_of_value {f : FloatFormat} {bits l : ℕ} (hunit : f.unit + l = floatScale)
    (h : (f.decode bits).number = .finite (i < 0) (i.natAbs * floatOne)) :
    f.sign bits = decide (i < 0) ∧ i.natAbs * 2 ^ l = f.significand bits * 2 ^ (f.exp bits - 1) := by
  obtain ⟨hsign, hm, -⟩ := decode_finite (finite_of_number h)
  refine ⟨hsign.symm, ?_⟩
  apply Nat.eq_of_mul_eq_mul_right (Nat.two_pow_pos f.unit)
  rw [← hm, mul_assoc, ← pow_add, add_comm, hunit, floatOne]

lemma natAbs_of_small {f : FloatFormat} {bits l : ℕ} (hl : f.fraction ≤ l)
    (h : i.natAbs * 2 ^ l = f.significand bits * 2 ^ (f.exp bits - 1)) (he : f.exp bits = 0) : i = 0 := by
  rw [significand, if_pos he, he, Nat.zero_sub, pow_zero, mul_one] at h
  have hfrac : f.frac bits < 2 ^ f.fraction := frac_lt
  have hpow : 2 ^ f.fraction ≤ 2 ^ l := Nat.pow_le_pow_right (by decide) hl
  by_contra hne
  have hpos : 1 ≤ i.natAbs := Nat.pos_of_ne_zero fun hzero => hne (Int.natAbs_eq_zero.mp hzero)
  have hle : 2 ^ l ≤ i.natAbs * 2 ^ l := Nat.le_mul_of_pos_left _ hpos
  omega

lemma shift_le {q d k l : ℕ} (hq : 2 ^ k ≤ q) (h : q * 2 ^ d ≤ 2 ^ l) : k + d ≤ l := by
  have hle : 2 ^ (k + d) ≤ 2 ^ l := by
    rw [pow_add]
    exact (Nat.mul_le_mul_right _ hq).trans h
  exact (Nat.pow_le_pow_iff_right (by decide)).mp hle

lemma no_double {m e r d : ℕ} (hr : r < 2 ^ 52) (he : e = 1075 + d) (hd : d ≤ 12) (hm : m = (2 ^ 52 + r) * 2 ^ d) :
    m ≠ e * 2 ^ 52 + r ∧ 2 ^ 64 - m ≠ 2 ^ 63 + e * 2 ^ 52 + r := by
  subst he
  interval_cases d <;> omega

lemma no_float {m e r d : ℕ} (hr : r < 2 ^ 23) (he : e = 150 + d) (hd : d ≤ 9) (hm : m = (2 ^ 23 + r) * 2 ^ d) :
    m ≠ e * 2 ^ 23 + r := by
  subst he
  interval_cases d <;> omega

lemma integer_double (hi : -2 ^ 63 ≤ i ∧ i < 2 ^ 64) (hbits : (y.toNat : ℤ) = i % 2 ^ 64)
    (h : (binary64.decode y.toNat).number = .finite (i < 0) (i.natAbs * floatOne)) : i = 0 := by
  obtain ⟨hsign, hmag⟩ := parts_of_value (l := 1074) rfl h
  by_cases he : binary64.exp y.toNat = 0
  · exact natAbs_of_small (by decide) hmag he
  obtain ⟨hparts, -, hfrac⟩ := binary64_parts y.toNat y.toNat_lt
  have hq : binary64.significand y.toNat = 2 ^ 52 + binary64.frac y.toNat := if_neg he
  have hcases := scaled_cases hmag he
  clear hmag h
  rw [hq] at hcases
  rw [hsign] at hparts
  simp only [decide_eq_true_eq] at hparts
  generalize binary64.exp y.toNat = e at hparts hcases he
  generalize binary64.frac y.toNat = r at hparts hcases hfrac
  exfalso
  obtain ⟨hle, htwo⟩ | ⟨d, hd, hn⟩ := hcases
  · split_ifs at hparts <;> omega
  · have hle : (2 ^ 52 + r) * 2 ^ d ≤ 2 ^ 64 := by
      rw [← hn]
      omega
    have hshift : 52 + d ≤ 64 := shift_le (Nat.le_add_right _ _) hle
    obtain ⟨hpos, hneg⟩ := no_double hfrac hd (by omega) hn
    split_ifs at hparts <;> omega

lemma integer_float (hi : -2 ^ 63 ≤ i ∧ i < 2 ^ 64) (hbits : (x.toNat : ℤ) = i % 2 ^ 64)
    (h : (binary32.decode x.toNat).number = .finite (i < 0) (i.natAbs * floatOne)) : i = 0 := by
  obtain ⟨hsign, hmag⟩ := parts_of_value (l := 149) rfl h
  by_cases he : binary32.exp x.toNat = 0
  · exact natAbs_of_small (by decide) hmag he
  obtain ⟨hparts, -, hfrac⟩ := binary32_parts x.toNat x.toNat_lt
  have hq : binary32.significand x.toNat = 2 ^ 23 + binary32.frac x.toNat := if_neg he
  have hx := x.toNat_lt
  have hcases := scaled_cases hmag he
  clear hmag h
  rw [hq] at hcases
  rw [hsign] at hparts
  simp only [decide_eq_true_eq] at hparts
  generalize binary32.exp x.toNat = e at hparts hcases he
  generalize binary32.frac x.toNat = r at hparts hcases hfrac
  exfalso
  obtain ⟨hle, htwo⟩ | ⟨d, hd, hn⟩ := hcases
  · split_ifs at hparts <;> omega
  · have hpos : 0 ≤ i := by omega
    have hle : (2 ^ 23 + r) * 2 ^ d ≤ 2 ^ 32 := by
      rw [← hn]
      omega
    have hshift : 23 + d ≤ 32 := shift_le (Nat.le_add_right _ _) hle
    have hno := no_float hfrac hd (by omega) hn
    split_ifs at hparts <;> omega

lemma float_double (hbits : x.toNat = y.toNat)
    (h : (binary32.decode x.toNat).number = (binary64.decode y.toNat).number) :
    (binary64.decode y.toNat).number = .finite false 0 := by
  obtain ⟨hparts, hexp, hfrac⟩ := binary64_parts y.toNat y.toNat_lt
  have hx := x.toNat_lt
  have hsign : binary64.sign y.toNat = false := by
    cases hs : binary64.sign y.toNat with
    | false => rfl
    | true =>
      rw [hs, if_pos rfl] at hparts
      omega
  have he : binary64.exp y.toNat = 0 := by omega
  have hdecode : binary64.decode y.toNat = .finite false (binary64.frac y.toNat) := by
    have hne : binary64.exp y.toNat ≠ 2 ^ binary64.exponent - 1 := by
      rw [he]
      decide
    have hunit : 2 ^ (0 - 1) * 2 ^ binary64.unit = 1 := rfl
    rw [decode, if_neg hne, hsign, significand, if_pos he, he, mul_assoc, hunit,
      mul_one]
  rw [hdecode] at h ⊢
  obtain ⟨hs, hm, -⟩ := decode_finite (finite_of_number h)
  have hzero : binary64.frac y.toNat = 0 := by
    by_contra hne
    have hfactor : 2 ^ binary32.unit ≤ binary64.frac y.toNat := by
      refine Nat.le_of_dvd (Nat.pos_of_ne_zero hne) ?_
      rw [hm]
      exact Nat.dvd_mul_left _ _
    have hlarge : 2 ^ 52 ≤ 2 ^ binary32.unit := Nat.pow_le_pow_right (by decide) (by decide)
    omega
  rw [hzero]
  rfl

lemma decode_zero (f : FloatFormat) (h : 2 ^ f.exponent - 1 ≠ 0) : f.decode 0 = .finite false 0 := by
  have hexp : f.exp 0 = 0 := by rw [exp, Nat.zero_div, Nat.zero_mod]
  have hsign : f.sign 0 = false := by rw [sign, Nat.zero_div, Nat.zero_mod]; rfl
  have hsignificand : f.significand 0 = 0 := by
    rw [significand, if_pos hexp, frac, Nat.zero_mod]
  rw [decode, hexp, if_neg h.symm, hsign, hsignificand, zero_mul, zero_mul]

lemma bits_of_zero (h : a.value = .finite false 0) : a.bits = 0 := by
  apply UInt64.toNat_inj.mp
  cases ha : a.isFloat with
  | false =>
    have hzero : a.asI128 = 0 := by
      have hvalue : finite (a.asI128 < 0) (a.asI128.natAbs * floatOne) =
          .finite ((0 : ℤ) < 0) ((0 : ℤ).natAbs * floatOne) := by
        rw [← integer_value ha, h, Int.natAbs_zero, zero_mul]
        rfl
      exact integer_eq_iff.mp hvalue
    have hbits := integer_bits ha
    rw [hzero, Int.zero_emod] at hbits
    exact Int.natCast_eq_zero.mp hbits
  | true =>
    cases a with
    | float x =>
      have hdecode : binary32.decode x.toNat = binary32.decode 0 := by
        rw [finite_of_number h, decode_zero _ (by decide)]
      have hx : x.toNat = 0 := by
        refine decode_injective (f := binary32) x.toNat_lt (by decide) ?_ hdecode
        rw [hdecode, decode_zero _ (by decide)]
        rfl
      rw [bits, UInt32.toNat_toUInt64, hx]
      rfl
    | double y =>
      have hdecode : binary64.decode y.toNat = binary64.decode 0 := by
        rw [finite_of_number h, decode_zero _ (by decide)]
      refine decode_injective (f := binary64) y.toNat_lt (by decide) ?_ hdecode
      change (binary64.decode y.toNat).isNan = false
      rw [hdecode, decode_zero _ (by decide)]
      rfl
    | _ => cases ha

lemma value_of_zero (ha : a.isFloat = false) (h : a.asI128 = 0) : a.value = .finite false 0 := by
  rw [integer_value ha, h, Int.natAbs_zero, zero_mul]
  rfl

lemma kindred_left (ha : a.isFloat = false) :
    Kindred a b ↔ (a.isFloat = false ∧ b.isFloat = false) ∨ a.value = .finite false 0 := by
  cases a with
  | float x => cases ha
  | double x => cases ha
  | _ => exact Iff.rfl

lemma kindred_right (hb : b.isFloat = false) :
    Kindred a b ↔ (a.isFloat = false ∧ b.isFloat = false) ∨ a.value = .finite false 0 := by
  cases ha : a.isFloat with
  | false => rw [kindred_left ha, ha]
  | true =>
    cases b with
    | float x => cases hb
    | double x => cases hb
    | _ =>
      cases a with
      | float x => exact Iff.rfl
      | double x => exact Iff.rfl
      | _ => cases ha

lemma bits_of_mixed (ha : a.isFloat = false) (hb : b.isFloat = true) (h : a.value = b.value)
    (hbits : a.bits = b.bits) : a.value = .finite false 0 := by
  refine value_of_zero ha ?_
  have hnat := integer_bits ha
  rw [hbits] at hnat
  rw [integer_value ha] at h
  cases b with
  | float x =>
    rw [bits, UInt32.toNat_toUInt64] at hnat
    exact integer_float (integer_bounds ha) hnat h.symm
  | double y => exact integer_double (integer_bounds ha) hnat h.symm
  | _ => cases hb

theorem bits_eq_iff (h : a.value = b.value) : a.bits = b.bits ↔ Kindred a b := by
  have hzero : a.value = .finite false 0 → a.bits = b.bits := fun hv => by
    rw [bits_of_zero hv, bits_of_zero (h ▸ hv)]
  cases ha : a.isFloat with
  | false =>
    rw [kindred_left ha]
    cases hb : b.isFloat with
    | false =>
      refine iff_of_true ?_ (.inl ⟨ha, rfl⟩)
      rw [integer_value ha, integer_value hb, integer_eq_iff] at h
      have hbits := (integer_bits ha).trans ((congrArg (· % 2 ^ 64) h).trans (integer_bits hb).symm)
      exact UInt64.toNat_inj.mp (Int.natCast_inj.mp hbits)
    | true =>
      constructor
      · exact fun hbits => .inr (bits_of_mixed ha hb h hbits)
      · rintro (⟨-, ⟨⟩⟩ | hv)
        exact hzero hv
  | true =>
    cases hb : b.isFloat with
    | false =>
      rw [kindred_right hb]
      constructor
      · exact fun hbits => .inr (h.trans (bits_of_mixed hb ha h.symm hbits.symm))
      · rintro (⟨hfalse, -⟩ | hv)
        · rw [ha] at hfalse
          cases hfalse
        · exact hzero hv
    | true =>
      cases a with
      | float x =>
        cases b with
        | float y =>
          change x.toUInt64 = y.toUInt64 ↔ _ ∨ x = y
          rw [UInt32.toUInt64_inj]
          refine ⟨.inr, ?_⟩
          rintro (hnan | rfl)
          · obtain ⟨hother, -⟩ | ⟨-, heq⟩ := number_eq_iff.mp h
            · rw [hnan] at hother
              cases hother
            · exact UInt32.toNat_inj.mp (decode_injective (f := binary32) x.toNat_lt y.toNat_lt hnan heq)
          · rfl
        | double y =>
          constructor
          · intro hbits
            have hnat := congrArg UInt64.toNat hbits
            rw [bits, bits, UInt32.toNat_toUInt64] at hnat
            exact .inr (h.trans (float_double hnat h))
          · rintro (⟨⟨⟩, -⟩ | hv)
            exact hzero hv
        | _ => cases hb
      | double x =>
        cases b with
        | float y =>
          constructor
          · intro hbits
            have hnat := congrArg UInt64.toNat hbits
            rw [bits, bits, UInt32.toNat_toUInt64] at hnat
            exact .inr (float_double hnat.symm h.symm)
          · rintro (⟨⟨⟩, -⟩ | hv)
            exact hzero hv
        | double y =>
          change x = y ↔ _ ∨ x = y
          refine ⟨.inr, ?_⟩
          rintro (hnan | rfl)
          · obtain ⟨hother, -⟩ | ⟨-, heq⟩ := number_eq_iff.mp h
            · rw [hnan] at hother
              cases hother
            · exact UInt64.toNat_inj.mp (decode_injective (f := binary64) x.toNat_lt y.toNat_lt hnan heq)
          · rfl
        | _ => cases hb
      | _ => cases ha

end TouchHle.Foundation.NSNumberHostObject
