import Mathlib

/-! Binary floating point numbers: the values that bits stand for, and integers rounded to the nearest. -/

namespace TouchHle.Lib

inductive FloatValue
  | nan (negative : Bool)
  | infinite (negative : Bool)
  | finite (negative : Bool) (magnitude : ℕ)
  deriving DecidableEq

/-- The bits of the fraction and of the exponent, and how many of the smallest value the smallest of the
format is, as a power of two. -/
structure FloatFormat where
  fraction : ℕ
  exponent : ℕ
  unit : ℕ

def binary64 : FloatFormat := ⟨52, 11, 0⟩

def binary32 : FloatFormat := ⟨23, 8, 925⟩

def floatScale : ℕ := 1074

def floatOne : ℕ := 2 ^ floatScale

namespace FloatFormat

variable (f : FloatFormat)

def sign (bits : ℕ) : Bool := bits / 2 ^ (f.fraction + f.exponent) % 2 = 1

def exp (bits : ℕ) : ℕ := bits / 2 ^ f.fraction % 2 ^ f.exponent

def frac (bits : ℕ) : ℕ := bits % 2 ^ f.fraction

def significand (bits : ℕ) : ℕ := if f.exp bits = 0 then f.frac bits else 2 ^ f.fraction + f.frac bits

def decode (bits : ℕ) : FloatValue :=
  if f.exp bits = 2 ^ f.exponent - 1 then
    if f.frac bits = 0 then .infinite (f.sign bits) else .nan (f.sign bits)
  else .finite (f.sign bits) (f.significand bits * 2 ^ (f.exp bits - 1) * 2 ^ f.unit)

end FloatFormat

def roundEven (precision n : ℕ) : ℕ :=
  if n < 2 ^ precision then n
  else
    let step := 2 ^ (Nat.log2 n + 1 - precision)
    let low := n / step
    if 2 * (n % step) < step ∨ 2 * (n % step) = step ∧ low % 2 = 0 then low * step else (low + 1) * step

def doubleOfInt (i : ℤ) : FloatValue := .finite (i < 0) (roundEven 53 i.natAbs * floatOne)

namespace FloatValue

def isNan : FloatValue → Bool
  | .nan _ => true
  | _ => false

def negative : FloatValue → Bool
  | .nan s | .infinite s | .finite s _ => s

def signed (negative : Bool) (magnitude : ℕ) : ℤ := if negative then -magnitude else magnitude

def lt : FloatValue → FloatValue → Bool
  | .infinite s, .infinite t => s && !t
  | .infinite s, .finite _ _ => s
  | .finite _ _, .infinite t => !t
  | .finite s m, .finite t n => signed s m < signed t n
  | _, _ => false

def toInt (low high : ℤ) : FloatValue → ℤ
  | .nan _ => 0
  | .infinite s => if s then low else high
  | .finite s m => max low (min high (signed s (m / floatOne)))

def number : FloatValue → FloatValue
  | .nan _ => .nan false
  | d => d

end FloatValue

@[simp] lemma FloatValue.signed_false (m : ℕ) : signed false m = m := rfl

@[simp] lemma FloatValue.signed_true (m : ℕ) : signed true m = -m := rfl

variable {f : FloatFormat} {b c n k j : ℕ} {s t : Bool} {m : ℕ} {i : ℤ}

lemma floatOne_pos : 0 < floatOne := Nat.two_pow_pos floatScale

lemma roundEven_exact {precision : ℕ} (h : n = k * 2 ^ j) (hk : k < 2 ^ precision) : roundEven precision n = n := by
  unfold roundEven
  by_cases hsmall : n < 2 ^ precision
  · exact if_pos hsmall
  · have hn : n ≠ 0 := by
      rintro rfl
      exact hsmall (Nat.two_pow_pos _)
    have hlog : 2 ^ Nat.log2 n ≤ n := Nat.log2_self_le hn
    have hj : Nat.log2 n + 1 - precision ≤ j := by
      have hlt : 2 ^ Nat.log2 n < 2 ^ (precision + j) := by
        rw [pow_add]
        exact hlog.trans_lt (h ▸ Nat.mul_lt_mul_of_pos_right hk (Nat.two_pow_pos j))
      have hexp := (Nat.pow_lt_pow_iff_right (by decide)).mp hlt
      omega
    have hdvd : 2 ^ (Nat.log2 n + 1 - precision) ∣ n := h ▸ (Nat.pow_dvd_pow 2 hj).mul_left k
    have hrest : 2 * (n % 2 ^ (Nat.log2 n + 1 - precision)) < 2 ^ (Nat.log2 n + 1 - precision) := by
      rw [Nat.mod_eq_zero_of_dvd hdvd]
      exact Nat.two_pow_pos _
    dsimp only
    rw [if_neg hsmall, if_pos (.inl hrest)]
    exact Nat.div_mul_cancel hdvd

lemma roundEven_scaled {precision l : ℕ} (h : n * 2 ^ l = k * 2 ^ j) (hk : k < 2 ^ precision) :
    roundEven precision n = n := by
  obtain hle | hlt := le_total l j
  · refine roundEven_exact (k := k) (j := j - l) ?_ hk
    apply Nat.eq_of_mul_eq_mul_right (Nat.two_pow_pos l)
    rw [h, mul_assoc, ← pow_add, Nat.sub_add_cancel hle]
  · have hn : n * 2 ^ (l - j) = k := by
      apply Nat.eq_of_mul_eq_mul_right (Nat.two_pow_pos j)
      rw [mul_assoc, ← pow_add, Nat.sub_add_cancel hlt, h]
    rw [roundEven, if_pos]
    exact (Nat.le_mul_of_pos_right n (Nat.two_pow_pos _)).trans_lt (hn ▸ hk)

namespace FloatFormat

lemma frac_lt : f.frac b < 2 ^ f.fraction := Nat.mod_lt _ (Nat.two_pow_pos _)

lemma significand_lt : f.significand b < 2 ^ (f.fraction + 1) := by
  have hfrac : f.frac b < 2 ^ f.fraction := frac_lt
  rw [significand, pow_succ]
  split_ifs <;> omega

lemma decode_finite (h : f.decode b = .finite s m) :
    s = f.sign b ∧ m = f.significand b * 2 ^ (f.exp b - 1) * 2 ^ f.unit ∧ f.exp b ≠ 2 ^ f.exponent - 1 := by
  rw [decode] at h
  split_ifs at h with hexp
  obtain ⟨rfl, rfl⟩ := FloatValue.finite.inj h
  exact ⟨rfl, rfl, hexp⟩

lemma decode_representable (h : f.decode b = .finite s m) : ∃ k j, m = k * 2 ^ j ∧ k < 2 ^ (f.fraction + 1) := by
  obtain ⟨-, hm, -⟩ := decode_finite h
  refine ⟨f.significand b, f.exp b - 1 + f.unit, ?_, significand_lt⟩
  rw [hm, mul_assoc, pow_add]

lemma bits_eq (hb : b < 2 ^ (f.fraction + f.exponent + 1)) (hc : c < 2 ^ (f.fraction + f.exponent + 1))
    (hsign : f.sign b = f.sign c) (hexp : f.exp b = f.exp c) (hfrac : f.frac b = f.frac c) : b = c := by
  have hdiv : ∀ b, b / 2 ^ (f.fraction + f.exponent) = b / 2 ^ f.fraction / 2 ^ f.exponent := by
    intro b
    rw [Nat.div_div_eq_div_mul, ← pow_add]
  have htop : ∀ b, b < 2 ^ (f.fraction + f.exponent + 1) → b / 2 ^ (f.fraction + f.exponent) < 2 := by
    intro b hb
    rw [pow_succ] at hb
    exact Nat.div_lt_of_lt_mul hb
  have hsign' : b / 2 ^ (f.fraction + f.exponent) = c / 2 ^ (f.fraction + f.exponent) := by
    have hb' := htop b hb
    have hc' := htop c hc
    have hiff := decide_eq_decide.mp hsign
    generalize b / 2 ^ (f.fraction + f.exponent) = x at hb' hiff ⊢
    generalize c / 2 ^ (f.fraction + f.exponent) = y at hc' hiff ⊢
    omega
  have hupper : b / 2 ^ f.fraction = c / 2 ^ f.fraction := by
    rw [hdiv, hdiv] at hsign'
    rw [← Nat.div_add_mod (b / 2 ^ f.fraction) (2 ^ f.exponent),
      ← Nat.div_add_mod (c / 2 ^ f.fraction) (2 ^ f.exponent), hsign']
    exact congrArg _ hexp
  rw [← Nat.div_add_mod b (2 ^ f.fraction), ← Nat.div_add_mod c (2 ^ f.fraction), hupper]
  exact congrArg _ hfrac

lemma magnitude_lt (h : f.exp b < f.exp c) :
    f.significand b * 2 ^ (f.exp b - 1) < f.significand c * 2 ^ (f.exp c - 1) := by
  have hc : 2 ^ f.fraction ≤ f.significand c := by
    rw [significand, if_neg (by omega)]
    exact Nat.le_add_right _ _
  have hfrac : f.frac b < 2 ^ f.fraction := frac_lt
  by_cases hb : f.exp b = 0
  · have hpos : 1 ≤ 2 ^ (f.exp c - 1) := Nat.two_pow_pos _
    rw [significand, if_pos hb, hb]
    calc
      f.frac b * 2 ^ (0 - 1) = f.frac b := mul_one _
      _ < 2 ^ f.fraction := hfrac
      _ ≤ f.significand c := hc
      _ ≤ f.significand c * 2 ^ (f.exp c - 1) := Nat.le_mul_of_pos_right _ hpos
  · calc
      f.significand b * 2 ^ (f.exp b - 1) < 2 ^ (f.fraction + 1) * 2 ^ (f.exp b - 1) :=
        Nat.mul_lt_mul_of_pos_right significand_lt (Nat.two_pow_pos _)
      _ = 2 ^ f.fraction * 2 ^ f.exp b := by
        rw [← pow_add, ← pow_add]
        congr 1
        omega
      _ ≤ f.significand c * 2 ^ (f.exp c - 1) :=
        Nat.mul_le_mul hc (Nat.pow_le_pow_right (by decide) (by omega))

lemma decode_injective (hb : b < 2 ^ (f.fraction + f.exponent + 1)) (hc : c < 2 ^ (f.fraction + f.exponent + 1))
    (hnan : (f.decode b).isNan = false) (h : f.decode b = f.decode c) : b = c := by
  have hother := h
  rw [decode, decode] at h
  split_ifs at h with h1 h2 h3 h4 h5 h6 h7
  · exact bits_eq hb hc (FloatValue.infinite.inj h) (h1.trans h3.symm) (h2.trans h4.symm)
  · rw [decode, if_pos h1, if_neg h2] at hnan
    cases hnan
  · obtain ⟨hsign, hmagnitude⟩ := FloatValue.finite.inj h
    have hsame := Nat.eq_of_mul_eq_mul_right (Nat.two_pow_pos f.unit) hmagnitude
    have hexp : f.exp b = f.exp c := by
      obtain hlt | heq | hlt := Nat.lt_trichotomy (f.exp b) (f.exp c)
      · exact absurd hsame (magnitude_lt hlt).ne
      · exact heq
      · exact absurd hsame.symm (magnitude_lt hlt).ne
    have hsignificand := Nat.eq_of_mul_eq_mul_right (Nat.two_pow_pos _) (hexp ▸ hsame)
    have hfrac : f.frac b = f.frac c := by
      rw [significand, significand, hexp] at hsignificand
      split_ifs at hsignificand
      · exact hsignificand
      · exact Nat.add_left_cancel hsignificand
    exact bits_eq hb hc hsign hexp hfrac

end FloatFormat

end TouchHle.Lib
