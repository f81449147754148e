import Mathlib

/-! Fallible computation with checked machine arithmetic. -/

namespace TouchHle.Lib

/-- Why a computation stops: a failed assertion, an unwrapped absent value, an
arithmetic result outside its type, or an index out of range. -/
inductive Fault
  | assertion
  | unwrap
  | overflow
  | index
  deriving DecidableEq, Repr

abbrev Checked := Except Fault

section

variable {ε α β : Type}

@[simp] lemma ok_bind (a : α) (f : α → Except ε β) : (.ok a >>= f) = f a := by
  simp only [bind, Except.bind]

@[simp] lemma error_bind (e : ε) (f : α → Except ε β) : (.error e >>= f) = .error e := by
  simp only [bind, Except.bind]

@[simp] lemma pure_eq_ok (a : α) : (pure a : Except ε α) = .ok a := by
  simp only [pure, Except.pure]

lemma bind_eq_ok {x : Except ε α} {f : α → Except ε β} {b : β} :
    (x >>= f) = .ok b ↔ ∃ a, x = .ok a ∧ f a = .ok b := by
  cases x with
  | error e => simp
  | ok a => simp

lemma map_eq_ok {x : Except ε α} {f : α → β} {b : β} :
    f <$> x = .ok b ↔ ∃ a, x = .ok a ∧ f a = b := by
  cases x with
  | error e => simp [Functor.map, Except.map]
  | ok a => simp [Functor.map, Except.map]

lemma ok_pair_inj {a a' : α} {b b' : β} (h : (.ok (a, b) : Except ε (α × β)) = .ok (a', b')) :
    a = a' ∧ b = b' :=
  Prod.mk.inj (Except.ok.inj h)

lemma foldlM_preserves {I : β → Prop} {f : β → α → Except ε β}
    (hf : ∀ b a b', I b → f b a = .ok b' → I b') {l : List α} {b b' : β} (hb : I b)
    (h : l.foldlM f b = .ok b') : I b' := by
  induction l generalizing b with
  | nil =>
    obtain rfl : b = b' := by simpa using h
    exact hb
  | cons a l ih =>
    rw [List.foldlM_cons] at h
    obtain ⟨c, hc, h⟩ := bind_eq_ok.mp h
    exact ih (hf b a c hb hc) h

end

def fault {α : Type} : Checked α → Option Fault
  | .ok _ => none
  | .error f => some f

lemma fault_eq_some {α : Type} {x : Checked α} {f : Fault} : fault x = some f ↔ x = .error f := by
  cases x <;> simp [fault]

def assert (p : Prop) [Decidable p] : Checked Unit :=
  if p then .ok () else .error .assertion

def unwrap {α : Type} : Option α → Checked α
  | some a => .ok a
  | none => .error .unwrap

@[simp] lemma assert_of {p : Prop} [Decidable p] (h : p) : assert p = .ok () := if_pos h

@[simp] lemma unwrap_some {α : Type} (a : α) : unwrap (some a) = .ok a := rfl

lemma assert_eq_ok {p : Prop} [Decidable p] {u : Unit} : assert p = .ok u ↔ p := by
  unfold assert
  split <;> simp_all

lemma unwrap_eq_ok {α : Type} {o : Option α} {a : α} : unwrap o = .ok a ↔ o = some a := by
  cases o <;> simp [unwrap]

def succeedsWith {α : Type} (p : α → Bool) : Checked α → Bool
  | .ok a => p a
  | .error _ => false

lemma exists_of_succeedsWith {α : Type} {p : α → Bool} {x : Checked α}
    (h : succeedsWith p x = true) : ∃ a, x = .ok a ∧ p a = true := by
  cases x with
  | ok a => exact ⟨a, rfl, h⟩
  | error f => cases h

def u32Bound : ℕ := 2 ^ 32

def addU32 (x y : ℕ) : Checked ℕ :=
  if x + y < u32Bound then .ok (x + y) else .error .overflow

def subU32 (x y : ℕ) : Checked ℕ :=
  if y ≤ x then .ok (x - y) else .error .overflow

@[simp] lemma addU32_of_lt {x y : ℕ} (h : x + y < u32Bound) : addU32 x y = .ok (x + y) := if_pos h

@[simp] lemma subU32_of_le {x y : ℕ} (h : y ≤ x) : subU32 x y = .ok (x - y) := if_pos h

lemma addU32_eq_ok {x y z : ℕ} : addU32 x y = .ok z ↔ x + y < u32Bound ∧ z = x + y := by
  unfold addU32
  split <;> simp_all [eq_comm]

end TouchHle.Lib
