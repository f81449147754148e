import Mathlib

/-! Numbers as bytes, lowest byte first, and sequences of bytes cut into chunks of one length. -/

namespace TouchHle.Lib

open List

def leBytes : ℕ → ℕ → List UInt8
  | 0, _ => []
  | k + 1, n => UInt8.ofNat (n % 256) :: leBytes k (n / 256)

def fromLeBytes : List UInt8 → ℕ
  | [] => 0
  | b :: bs => b.toNat + 256 * fromLeBytes bs

def beBytes (k n : ℕ) : List UInt8 := (leBytes k n).reverse

def fromBeBytes (bs : List UInt8) : ℕ := fromLeBytes bs.reverse

def chunksExact {α : Type} (k : ℕ) (l : List α) : List (List α) := go l.length l
where
  go : ℕ → List α → List (List α)
    | 0, _ => []
    | rounds + 1, l => if k ≤ l.length then l.take k :: go rounds (l.drop k) else []

variable {α β : Type} {k n : ℕ}

@[simp] lemma length_leBytes : (leBytes k n).length = k := by
  induction k generalizing n with
  | zero => rfl
  | succ k ih => rw [leBytes, length_cons, ih]

@[simp] lemma length_beBytes : (beBytes k n).length = k := by rw [beBytes, length_reverse, length_leBytes]

lemma fromLeBytes_leBytes (h : n < 256 ^ k) : fromLeBytes (leBytes k n) = n := by
  induction k generalizing n with
  | zero =>
    rw [pow_zero] at h
    change 0 = n
    omega
  | succ k ih =>
    have hlow : (UInt8.ofNat (n % 256)).toNat = n % 256 := by
      rw [UInt8.toNat_ofNat']
      omega
    have hhigh : n / 256 < 256 ^ k := Nat.div_lt_of_lt_mul (by rw [pow_succ] at h; omega)
    rw [leBytes, fromLeBytes, hlow, ih hhigh]
    omega

lemma fromBeBytes_beBytes (h : n < 256 ^ k) : fromBeBytes (beBytes k n) = n := by
  rw [fromBeBytes, beBytes, reverse_reverse, fromLeBytes_leBytes h]

lemma chunksExact_flatMap {f : α → List β} (hk : 0 < k) (hf : ∀ a, (f a).length = k) (l : List α) :
    chunksExact k (l.flatMap f) = l.map f := by
  have hgo : ∀ rounds, (l.flatMap f).length ≤ rounds → chunksExact.go k rounds (l.flatMap f) = l.map f := by
    induction l with
    | nil =>
      intro rounds _
      cases rounds with
      | zero => rfl
      | succ rounds => exact if_neg (by simpa using hk.ne')
    | cons a l ih =>
      intro rounds hrounds
      rw [flatMap_cons, length_append, hf] at hrounds
      obtain ⟨rounds, rfl⟩ := Nat.exists_eq_add_one.mpr (hk.trans_le ((Nat.le_add_right _ _).trans hrounds))
      have hcut := hf a
      rw [flatMap_cons, chunksExact.go, if_pos (by rw [length_append, hf]; omega), ← hcut,
        take_left, drop_left, hcut, ih rounds (by omega), map_cons]
  exact hgo _ le_rfl

abbrev Bytes := ℕ → UInt8

namespace Bytes

def fill (f : Bytes) (start len : ℕ) (v : UInt8) : Bytes :=
  fun i => if start ≤ i ∧ i < start + len then v else f i

def copyWithin (f : Bytes) (src len dest : ℕ) : Bytes :=
  fun i => if dest ≤ i ∧ i < dest + len then f (src + (i - dest)) else f i

def store (f : Bytes) (start : ℕ) (data : List UInt8) : Bytes :=
  fun i => if start ≤ i then data.getD (i - start) (f i) else f i

variable {f : Bytes} {start len src dest i : ℕ} {v : UInt8} {data : List UInt8}

lemma fill_inside (h : start ≤ i) (h' : i < start + len) : f.fill start len v i = v :=
  if_pos ⟨h, h'⟩

lemma fill_outside (h : i < start ∨ start + len ≤ i) : f.fill start len v i = f i :=
  if_neg (by omega)

lemma copyWithin_inside (h : i < len) : f.copyWithin src len dest (dest + i) = f (src + i) := by
  rw [copyWithin, if_pos (by omega), Nat.add_sub_cancel_left]

lemma copyWithin_outside (h : i < dest ∨ dest + len ≤ i) : f.copyWithin src len dest i = f i :=
  if_neg (by omega)

lemma store_inside : f.store start data (start + i) = data.getD i (f (start + i)) := by
  rw [store, if_pos (Nat.le_add_right _ _), Nat.add_sub_cancel_left]

def load (f : Bytes) (start len : ℕ) : List UInt8 := (List.range len).map fun i => f (start + i)

variable {f g : Bytes} {start len a : ℕ} {data : List UInt8}

@[simp] lemma length_load : (f.load start len).length = len := by simp [load]

lemma load_store : (f.store start data).load start data.length = data := by
  apply ext_getElem
  · exact length_load
  · intro i _ hi
    simp only [load, getElem_map, getElem_range, store_inside]
    rw [getD_eq_getElem?_getD, getElem?_eq_getElem hi, Option.getD_some]

lemma store_outside (h : a < start ∨ start + data.length ≤ a) : f.store start data a = f a := by
  unfold store
  split
  next hle =>
    rw [getD_eq_getElem?_getD, getElem?_eq_none (by omega), Option.getD_none]
  next => rfl

lemma load_store_of_apart (h : a + len ≤ start ∨ start + data.length ≤ a) :
    (f.store start data).load a len = f.load a len := by
  apply map_congr_left
  intro i hi
  have hlt : i < len := List.mem_range.mp hi
  exact store_outside (by omega)

lemma load_copyWithin {src dest count : ℕ} (h : dest ≤ a) (h' : a + len ≤ dest + count) :
    (f.copyWithin src count dest).load a len = f.load (src + (a - dest)) len := by
  apply map_congr_left
  intro i hi
  have hlt : i < len := List.mem_range.mp hi
  have hsplit : a + i = dest + (a - dest + i) := by omega
  rw [hsplit, copyWithin_inside (by omega), add_assoc]

end Bytes

variable {j k m n : ℕ}

lemma leBytes_congr (h : m % 256 ^ k = n % 256 ^ k) : leBytes k m = leBytes k n := by
  induction k generalizing m n with
  | zero => rfl
  | succ k ih =>
    have hlow : m % 256 = n % 256 := by
      have hmod := congrArg (· % 256) h
      simpa only [Nat.mod_mod_of_dvd _ (dvd_pow_self 256 (Nat.succ_ne_zero k))] using hmod
    have hhigh : m / 256 % 256 ^ k = n / 256 % 256 ^ k := by
      rw [pow_succ'] at h
      rw [← Nat.mod_mul_right_div_self, ← Nat.mod_mul_right_div_self, h]
    rw [leBytes, leBytes, hlow, ih hhigh]

lemma leBytes_add : leBytes (j + k) n = leBytes j n ++ leBytes k (n / 256 ^ j) := by
  induction j generalizing n with
  | zero => simp [leBytes]
  | succ j ih =>
    rw [add_right_comm, leBytes, leBytes, ih, cons_append, Nat.div_div_eq_div_mul, pow_succ']

end TouchHle.Lib
