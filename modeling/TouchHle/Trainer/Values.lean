import TouchHle.Lib.Bytes
import TouchHle.Lib.Checked

/-! The values that the trainer searches for and sets, and how they are read from guest memory. -/

namespace TouchHle.Trainer

open Lib List

inductive VType
  /-- All types in turn. -/
  | auto
  | u8
  | i8
  | u16
  | i16
  | u32
  | i32
  | f32
  deriving DecidableEq

structure Mem where
  bytes : Bytes
  nullSegmentSize : ℕ
  liveAllocations : List (ℕ × ℕ)

def isWhitespace (c : Char) : Bool :=
  (9 ≤ c.toNat && c.toNat ≤ 13) || (0x2000 ≤ c.toNat && c.toNat ≤ 0x200A) ||
    [0x20, 0x85, 0xA0, 0x1680, 0x2028, 0x2029, 0x202F, 0x205F, 0x3000].contains c.toNat

def trim (text : List Char) : List Char :=
  ((text.dropWhile isWhitespace).reverse.dropWhile isWhitespace).reverse

def toDigit (radix : ℕ) (c : Char) : Option ℕ :=
  let d :=
    if '0' ≤ c ∧ c ≤ '9' then c.toNat - 48
    else if 'a' ≤ c ∧ c ≤ 'z' then c.toNat - 87
    else if 'A' ≤ c ∧ c ≤ 'Z' then c.toNat - 55
    else radix
  if d < radix then some d else none

def fromDigits (radix : ℕ) (text : List Char) : Option ℕ :=
  text.foldlM (fun value c => (toDigit radix c).map (value * radix + ·)) 0

def fromStrRadix (low high : ℤ) (radix : ℕ) (text : List Char) : Option ℤ :=
  let value : Option ℤ :=
    match text with
    | [] => none
    | ['+'] | ['-'] => none
    | '+' :: digits => (fromDigits radix digits).map (↑)
    | '-' :: digits => if low < 0 then (fromDigits radix digits).map fun n => -(n : ℤ) else none
    | digits => (fromDigits radix digits).map (↑)
  value.filter fun i => low ≤ i ∧ i ≤ high

namespace VType

def size : VType → ℕ
  | auto => 4
  | u8 | i8 => 1
  | u16 | i16 => 2
  | u32 | i32 | f32 => 4

def maskBits (t : VType) (value : ℕ) : ℕ := value % 256 ^ t.size

def autoTypes : List VType := [i32, u32, i16, u16, i8, u8, f32]

abbrev ReadF32 := List Char → Option UInt32

def isFiniteF32 (bits : UInt32) : Bool := bits.toNat / 2 ^ 23 % 2 ^ 8 ≠ 255

def ofInt (i : ℤ) : ℕ := (i % 2 ^ 64).toNat

def parseConcrete (read : ReadF32) (t : VType) (text : List Char) : Option ℕ :=
  let text := trim text
  match text with
  | '0' :: 'x' :: hex | '0' :: 'X' :: hex => do
    let bits ← fromStrRadix 0 (2 ^ 64 - 1) 16 hex
    if bits.toNat = t.maskBits bits.toNat then some bits.toNat else none
  | _ =>
    let bits : Option ℕ :=
      match t with
      | auto => none
      | u8 => (fromStrRadix 0 (2 ^ 8 - 1) 10 text).map ofInt
      | i8 => (fromStrRadix (-2 ^ 7) (2 ^ 7 - 1) 10 text).map ofInt
      | u16 => (fromStrRadix 0 (2 ^ 16 - 1) 10 text).map ofInt
      | i16 => (fromStrRadix (-2 ^ 15) (2 ^ 15 - 1) 10 text).map ofInt
      | u32 => (fromStrRadix 0 (2 ^ 32 - 1) 10 text).map ofInt
      | i32 => (fromStrRadix (-2 ^ 31) (2 ^ 31 - 1) 10 text).map ofInt
      | f32 => ((read text).filter isFiniteF32).map fun bits => bits.toNat
    bits.map t.maskBits

def parse (read : ReadF32) (t : VType) (text : List Char) : Option ℕ :=
  if t = auto then autoTypes.findSome? fun t => t.parseConcrete read (trim text)
  else t.parseConcrete read text

def readAt (t : VType) (mem : Mem) (addr : ℕ) : Option ℕ :=
  if addr < mem.nullSegmentSize then none
  else if addr + t.size ≤ u32Bound then
    some (fromLeBytes ((List.range t.size).map fun i => mem.bytes (addr + i)))
  else none

def writeAt (t : VType) (mem : Mem) (addr bits : ℕ) : Bool × Mem :=
  if addr < mem.nullSegmentSize then (false, mem)
  else if addr + t.size ≤ u32Bound then
    (true, { mem with bytes := mem.bytes.store addr (leBytes t.size bits) })
  else (false, mem)

variable {t : VType} {read : ReadF32} {text : List Char} {mem mem' : Mem} {addr bits a : ℕ}

lemma size_pos : 0 < t.size := by cases t <;> decide

lemma parse_lt (ht : t ≠ auto) (h : t.parse read text = some bits) : bits < 256 ^ t.size := by
  have hmask : ∀ n, t.maskBits n < 256 ^ t.size := fun n => Nat.mod_lt _ (by positivity)
  have hhex : ∀ {hex}, (do
      let bits ← fromStrRadix 0 (2 ^ 64 - 1) 16 hex
      if bits.toNat = t.maskBits bits.toNat then some bits.toNat else none) = some bits →
      bits < 256 ^ t.size := by
    intro hex h
    obtain ⟨i, -, hi⟩ := Option.bind_eq_some_iff.mp h
    split_ifs at hi with heq
    obtain rfl := Option.some.inj hi
    rw [heq]
    exact hmask _
  rw [parse, if_neg ht] at h
  unfold parseConcrete at h
  dsimp only at h
  split at h
  · exact hhex h
  · exact hhex h
  · obtain ⟨n, -, rfl⟩ := Option.map_eq_some_iff.mp h
    exact hmask n

lemma writeAt_of_readAt {n : ℕ} (bits : ℕ) (h : t.readAt mem addr = some n) :
    t.writeAt mem addr bits = (true, { mem with bytes := mem.bytes.store addr (leBytes t.size bits) }) := by
  rw [readAt] at h
  split_ifs at h with hnull hend
  rw [writeAt, if_neg hnull, if_pos hend]

lemma writeAt_frame (h : t.writeAt mem addr bits = (true, mem')) :
    mem'.nullSegmentSize = mem.nullSegmentSize ∧ mem'.liveAllocations = mem.liveAllocations ∧
      ∀ a, a < addr ∨ addr + t.size ≤ a → mem'.bytes a = mem.bytes a := by
  rw [writeAt] at h
  split_ifs at h with hnull hend
  · cases h
  · obtain rfl := (Prod.mk.inj h).2
    refine ⟨rfl, rfl, fun a ha => ?_⟩
    change mem.bytes.store addr (leBytes t.size bits) a = mem.bytes a
    rw [Bytes.store]
    obtain ha | ha := ha
    · rw [if_neg (Nat.not_le_of_lt ha)]
    · rw [if_pos (by omega), getD_eq_default]
      rw [length_leBytes]
      omega
  · cases h

lemma readAt_congr (hnull : mem'.nullSegmentSize = mem.nullSegmentSize)
    (hbytes : ∀ a, addr ≤ a → a < addr + t.size → mem'.bytes a = mem.bytes a) :
    t.readAt mem' addr = t.readAt mem addr := by
  rw [readAt, readAt, hnull]
  congr 3
  apply congrArg fromLeBytes
  apply map_congr_left
  intro i hi
  exact hbytes _ (Nat.le_add_right _ _) (Nat.add_lt_add_left (List.mem_range.mp hi) _)

lemma readAt_writeAt (h : t.writeAt mem addr bits = (true, mem')) (hbits : bits < 256 ^ t.size) :
    t.readAt mem' addr = some bits := by
  rw [writeAt] at h
  split_ifs at h with hnull hend
  · cases h
  · obtain rfl := (Prod.mk.inj h).2
    have hread : ((List.range t.size).map fun i => mem.bytes.store addr (leBytes t.size bits) (addr + i)) =
        leBytes t.size bits := by
      apply ext_getElem
      · rw [length_map, length_range, length_leBytes]
      · intro i hi hi'
        rw [getElem_map, getElem_range, Bytes.store_inside, getD_eq_getElem _ _ hi']
    rw [readAt, if_neg hnull, if_pos hend, hread, fromLeBytes_leBytes hbits]
  · cases h

end VType

variable {b n : ℕ}

lemma fromDigits_toDigits (hb : 1 < b) {f : Char → Char}
    (hdigit : ∀ d < b, toDigit b (f (Nat.digitChar d)) = some d) (n : ℕ) :
    fromDigits b ((Nat.toDigits b n).map f) = some n := by
  induction n using Nat.strong_induction_on with
  | _ n ih =>
    by_cases hlt : n < b
    · rw [Nat.toDigits_of_lt_base hlt]
      simp [fromDigits, hdigit n hlt]
    · have hmod : n % b < b := Nat.mod_lt n (by omega)
      have hpos : 0 < n / b := Nat.div_pos (by omega) (by omega)
      have happend := Nat.toDigits_append_toDigits hb hpos hmod
      rw [Nat.div_add_mod, Nat.toDigits_of_lt_base hmod] at happend
      have hfirst := ih (n / b) (Nat.div_lt_self (by omega) hb)
      unfold fromDigits at hfirst ⊢
      rw [← happend, map_append, foldlM_append, hfirst]
      simp [hdigit _ hmod, Nat.div_add_mod']

lemma fromDigits_decimal (n : ℕ) : fromDigits 10 (Nat.toDigits 10 n) = some n := by
  have h := fromDigits_toDigits (b := 10) (f := id) (by decide) (by decide) n
  rwa [map_id] at h

lemma mem_toDigits (hb : 1 < b) (n : ℕ) : ∀ c ∈ Nat.toDigits b n, ∃ d < b, c = Nat.digitChar d := by
  induction n using Nat.strong_induction_on with
  | _ n ih =>
    by_cases hlt : n < b
    · rw [Nat.toDigits_of_lt_base hlt]
      intro c hc
      exact ⟨n, hlt, mem_singleton.mp hc⟩
    · have hmod : n % b < b := Nat.mod_lt n (by omega)
      have hpos : 0 < n / b := Nat.div_pos (by omega) (by omega)
      have happend := Nat.toDigits_append_toDigits hb hpos hmod
      rw [Nat.div_add_mod, Nat.toDigits_of_lt_base hmod] at happend
      rw [← happend]
      intro c hc
      obtain hc | hc := mem_append.mp hc
      · exact ih (n / b) (Nat.div_lt_self (by omega) hb) c hc
      · exact ⟨n % b, hmod, mem_singleton.mp hc⟩

lemma fromStrRadix_unsigned {low high : ℤ} {text : List Char} (hne : text ≠ []) (hplus : '+' ∉ text)
    (hminus : '-' ∉ text) (h : fromDigits b text = some n) (hlow : low ≤ n) (hhigh : (n : ℤ) ≤ high) :
    fromStrRadix low high b text = some (n : ℤ) := by
  obtain ⟨c, cs, rfl⟩ := exists_cons_of_ne_nil hne
  have hc : c ≠ '+' := fun heq => hplus (heq ▸ mem_cons_self)
  have hc' : c ≠ '-' := fun heq => hminus (heq ▸ mem_cons_self)
  simp [fromStrRadix, h, hc, hc', hlow, hhigh]

lemma fromStrRadix_negative {low high : ℤ} {text : List Char} (hne : text ≠ [])
    (h : fromDigits b text = some n) (hneg : low < 0) (hlow : low ≤ -n) (hhigh : -(n : ℤ) ≤ high) :
    fromStrRadix low high b ('-' :: text) = some (-(n : ℤ)) := by
  obtain ⟨c, cs, rfl⟩ := exists_cons_of_ne_nil hne
  simp [fromStrRadix, h, hneg, hlow, hhigh]

end TouchHle.Trainer
