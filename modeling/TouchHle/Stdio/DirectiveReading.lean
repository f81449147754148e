import TouchHle.Stdio.Printf

namespace TouchHle.Stdio

open Lib Memory List

inductive Flag
  | plus | hash | zero | minus | space
  deriving DecidableEq

inductive Length
  | none | hh | h | l | ll | j | z | t
  deriving DecidableEq

inductive Kind
  | d | i | u | o | x | X | c | s
  deriving DecidableEq

inductive Amount
  | omitted
  | number (ds : List (Fin 10))
  | argument
  deriving DecidableEq

structure Conversion where
  flags : List Flag
  width : Amount
  precision : Amount
  length : Length
  kind : Kind
  lead : ∀ ds, width = .number ds → ds.head? ≠ some 0

def Flag.char : Flag → Char
  | plus => '+'
  | hash => '#'
  | zero => '0'
  | minus => '-'
  | space => ' '

def digitByte (d : Fin 10) : UInt8 := 48 + UInt8.ofNat d

def Amount.text : Amount → List UInt8
  | omitted => []
  | number ds => ds.map digitByte
  | argument => [ascii '*']

def Amount.pointText : Amount → List UInt8
  | omitted => []
  | a => ascii '.' :: a.text

def Length.text : Length → List UInt8
  | none => []
  | hh => [ascii 'h', ascii 'h']
  | h => [ascii 'h']
  | l => [ascii 'l']
  | ll => [ascii 'l', ascii 'l']
  | j => [ascii 'j']
  | z => [ascii 'z']
  | t => [ascii 't']

def Kind.char : Kind → Char
  | d => 'd'
  | i => 'i'
  | u => 'u'
  | o => 'o'
  | x => 'x'
  | X => 'X'
  | c => 'c'
  | s => 's'

namespace Conversion

def flagsText (fs : List Flag) : List UInt8 := fs.map fun g => ascii g.char

def text (c : Conversion) : List UInt8 :=
  ascii '%' :: (flagsText c.flags ++ (c.width.text ++ (c.precision.pointText ++
    (c.length.text ++ [ascii c.kind.char]))))

end Conversion

structure Field where
  plus : Bool
  hash : Bool
  zero : Bool
  left : Bool
  space : Bool
  width : ℕ
  precision : Option ℕ

def Amount.value (ds : List (Fin 10)) : ℕ := ds.foldl (fun n d => n * 10 + d.val) 0

def signedBits (bits n : ℕ) : ℤ := (n : ℤ).bmod (2 ^ bits)

def Amount.read (a : Amount) (args : Args) : Option ℤ × Args :=
  match a with
  | omitted => (none, args)
  | number ds => (some (value ds), args)
  | argument => (some (signedBits 32 (args.word args.offset).toNat),
      { args with offset := args.offset + 1 })

namespace Conversion

def field (c : Conversion) (args : Args) : Field :=
  let w := (c.width.read args).1.getD 0
  let p := (c.precision.read (c.width.read args).2).1
  { plus := .plus ∈ c.flags, hash := .hash ∈ c.flags, zero := .zero ∈ c.flags
    space := .space ∈ c.flags, left := .minus ∈ c.flags ∨ w < 0
    width := w.natAbs, precision := p.bind fun p => if p < 0 then none else some p.toNat }

def argument (c : Conversion) (args : Args) : Args := (c.precision.read (c.width.read args).2).2

end Conversion

namespace Field

def layout (f : Field) (sign ds : List UInt8) : List UInt8 :=
  let fill := f.width - (sign ++ ds).length
  if f.left then sign ++ ds ++ List.replicate fill blank
  else if f.zero ∧ f.precision = none then sign ++ (List.replicate fill Stdio.zero ++ ds)
  else List.replicate fill blank ++ (sign ++ ds)

def precise (f : Field) (base v : ℕ) : List UInt8 :=
  let ds := if f.precision = some 0 ∧ v = 0 then [] else digits base v
  List.replicate (f.precision.getD 0 - ds.length) Stdio.zero ++ ds

def sign (f : Field) (v : ℤ) : List UInt8 :=
  if v < 0 then [Stdio.minus] else if f.plus then [Stdio.plus] else if f.space then [blank] else []

def signed (f : Field) (v : ℤ) : List UInt8 := f.layout (f.sign v) (f.precise 10 v.natAbs)

def unsigned (f : Field) (v : ℕ) : List UInt8 := f.layout [] (f.precise 10 v)

def octalDigits (f : Field) (v : ℕ) : List UInt8 :=
  if f.hash ∧ (f.precise 8 v).head? ≠ some Stdio.zero then Stdio.zero :: f.precise 8 v
  else f.precise 8 v

def octal (f : Field) (v : ℕ) : List UInt8 := f.layout [] (f.octalDigits v)

def hex (f : Field) (letters : UInt8 → UInt8) (v : ℕ) : List UInt8 :=
  f.layout (if f.hash ∧ v ≠ 0 then [Stdio.zero, letters 120] else [])
    ((f.precise 16 v).map letters)

def justify (f : Field) (s : List UInt8) : List UInt8 :=
  if f.left then s ++ List.replicate (f.width - s.length) blank
  else List.replicate (f.width - s.length) blank ++ s

def truncate (f : Field) (bs : List UInt8) : List UInt8 :=
  match f.precision with
  | some p => bs.take p
  | none => bs

def takeBytes : ℕ → List Char → List UInt8
  | _, [] => []
  | p, c :: cs =>
    let bs := String.utf8EncodeChar c
    if bs.length ≤ p then bs ++ takeBytes (p - bs.length) cs else []

def truncateWide (f : Field) (cs : List Char) : List UInt8 :=
  match f.precision with
  | some p => takeBytes p cs
  | none => utf8 cs

end Field

/-- What an argument is: a number, a character, or the characters of an array, whether or not a null
character ends it. -/
inductive Value
  | int (v : ℤ)
  | nat (v : ℕ)
  | byte (b : UInt8)
  | wide (c : Char)
  | bytes (bs : List UInt8) (ended : Bool)
  | wides (cs : List Char) (ended : Bool)

namespace Length

def bits : Length → ℕ
  | hh => 8
  | h => 16
  | ll | j => 64
  | none | l | z | t => 32

def words : Length → ℕ
  | ll | j => 2
  | _ => 1

end Length

namespace Args

def bits (args : Args) : ℕ := (args.word args.offset).toNat + 2 ^ 32 * (args.word (args.offset + 1)).toNat

end Args

structure HoldsBytes (m : Mem) (ptr : UInt32) (bs : List UInt8) : Prop where
  notNull : m.nullSegmentSize ≤ ptr.toNat ∧ ptr ≠ 0
  within : ptr.toNat + bs.length < 2 ^ 32
  bytes : ∀ i (h : i < bs.length), m.bytes (ptr.toNat + i) = bs[i]
  nonzero : (0 : UInt8) ∉ bs

def wordIn (m : Mem) (a : ℕ) : ℕ :=
  (m.bytes a).toNat + 256 * (m.bytes (a + 1)).toNat + 256 ^ 2 * (m.bytes (a + 2)).toNat +
    256 ^ 3 * (m.bytes (a + 3)).toNat

structure HoldsWides (m : Mem) (ptr : UInt32) (cs : List Char) : Prop where
  notNull : m.nullSegmentSize ≤ ptr.toNat ∧ ptr ≠ 0
  within : ptr.toNat + 4 * cs.length + 4 ≤ 2 ^ 32
  words : ∀ i (h : i < cs.length), wordIn m (ptr.toNat + 4 * i) = cs[i].toNat
  nonzero : ∀ c ∈ cs, c.toNat ≠ 0

def Denotes (m : Mem) (f : Field) (length : Length) (kind : Kind) (args : Args) : Value → Prop
  | .int v => (kind = .d ∨ kind = .i) ∧ v = signedBits length.bits args.bits
  | .nat v => (kind = .u ∨ kind = .o ∨ kind = .x ∨ kind = .X) ∧ v = args.bits % 2 ^ length.bits
  | .byte b => kind = .c ∧ length ≠ .l ∧ b.toNat = args.bits % 2 ^ 8
  | .wide c => kind = .c ∧ length = .l ∧ c.toNat = args.bits % 2 ^ 32
  | .bytes bs ended => kind = .s ∧ length ≠ .l ∧ HoldsBytes m (args.word args.offset) bs ∧
      if ended then m.bytes ((args.word args.offset).toNat + bs.length) = 0
      else ∃ p ∈ f.precision, p ≤ bs.length
  | .wides cs ended => kind = .s ∧ length = .l ∧ HoldsWides m (args.word args.offset) cs ∧
      if ended then wordIn m ((args.word args.offset).toNat + 4 * cs.length) = 0
      else ∃ p ∈ f.precision, p ≤ (utf8 cs).length

def Field.write (f : Field) (kind : Kind) : Value → List UInt8
  | .int v => f.signed v
  | .nat v =>
    match kind with
    | .o => f.octal v
    | .x => f.hex id v
    | .X => f.hex capital v
    | _ => f.unsigned v
  | .byte b => f.justify [b]
  | .wide c => f.justify (utf8 [c])
  | .bytes bs _ => f.justify (f.truncate bs)
  | .wides cs _ => f.justify (f.truncateWide cs)

def Conversion.Defined (c : Conversion) : Prop :=
  (.hash ∈ c.flags → c.kind = .o ∨ c.kind = .x ∨ c.kind = .X) ∧
  (c.kind = .c ∨ c.kind = .s → .zero ∉ c.flags ∧ (c.length = .none ∨ c.length = .l)) ∧
  (c.kind = .c → c.precision = .omitted)

instance (c : Conversion) : Decidable c.Defined := by unfold Conversion.Defined; infer_instance

variable {c : Conversion} {f : Field} {d : Directive} {args : Args} {fs : List Flag}
  {ds : List (Fin 10)} {tail : List UInt8} {g : Flag}

@[simp] lemma formatChar_cons (b : UInt8) : formatChar (b :: tail) = asChar b := rfl

lemma asChar_flag (g : Flag) : asChar (ascii g.char) = g.char := by
  cases g <;> rfl

lemma asChar_kind (k : Kind) : asChar (ascii k.char) = k.char := by
  cases k <;> rfl

lemma flag_char_injective : Function.Injective Flag.char := by
  intro g g' h
  cases g <;> cases g' <;> first | rfl | exact absurd h (by decide)

def dropFlag (g : Flag) (fs : List Flag) : List Flag := if fs.head? = some g then fs.tail else fs

def unreadFlags (fs : List Flag) : List Flag :=
  dropFlag .minus (dropFlag .zero (dropFlag .hash (dropFlag .plus fs)))

namespace Conversion

def Readable (c : Conversion) : Prop :=
  (∀ g ∈ unreadFlags c.flags, g = .zero) ∧ (c.width = .argument → unreadFlags c.flags = [])

instance : Decidable c.Readable := by unfold Readable; infer_instance

end Conversion

open Conversion in
lemma readFlag_flags (fs : List Flag) (g : Flag) (htail : formatChar tail ≠ g.char) :
    readFlag g.char (flagsText fs ++ tail) =
      (decide (fs.head? = some g), flagsText (dropFlag g fs) ++ tail) := by
  cases fs with
  | nil => simp [readFlag, flagsText, dropFlag, htail]
  | cons g' fs =>
    have hchar : g'.char = g.char ↔ g' = g := flag_char_injective.eq_iff
    by_cases h : g' = g <;>
      simp [readFlag, flagsText, dropFlag, asChar_flag, hchar, h]

lemma digit_toNat (d : Fin 10) : (digitByte d).toNat = 48 + d := by
  fin_cases d <;> rfl

lemma isDigit_digitByte (d : Fin 10) : isDigit (digitByte d) = true := by
  fin_cases d <;> rfl

lemma value_ge (ds : List (Fin 10)) (n : ℕ) : n ≤ ds.foldl (fun n d => n * 10 + d.val) n := by
  induction ds generalizing n with
  | nil => exact le_rfl
  | cons d ds ih => exact le_trans (by omega) (ih (n * 10 + d.val))

lemma readNumber_digits (ds : List (Fin 10)) (limit : ℕ) (htail : isDigit (tail.headD 0) = false) :
    ∀ n, ds.foldl (fun n d => n * 10 + d.val) n ≤ limit →
      readNumber limit (ds.map digitByte ++ tail) n = (ds.foldl (fun n d => n * 10 + d.val) n, tail) := by
  induction ds with
  | nil =>
    intro n _
    cases tail with
    | nil => rfl
    | cons b tail => exact if_neg (by rw [headD_cons] at htail; simp [htail])
  | cons d ds ih =>
    intro n hlimit
    have hstep := value_ge ds (n * 10 + d.val)
    have hnext : n * 10 + d.val ≤ limit := hstep.trans hlimit
    rw [map_cons, cons_append, readNumber, if_pos (isDigit_digitByte d), digit_toNat,
      Nat.add_sub_cancel_left, min_eq_right (by omega : n * 10 ≤ limit), min_eq_right hnext]
    exact ih _ hlimit

lemma value_zeros (n : ℕ) (ds : List (Fin 10)) :
    Amount.value (List.replicate n 0 ++ ds) = Amount.value ds := by
  induction n with
  | zero => rfl
  | succ n ih => simpa [Amount.value, replicate_succ] using ih

lemma flagsText_zeros (n : ℕ) :
    Conversion.flagsText (List.replicate n .zero) = (List.replicate n (0 : Fin 10)).map digitByte := by
  simp only [Conversion.flagsText, map_replicate]
  rfl

lemma toInt32_eq (w : UInt32) : w.toInt32.toInt = signedBits 32 w.toNat :=
  BitVec.toInt_eq_toNat_bmod w.toBitVec

lemma readPadWidth_text (args : Args) (tail : List UInt8) {a : Amount} {n : ℕ} (hn : a = .argument → n = 0)
    (hdigit : isDigit (tail.headD 0) = false) (hstar : formatChar tail ≠ '*')
    (hsmall : ∀ ds, a = .number ds → Amount.value ds ≤ maxFieldWidth) :
    readPadWidth ((List.replicate n (0 : Fin 10)).map digitByte ++ (a.text ++ tail)) args =
      ((a.read args).1.getD 0, tail, (a.read args).2) := by
  have hnumber : ∀ ds, Amount.value ds ≤ maxFieldWidth → readPadWidth
      ((List.replicate n (0 : Fin 10)).map digitByte ++ (ds.map digitByte ++ tail)) args =
      ((Amount.value ds : ℤ), tail, args) := by
    intro ds hds
    rw [← append_assoc, ← map_append]
    have hvalue : (List.replicate n (0 : Fin 10) ++ ds).foldl (fun n d => n * 10 + d.val) 0 =
        Amount.value ds := value_zeros n ds
    have hlimit : Amount.value ds ≤ 2 ^ 31 - 1 := hds.trans (by norm_num [maxFieldWidth])
    have hread := readNumber_digits (List.replicate n 0 ++ ds) (2 ^ 31 - 1) hdigit 0
      (hvalue.symm ▸ hlimit)
    have hhead : formatChar ((List.replicate n (0 : Fin 10) ++ ds).map digitByte ++ tail) ≠ '*' := by
      cases hall : List.replicate n (0 : Fin 10) ++ ds with
      | nil => exact hstar
      | cons d ds =>
        rw [map_cons, cons_append, formatChar_cons]
        fin_cases d <;> decide
    rw [readPadWidth, if_neg hhead, hread, hvalue]
  cases a with
  | omitted => exact hnumber [] (Nat.zero_le _)
  | number ds => exact hnumber ds (hsmall ds rfl)
  | argument =>
    have hhead : formatChar (ascii '*' :: tail) = '*' := rfl
    rw [hn rfl, Amount.text, replicate_zero, map_nil, nil_append, singleton_append,
      readPadWidth, if_pos hhead, Amount.read]
    rw [← toInt32_eq]
    rfl

lemma readPrecision_text (args : Args) (tail : List UInt8) {a : Amount}
    (hdigit : isDigit (tail.headD 0) = false)
    (hpoint : formatChar tail ≠ '.') (hstar : formatChar tail ≠ '*')
    (hsmall : ∀ p ∈ (a.read args).1, 0 ≤ p ∧ p ≤ maxFieldWidth) :
    readPrecision (a.pointText ++ tail) args =
      ((a.read args).1.map Int.toNat, tail, (a.read args).2) := by
  cases a with
  | omitted => exact if_neg hpoint
  | number ds =>
    have hvalue : (Amount.value ds : ℤ) ≤ maxFieldWidth := (hsmall _ rfl).2
    have hlimit : Amount.value ds ≤ maxFieldWidth := by exact_mod_cast hvalue
    have hread := readNumber_digits ds (2 ^ 64 - 1) hdigit 0
      (hlimit.trans (by norm_num [maxFieldWidth]))
    have hhead : formatChar (ds.map digitByte ++ tail) ≠ '*' := by
      cases ds with
      | nil => exact hstar
      | cons d ds =>
        rw [map_cons, cons_append, formatChar_cons]
        fin_cases d <;> decide
    have hdot : formatChar (ascii '.' :: (ds.map digitByte ++ tail)) = '.' := rfl
    rw [Amount.pointText, Amount.text, cons_append, readPrecision, if_pos hdot, tail_cons,
      if_neg hhead, hread]
    · exact Prod.ext (congrArg some (min_eq_left hlimit)) rfl
    · rintro ⟨⟩
  | argument =>
    have hword := hsmall _ rfl
    have hlimit : (signedBits 32 (args.word args.offset).toNat).toNat ≤ maxFieldWidth := by omega
    refine Prod.ext (congrArg some ?_) rfl
    rw [toInt32_eq]
    exact min_eq_left hlimit

def Length.modifier : Length → Option LengthModifier
  | none => .none
  | hh => some .hh
  | h => some .h
  | l | z | t => some .l
  | ll | j => some .ll

lemma readLengthModifier_text (length : Length) (k : Kind) (tail : List UInt8) :
    readLengthModifier (length.text ++ ascii k.char :: tail) = (length.modifier, ascii k.char :: tail) := by
  cases length <;> cases k <;> rfl

structure Says (d : Directive) (f : Field) : Prop where
  sign : d.prependSign = f.plus
  alternative : d.alternativeForm = f.hash
  left : d.leftJustified = f.left
  zeros : f.left = false → d.zeroPad = f.zero
  zeros_of : d.zeroPad → f.zero
  width : d.padWidth = f.width
  precision : d.precision = f.precision

structure Conversion.Moderate (c : Conversion) (args : Args) : Prop where
  width : ∀ w ∈ (c.width.read args).1, w.natAbs ≤ maxFieldWidth
  precision : ∀ p ∈ (c.precision.read (c.width.read args).2).1, 0 ≤ p ∧ p ≤ maxFieldWidth

lemma unread_zeros (h : c.Readable) :
    ∃ n, unreadFlags c.flags = List.replicate n .zero ∧ (c.width = .argument → n = 0) := by
  refine ⟨(unreadFlags c.flags).length, eq_replicate_iff.mpr ⟨rfl, h.1⟩, ?_⟩
  intro hwidth
  rw [h.2 hwidth, length_nil]

lemma mem_dropFlag {g' : Flag} : g' ∈ fs ↔ (fs.head? = some g' ∧ g = g') ∨ g' ∈ dropFlag g fs := by
  cases fs with
  | nil => simp [dropFlag]
  | cons a fs =>
    by_cases h : a = g
    · subst h
      simp [dropFlag]
      constructor
      · rintro (rfl | h) <;> simp_all
      · rintro (⟨rfl, -⟩ | h) <;> simp_all
    · simp only [dropFlag, head?_cons, Option.some.injEq, h, if_false]
      constructor
      · exact Or.inr
      · rintro (⟨rfl, rfl⟩ | h')
        · exact absurd rfl h
        · exact h'

lemma formatChar_ne {ch : Char} (h : (tail.headD 0).toNat ≠ ch.toNat) : formatChar tail ≠ ch := by
  intro heq
  apply h
  rw [← heq, formatChar, toNat_asChar]

lemma head_length (length : Length) (k : Kind) (tail : List UInt8) :
    65 ≤ ((length.text ++ ascii k.char :: tail).headD 0).toNat := by
  cases length <;> cases k <;> exact Nat.le_of_ble_eq_true rfl

lemma head_precision (a : Amount) (h : 65 ≤ (tail.headD 0).toNat) :
    ((a.pointText ++ tail).headD 0).toNat = 46 ∨ 65 ≤ ((a.pointText ++ tail).headD 0).toNat := by
  cases a with
  | omitted => exact .inr h
  | number ds => exact .inl rfl
  | argument => exact .inl rfl

lemma head_width (hlead : ∀ ds, c.width = .number ds → ds.head? ≠ some 0)
    (h : (tail.headD 0).toNat = 46 ∨ 65 ≤ (tail.headD 0).toNat) :
    let b := ((c.width.text ++ tail).headD 0).toNat
    b = 42 ∨ b = 46 ∨ 49 ≤ b := by
  intro b
  cases hwidth : c.width with
  | omitted =>
    have hb : b = (tail.headD 0).toNat := by simp only [b, hwidth, Amount.text, nil_append]
    omega
  | number ds =>
    cases ds with
    | nil =>
      have hb : b = (tail.headD 0).toNat := by
        simp only [b, hwidth, Amount.text, map_nil, nil_append]
      omega
    | cons d ds =>
      have hd : d ≠ 0 := fun h0 => hlead _ hwidth (congrArg some h0)
      have hpos : 0 < d.val := Fin.pos_iff_ne_zero.mpr hd
      have hb : b = 48 + d.val := by
        simp only [b, hwidth, Amount.text, map_cons, cons_append, headD_cons,
          digit_toNat]
      omega
  | argument =>
    have hb : b = 42 := by
      simp only [b, hwidth, Amount.text]
      rfl
    omega

lemma not_isDigit {b : UInt8} (h : b.toNat < 48 ∨ 57 < b.toNat) : isDigit b = false := by
  rw [isDigit, Bool.and_eq_false_iff, decide_eq_false_iff_not, decide_eq_false_iff_not,
    UInt8.le_iff_toNat_le, UInt8.le_iff_toNat_le]
  have h48 : (48 : UInt8).toNat = 48 := rfl
  have h57 : (57 : UInt8).toNat = 57 := rfl
  omega

section

variable (h : c.Readable)

include h

lemma mem_flags_iff {g : Flag} (hne : g ≠ .zero) : g ∈ c.flags ↔
    (c.flags.head? = some g ∧ .plus = g) ∨ ((dropFlag .plus c.flags).head? = some g ∧ .hash = g) ∨
      ((dropFlag .zero (dropFlag .hash (dropFlag .plus c.flags))).head? = some g ∧ .minus = g) := by
  have hnot : g ∉ dropFlag .minus (dropFlag .zero (dropFlag .hash (dropFlag .plus c.flags))) :=
    fun hmem => hne (h.1 g hmem)
  rw [mem_dropFlag (g := .plus), mem_dropFlag (g := .hash), mem_dropFlag (g := .zero),
    mem_dropFlag (g := .minus)]
  simp only [hnot, hne.symm, and_false, false_or, or_false]

lemma plus_iff : .plus ∈ c.flags ↔ c.flags.head? = some .plus := by
  simp [mem_flags_iff h]

lemma hash_iff : .hash ∈ c.flags ↔ (dropFlag .plus c.flags).head? = some .hash := by
  simp [mem_flags_iff h]

lemma minus_iff : .minus ∈ c.flags ↔
    (dropFlag .zero (dropFlag .hash (dropFlag .plus c.flags))).head? = some .minus := by
  simp [mem_flags_iff h]

lemma no_space : .space ∉ c.flags := by
  simp [mem_flags_iff h]

lemma zero_iff (hminus : .minus ∉ c.flags) :
    .zero ∈ c.flags ↔ (dropFlag .hash (dropFlag .plus c.flags)).head? = some .zero := by
  have hhead := (not_congr (minus_iff h)).mp hminus
  rw [mem_dropFlag (g := .plus), mem_dropFlag (g := .hash)]
  simp only [reduceCtorEq, and_false, false_or]
  constructor
  · intro hmem
    by_contra hne
    have hzero : dropFlag .zero (dropFlag .hash (dropFlag .plus c.flags)) =
        dropFlag .hash (dropFlag .plus c.flags) := if_neg hne
    have hunread : unreadFlags c.flags = dropFlag .hash (dropFlag .plus c.flags) := by
      rw [unreadFlags, dropFlag, if_neg hhead, hzero]
    obtain ⟨g, fs, hfs⟩ := exists_cons_of_ne_nil (ne_nil_of_mem hmem)
    have hg : g = .zero := h.1 g (by rw [hunread, hfs]; exact mem_cons_self)
    rw [hfs, hg] at hne
    exact hne rfl
  · exact mem_of_mem_head?

end

lemma flag_code (g : Flag) : g.char.toNat ≠ 42 ∧ g.char.toNat ≠ 46 ∧ g.char.toNat < 49 := by
  cases g <;> decide

lemma precision_of_moderate (hmoderate : c.Moderate args) :
    (c.precision.read (c.width.read args).2).1.map Int.toNat = (c.field args).precision := by
  rw [Conversion.field]
  cases hp : (c.precision.read (c.width.read args).2).1 with
  | none => rfl
  | some p =>
    have hpos := (hmoderate.precision p hp).1
    exact (if_neg (not_lt.mpr hpos)).symm

def Conversion.directive (c : Conversion) (args : Args) : Directive where
  prependSign := c.flags.head? = some .plus
  alternativeForm := (dropFlag .plus c.flags).head? = some .hash
  zeroPad := (dropFlag .hash (dropFlag .plus c.flags)).head? = some .zero
  leftJustified :=
    if (c.width.read args).1.getD 0 < 0 then true
    else (dropFlag .zero (dropFlag .hash (dropFlag .plus c.flags))).head? = some .minus
  padWidth := min ((c.width.read args).1.getD 0).natAbs maxFieldWidth
  precision := (c.precision.read (c.width.read args).2).1.map Int.toNat
  lengthModifier := c.length.modifier
  specifier := c.kind.char

lemma readDirective_text (tail : List UInt8) (hread : c.Readable) (hmoderate : c.Moderate args) :
    readDirective (c.text.tail ++ tail) args =
      (c.directive args, ascii c.kind.char :: tail, c.argument args) := by
  obtain ⟨n, hn, hargument⟩ := unread_zeros hread
  have hlength := head_length c.length c.kind tail
  have hprecision := head_precision c.precision hlength
  have hwidth := head_width c.lead hprecision
  obtain ⟨rest, hrest⟩ : ∃ rest, rest = c.length.text ++ ascii c.kind.char :: tail := ⟨_, rfl⟩
  rw [← hrest] at hlength hprecision hwidth
  have hflag : ∀ g : Flag,
      formatChar (c.width.text ++ (c.precision.pointText ++ rest)) ≠ g.char := by
    intro g
    have hcode := flag_code g
    exact formatChar_ne (by omega)
  have htext : c.text.tail ++ tail =
      Conversion.flagsText c.flags ++ (c.width.text ++ (c.precision.pointText ++ rest)) := by
    simp [Conversion.text, hrest]
  have hplus := readFlag_flags c.flags .plus (hflag .plus)
  have hhash := readFlag_flags (dropFlag .plus c.flags) .hash (hflag .hash)
  have hzero := readFlag_flags (dropFlag .hash (dropFlag .plus c.flags)) .zero (hflag .zero)
  have hminus := readFlag_flags (dropFlag .zero (dropFlag .hash (dropFlag .plus c.flags))) .minus
    (hflag .minus)
  have hunread : dropFlag .minus (dropFlag .zero (dropFlag .hash (dropFlag .plus c.flags))) =
      List.replicate n .zero := hn
  rw [hunread, flagsText_zeros] at hminus
  have hpad := readPadWidth_text args (c.precision.pointText ++ rest) hargument
    (not_isDigit (by omega)) (formatChar_ne (by change _ ≠ 42; omega)) (by
      intro ds hds
      have hvalue := hmoderate.width (Amount.value ds) (by rw [hds]; rfl)
      simpa using hvalue)
  have hpoint := readPrecision_text (c.width.read args).2 rest
    (not_isDigit (by omega)) (formatChar_ne (by change _ ≠ 46; omega))
    (formatChar_ne (by change _ ≠ 42; omega)) hmoderate.precision
  have hmodifier := readLengthModifier_text c.length c.kind tail
  rw [← hrest] at hmodifier
  simp only [Flag.char] at hplus hhash hzero hminus
  rw [htext, readDirective, hplus]
  simp only [hhash, hzero, hminus, hpad, hpoint, hmodifier, formatChar_cons, asChar_kind]
  rfl

lemma says_directive (hread : c.Readable) (hmoderate : c.Moderate args) :
    Says (c.directive args) (c.field args) where
  sign := decide_eq_decide.mpr (plus_iff hread).symm
  alternative := decide_eq_decide.mpr (hash_iff hread).symm
  left := by
    have hminus := minus_iff hread
    simp only [Conversion.directive, Conversion.field, hminus]
    split_ifs with hneg <;> simp [hneg]
  zeros hleft := by
    have hminus : .minus ∉ c.flags := by
      intro hmem
      simp [Conversion.field, hmem] at hleft
    exact decide_eq_decide.mpr (zero_iff hread hminus).symm
  zeros_of hzero := by
    have hhead := of_decide_eq_true hzero
    have hmem : .zero ∈ c.flags := by
      rw [mem_dropFlag (g := .plus), mem_dropFlag (g := .hash)]
      exact .inr (.inr (mem_of_mem_head? hhead))
    exact decide_eq_true hmem
  width := by
    refine min_eq_left ?_
    cases hw : (c.width.read args).1 with
    | none => exact Nat.zero_le _
    | some w => exact hmoderate.width w hw
  precision := precision_of_moderate hmoderate

end TouchHle.Stdio
