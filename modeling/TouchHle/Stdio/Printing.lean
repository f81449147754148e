import TouchHle.Stdio.Conformance

/-! Whole formats: what `printf` writes for the conversions of integers, characters and strings. -/

namespace TouchHle.Stdio

open Lib Memory Output

variable {c : Conversion} {f : Field} {d : Directive} {args : Args} {v : Value} {m : Mem}
  {h : Formatter} {length : Length} {kind : Kind} {res : List UInt8}

lemma signedBits_low {bits a b : ℕ} (hbits : bits ≤ 32) :
    signedBits bits (a + 2 ^ 32 * b) = signedBits bits a := by
  have hpow : 2 ^ 32 = 2 ^ bits * 2 ^ (32 - bits) := by rw [← Nat.pow_add, Nat.add_sub_cancel' hbits]
  have hcast : ((a + 2 ^ 32 * b : ℕ) : ℤ) = a + (2 ^ bits : ℕ) * (2 ^ (32 - bits) * b : ℕ) := by
    rw [hpow]
    push_cast
    ring
  rw [signedBits, signedBits, hcast]
  exact_mod_cast Int.add_mul_bmod_self_left (a : ℤ) (2 ^ bits) ((2 ^ (32 - bits) * b : ℕ) : ℤ)

lemma bits_next (args : Args) : args.bits % 2 ^ 32 = args.next.1.toNat := by
  have hlt := (args.word args.offset).toNat_lt
  rw [Args.bits, Nat.add_mul_mod_self_left, Nat.mod_eq_of_lt hlt]
  rfl

lemma bits_next64 (args : Args) : args.next64.1.toNat = args.bits := by
  have hlo := (args.word args.offset).toNat_lt
  have hhi := (args.word (args.offset + 1)).toNat_lt
  have hc : (0x100000000 : UInt64).toNat = 2 ^ 32 := rfl
  rw [Args.next64, UInt64.toNat_add, UInt64.toNat_mul, UInt32.toNat_toUInt64, UInt32.toNat_toUInt64,
    Args.bits, hc]
  omega

lemma nextInt_eq (hmodifier : d.lengthModifier = length.modifier) :
    d.nextInt args =
      (signedBits length.bits args.bits, { args with offset := args.offset + length.words }) := by
  have hword : args.next.1.toInt32.toInt = signedBits 32 args.bits := by
    rw [toInt32_eq, Args.bits, signedBits_low le_rfl]
    rfl
  have hlong : args.next64.1.toInt64.toInt = signedBits 64 args.bits := by
    have hbits : args.next64.1.toInt64.toInt = signedBits 64 args.next64.1.toNat :=
      BitVec.toInt_eq_toNat_bmod args.next64.1.toBitVec
    rw [hbits, bits_next64]
  have hbyte : args.next.1.toInt32.toInt8.toInt = signedBits 8 args.bits := by
    rw [Int32.toInt_toInt8, hword, signedBits, signedBits]
    exact Int.bmod_bmod_of_dvd (by norm_num)
  have hshort : args.next.1.toInt32.toInt16.toInt = signedBits 16 args.bits := by
    rw [Int32.toInt_toInt16, hword, signedBits, signedBits]
    exact Int.bmod_bmod_of_dvd (by norm_num)
  rw [Directive.nextInt, hmodifier]
  cases length <;> simp only [Length.modifier, Length.bits, Length.words, hword, hbyte, hshort, hlong] <;>
    rfl

lemma nextUint_eq (hmodifier : d.lengthModifier = length.modifier) :
    d.nextUint args =
      (args.bits % 2 ^ length.bits, { args with offset := args.offset + length.words }) := by
  have hword := (bits_next args).symm
  have hlong : args.next64.1.toNat = args.bits % 2 ^ 64 := by
    have hlt := args.next64.1.toNat_lt
    rw [bits_next64] at hlt ⊢
    exact (Nat.mod_eq_of_lt hlt).symm
  have hbyte : args.next.1.toUInt8.toNat = args.bits % 2 ^ 8 := by
    rw [UInt32.toNat_toUInt8, hword]
    omega
  have hshort : args.next.1.toUInt16.toNat = args.bits % 2 ^ 16 := by
    rw [UInt32.toNat_toUInt16, hword]
    omega
  rw [Directive.nextUint, hmodifier]
  cases length <;> simp only [Length.modifier, Length.bits, Length.words, hword, hbyte, hshort, hlong] <;>
    rfl

def Field.Fits (f : Field) (args : Args) (kind : Kind) : Value → Prop
  | .int i => f.SignedFits i
  | .nat v =>
    match kind with
    | .o => f.OctalFits v
    | .x | .X => f.HexFits v
    | _ => f.UnsignedFits v
  | .byte _ => f.width = 0
  | .wide c => f.width ≤ (utf8 [c]).length
  | .bytes bs _ => f.BytesFits bs
  | .wides cs ended => f.WidesFits (args.word args.offset) cs ended

def Conversion.after (c : Conversion) (args : Args) : Args :=
  { c.argument args with offset := (c.argument args).offset + c.length.words }

lemma convert_write (h : Formatter) (res : List UInt8) (hmeans : Says d f) (hspace : f.space = false)
    (hmodifier : d.lengthModifier = length.modifier) (hspecifier : d.specifier = kind.char)
    (hdefined : kind = .c ∨ kind = .s → f.zero = false ∧ (length = .none ∨ length = .l))
    (hdenotes : Denotes m f length kind args v) (hfits : f.Fits args kind v) :
    convert h d ⟨m, args, res⟩ =
      ⟨m, { args with offset := args.offset + length.words }, res ++ f.write kind v⟩ := by
  have hone : kind = .c ∨ kind = .s → length.words = 1 := by
    intro hkind
    obtain ⟨_, rfl | rfl⟩ := hdefined hkind <;> rfl
  cases v with
  | int i =>
    obtain ⟨hkind, rfl⟩ := hdenotes
    have hput : convert h d ⟨m, args, res⟩ = put ⟨m, args, res⟩ (d.nextInt args).2
        (d.applyIntPad (d.nextInt args).1) := by
      obtain rfl | rfl := hkind <;> (rw [convert, hspecifier]; rfl)
    rw [hput, nextInt_eq hmodifier, applyIntPad_signed hmeans hspace hfits]
    rfl
  | nat n =>
    obtain ⟨hkind, rfl⟩ := hdenotes
    rw [convert, hspecifier]
    obtain rfl | rfl | rfl | rfl := hkind
    · change put _ (d.nextUint args).2 (d.applyUintPad (d.nextUint args).1) = _
      rw [nextUint_eq hmodifier, applyUintPad_unsigned hmeans hfits]
      rfl
    · change put _ (d.nextUint args).2 (d.formatOctal (d.nextUint args).1) = _
      rw [nextUint_eq hmodifier, formatOctal_octal hmeans hfits]
      rfl
    · change put _ (d.nextUint args).2 (d.formatHex id (d.nextUint args).1) = _
      rw [nextUint_eq hmodifier, formatHex_hex rfl hmeans hfits]
      rfl
    · change put _ (d.nextUint args).2 (d.formatHex capital (d.nextUint args).1) = _
      rw [nextUint_eq hmodifier, formatHex_hex rfl hmeans hfits]
      rfl
  | byte b =>
    obtain ⟨rfl, hlength, hb⟩ := hdenotes
    have hwidth : f.width = 0 := hfits
    have hnot : d.lengthModifier ≠ some .l := by
      obtain ⟨_, rfl | rfl⟩ := hdefined (.inl rfl)
      · rw [hmodifier]
        rintro ⟨⟩
      · exact absurd rfl hlength
    have hbyte : args.next.1.toUInt8 = b := by
      apply UInt8.toNat_inj.mp
      rw [UInt32.toNat_toUInt8, ← bits_next, hb]
      omega
    rw [convert, hspecifier, hone (.inl rfl)]
    change (if _ then _ else put _ _ (d.formatByte args.next.1.toUInt8)) = _
    rw [if_neg hnot, hbyte, Directive.formatByte, hmeans.width, if_neg (by omega), Field.write,
      justify_narrow (by omega)]
    rfl
  | wide ch =>
    obtain ⟨rfl, rfl, hch⟩ := hdenotes
    have hwidth : f.width ≤ (utf8 [ch]).length := hfits
    have hwide : d.lengthModifier = some .l := hmodifier
    have hword : charFromU32 args.next.1.toNat = some ch := by
      rw [← bits_next, ← hch, charFromU32_toNat]
    rw [convert, hspecifier]
    change (if _ then put _ _ (utf8 [(charFromU32 args.next.1.toNat).getD _]) else _) = _
    rw [if_pos hwide, hword, Option.getD_some, Field.write, justify_narrow hwidth]
    rfl
  | bytes bs ended =>
    obtain ⟨rfl, hlength, hholds, hend⟩ := hdenotes
    obtain ⟨hzero, hl⟩ := hdefined (.inr rfl)
    have hnot : d.lengthModifier ≠ some .l := by
      obtain rfl | rfl := hl
      · rw [hmodifier]
        rintro ⟨⟩
      · exact absurd rfl hlength
    rw [convert, hspecifier, hone (.inr rfl)]
    change (if _ then _ else put _ _ (d.formatString m (args.word args.offset))) = _
    rw [if_neg hnot, formatString_bytes hmeans hzero hholds hend hfits]
    rfl
  | wides cs ended =>
    obtain ⟨rfl, rfl, hholds, hend⟩ := hdenotes
    obtain ⟨hzero, _⟩ := hdefined (.inr rfl)
    have hwide : d.lengthModifier = some .l := hmodifier
    rw [convert, hspecifier]
    change (if _ then put _ _ (d.formatWideString m (args.word args.offset)) else _) = _
    rw [if_pos hwide, formatWideString_wides hmeans hzero hholds hend hfits]
    rfl

inductive Item
  | plain (b : UInt8)
  | conversion (c : Conversion) (v : Value)

namespace Item

def text : Item → List UInt8
  | plain b => [b]
  | conversion c _ => c.text

def after (args : Args) : Item → Args
  | plain _ => args
  | conversion c _ => c.after args

def output (args : Args) : Item → List UInt8
  | plain b => [b]
  | conversion c v => (c.field args).write c.kind v

def Given (m : Mem) (args : Args) : Item → Prop
  | plain b => b ≠ 0 ∧ b ≠ ascii '%'
  | conversion c v => c.Defined ∧ Denotes m (c.field args) c.length c.kind (c.argument args) v

def Served (args : Args) : Item → Prop
  | plain _ => True
  | conversion c v => c.Readable ∧ c.Moderate args ∧ (c.field args).Fits (c.argument args) c.kind v

end Item

def formatText (items : List Item) : List UInt8 := items.flatMap Item.text

def formatOutput : Args → List Item → List UInt8
  | _, [] => []
  | args, i :: items => i.output args ++ formatOutput (i.after args) items

def Given (m : Mem) : Args → List Item → Prop
  | _, [] => True
  | args, i :: items => i.Given m args ∧ Given m (i.after args) items

def Served : Args → ℕ → List Item → Prop
  | _, _, [] => True
  | args, n, i :: items => i.Served args ∧ n < maxTotalOutput ∧
      Served (i.after args) (n + (i.output args).length) items

lemma loop_item {i : Item} {rounds : ℕ} {rest : List UInt8} (hgiven : i.Given m args)
    (hserved : i.Served args) (htotal : res.length < maxTotalOutput) :
    loop h (rounds + 1) (i.text ++ rest) ⟨m, args, res⟩ =
      loop h rounds rest ⟨m, i.after args, res ++ i.output args⟩ := by
  cases i with
  | plain b =>
    obtain ⟨hnull, hpercent⟩ := hgiven
    have hchar : asChar b ≠ '%' := by
      intro heq
      apply hpercent
      rw [← heq, ascii_asChar]
    rw [Item.text, List.singleton_append, loop, if_neg (by simpa using htotal)]
    simp only [if_neg hnull, if_pos hchar]
    rfl
  | conversion c v =>
    obtain ⟨hdefined, hdenotes⟩ := hgiven
    obtain ⟨hread, hmoderate, hfits⟩ := hserved
    have hdirective := readDirective_text rest hread hmoderate
    have hmem : (c.directive args).specifier ∈ allSpecifiers := by
      change c.kind.char ∈ allSpecifiers
      cases c.kind <;> decide
    have hpercent : (c.directive args).specifier ≠ '%' := by
      change c.kind.char ≠ '%'
      cases c.kind <;> decide
    have hspace : (c.field args).space = false := decide_eq_false (no_space hread)
    have hplain : c.kind = .c ∨ c.kind = .s →
        (c.field args).zero = false ∧ (c.length = .none ∨ c.length = .l) := by
      intro hkind
      obtain ⟨hzero, hlength⟩ := hdefined.2.1 hkind
      exact ⟨decide_eq_false hzero, hlength⟩
    have hconvert := convert_write h res (says_directive hread hmoderate) hspace rfl rfl
      hplain hdenotes hfits
    have htext : c.text ++ rest = ascii '%' :: (c.text.tail ++ rest) := rfl
    have hnull : ascii '%' ≠ 0 := by decide
    have hfirst : ¬ asChar (ascii '%') ≠ '%' := by decide
    rw [Item.text, htext, loop, if_neg (by simpa using htotal)]
    simp only [if_neg hnull, if_neg hfirst, hdirective, not_not.mpr hmem, if_false, if_neg hpercent,
      List.tail_cons, hconvert]
    rfl

lemma length_text_pos (i : Item) : 0 < i.text.length := by
  cases i with
  | plain b => exact Nat.one_pos
  | conversion c v => exact Nat.succ_pos _

lemma loop_format : ∀ {items : List Item} {args : Args} {rounds : ℕ} {res : List UInt8},
    Given m args items → Served args res.length items → (formatText items).length ≤ rounds →
    (loop h rounds (formatText items) ⟨m, args, res⟩).res = res ++ formatOutput args items := by
  intro items
  induction items with
  | nil =>
    intro args rounds res _ _ _
    rw [formatOutput, List.append_nil]
    cases rounds with
    | zero => rfl
    | succ rounds =>
      change (if _ then _ else _ : Output).res = res
      split_ifs <;> rfl
  | cons i items ih =>
    intro args rounds res hgiven hserved hrounds
    have hpos := length_text_pos i
    have htext : formatText (i :: items) = i.text ++ formatText items := rfl
    rw [htext, List.length_append] at hrounds
    obtain ⟨rounds, rfl⟩ : ∃ n, rounds = n + 1 := Nat.exists_eq_add_one.mpr (by omega)
    rw [htext, loop_item hgiven.1 hserved.1 hserved.2.1, formatOutput, ← List.append_assoc]
    apply ih hgiven.2
    · rw [List.length_append]
      exact hserved.2.2
    · omega

local instance ten_neZero : NeZero (10 : ℕ) := ⟨Nat.succ_ne_zero 9⟩

lemma lead_omitted (ds : List (Fin 10)) (h : Amount.omitted = .number ds) : ds.head? ≠ some 0 := by
  cases h

lemma lead_five (ds : List (Fin 10)) (h : Amount.number [5] = .number ds) : ds.head? ≠ some 0 := by
  cases h
  decide

lemma lead_three (ds : List (Fin 10)) (h : Amount.number [3] = .number ds) : ds.head? ≠ some 0 := by
  cases h
  decide

def signedInField : Conversion where
  flags := []
  width := .number [5]
  precision := .omitted
  length := .none
  kind := .d
  lead := lead_five

def leftString : Conversion where
  flags := [.minus]
  width := .number [3]
  precision := .omitted
  length := .none
  kind := .s
  lead := lead_three

def stringMem : Mem where
  bytes a := if a = 0x1000 then ascii 'h' else if a = 0x1001 then ascii 'i' else 0
  nullSegmentSize := 0x1000
  allocator := ⟨.empty, .empty⟩
  zeroMemoryOnFree := false
  nullWriteSink := fun _ => 0

def numberAndString : Args := ⟨fun i => if i = 0 then 0xFFFFFFD6 else 0x1000, 0⟩

lemma holds_short : HoldsBytes stringMem 0x1000 [ascii 'h', ascii 'i'] where
  notNull := by decide
  within := by decide
  bytes i hi := by
    simp only [List.length_cons, List.length_nil] at hi
    interval_cases i <;> rfl
  nonzero := by decide

def Deviates (c : Conversion) (args : Args) (v : Value) : Prop :=
  ∀ (h : Formatter) (m : Mem), Given m args [.conversion c v] ∧
    (printfInner h m (formatText [.conversion c v]) args).res ≠ formatOutput args [.conversion c v]

def oneWord (w : UInt32) : Args := ⟨fun _ => w, 0⟩

lemma loop_end {s : Output} : ∀ rounds, loop h rounds [] s = s := by
  intro rounds
  cases rounds with
  | zero => rfl
  | succ rounds =>
    change (if _ then s else s) = s
    split_ifs <;> rfl

lemma printfInner_single (h : Formatter) (m : Mem) {d : Directive} {fmt : List UInt8} {args args' : Args}
    {b : UInt8} (hread : readDirective fmt args = (d, [b], args')) (hmem : d.specifier ∈ allSpecifiers)
    (hpercent : d.specifier ≠ '%') :
    (printfInner h m (ascii '%' :: fmt) args).res = (convert h d ⟨m, args', []⟩).res := by
  have hnull : ascii '%' ≠ 0 := by decide
  have hfirst : ¬ asChar (ascii '%') ≠ '%' := by decide
  have htotal : ¬ maxTotalOutput ≤ ([] : List UInt8).length := by norm_num [maxTotalOutput]
  rw [printfInner, List.length_cons, loop, if_neg htotal]
  simp only [if_neg hnull, if_neg hfirst, hread, not_not.mpr hmem, if_false, if_neg hpercent,
    List.tail_cons, loop_end]

lemma convert_int (hspecifier : d.specifier = 'd') :
    (convert h d ⟨m, args, []⟩).res = d.applyIntPad (d.nextInt args).1 := by
  rw [convert, hspecifier]
  rfl

lemma deviates_int {i : ℤ} (hkind : c.kind = .d) (hdefined : c.Defined)
    (hvalue : i = signedBits c.length.bits (c.argument args).bits)
    (hread : (readDirective c.text.tail args).2.1 = [ascii 'd'])
    (hspecifier : (readDirective c.text.tail args).1.specifier = 'd')
    (hne : (readDirective c.text.tail args).1.applyIntPad ((readDirective c.text.tail args).1.nextInt
      (readDirective c.text.tail args).2.2).1 ≠ (c.field args).signed i) :
    Deviates c args (.int i) := by
  intro h m
  refine ⟨⟨⟨hdefined, .inl hkind, hvalue⟩, trivial⟩, ?_⟩
  have hprint := printfInner_single h m
    (show readDirective c.text.tail args = ((readDirective c.text.tail args).1, [ascii 'd'],
      (readDirective c.text.tail args).2.2) by rw [← hread]) (by rw [hspecifier]; decide) (by rw [hspecifier]; decide)
  have htext : formatText [.conversion c (.int i)] = ascii '%' :: c.text.tail :=
    List.append_nil _
  have houtput : formatOutput args [.conversion c (.int i)] = (c.field args).signed i :=
    List.append_nil _
  rw [htext, hprint, convert_int hspecifier, houtput]
  exact hne

lemma lead_tooWide (ds : List (Fin 10)) (h : Amount.number [1, 0, 4, 8, 5, 7, 7] = .number ds) :
    ds.head? ≠ some 0 := by
  cases h
  decide

def tooWide : Conversion where
  flags := []
  width := .number [1, 0, 4, 8, 5, 7, 7]
  precision := .omitted
  length := .none
  kind := .d
  lead := lead_tooWide

def signInField : Conversion where
  flags := [.plus]
  width := .number [5]
  precision := .omitted
  length := .none
  kind := .d
  lead := lead_five

def signAndDigits : Conversion where
  flags := []
  width := .omitted
  precision := .number [5]
  length := .none
  kind := .d
  lead := lead_omitted

def givenPrecision : Conversion where
  flags := []
  width := .omitted
  precision := .argument
  length := .none
  kind := .d
  lead := lead_omitted

def otherOrder : Conversion where
  flags := [.minus, .plus]
  width := .omitted
  precision := .omitted
  length := .none
  kind := .d
  lead := lead_omitted

lemma tooWide_deviates : Deviates tooWide (oneWord 0) (.int 0) := by
  apply deviates_int rfl (by decide) (by decide) (by decide) (by decide)
  have hcode : (readDirective tooWide.text.tail (oneWord 0)).1.applyIntPad 0 =
      fillLeft blank maxFieldWidth [zero] := rfl
  have hspec : (tooWide.field (oneWord 0)).signed 0 = fillLeft blank 1048577 [zero] := rfl
  have hvalue : ((readDirective tooWide.text.tail (oneWord 0)).1.nextInt
      (readDirective tooWide.text.tail (oneWord 0)).2.2).1 = 0 := by decide
  rw [hvalue, hcode, hspec]
  intro heq
  have hlength := congrArg List.length heq
  rw [fillLeft_length, fillLeft_length, List.length_singleton] at hlength
  norm_num [maxFieldWidth] at hlength

end TouchHle.Stdio
