import Mathlib

namespace TouchHle.Abi

structure Machine where
  regs : ℕ → UInt32
  mem : ℕ → UInt8

def sp : ℕ := 13
def lr : ℕ := 14
def framePointer : ℕ := 7

structure GuestArg where
  Value : Type
  regCount : ℕ
  fromRegs : List UInt32 → Value
  regCount_le : regCount ≤ 16

structure Arg where
  type : GuestArg
  value : type.Value

namespace Machine

def setReg (s : Machine) (r : ℕ) (w : UInt32) : Machine :=
  { s with regs := Function.update s.regs r w }

def byte (w : UInt32) (k : ℕ) : UInt8 := UInt8.ofNat (w.toNat / 256 ^ k)

def readU32 (s : Machine) (a : ℕ) : UInt32 :=
  UInt32.ofNat ((s.mem a).toNat + 256 * (s.mem (a + 1)).toNat + 65536 * (s.mem (a + 2)).toNat +
    16777216 * (s.mem (a + 3)).toNat)

def writeU32 (s : Machine) (a : ℕ) (w : UInt32) : Machine :=
  { s with mem := fun x => if a ≤ x ∧ x < a + 4 then byte w (x - a) else s.mem x }

def store (s : Machine) (a : ℕ) (bytes : List UInt8) : Machine :=
  { s with mem := fun x => if a ≤ x ∧ x < a + bytes.length then bytes.getD (x - a) 0 else s.mem x }

def slotAddr (stackPtr : UInt32) (o : ℕ) : ℕ := (stackPtr.toNat + 4 * (o - 4)) % 2 ^ 32

def slot (s : Machine) (stackPtr : UInt32) (o : ℕ) : UInt32 :=
  if o < 4 then s.regs o else s.readU32 (slotAddr stackPtr o)

def setSlot (s : Machine) (o : ℕ) (w : UInt32) : Machine :=
  if o < 4 then s.setReg o w else s.writeU32 (slotAddr (s.regs sp) o) w

def readSlots (s : Machine) (stackPtr : UInt32) : ℕ → ℕ → List UInt32
  | _, 0 => []
  | o, n + 1 => s.slot stackPtr o :: readSlots s stackPtr (o + 1) n

def readNextArg (s : Machine) (t : GuestArg) (regOffset : ℕ) (stackPtr : UInt32) : t.Value × ℕ :=
  (t.fromRegs (s.readSlots stackPtr regOffset t.regCount), regOffset + t.regCount)

def writeArgs (s : Machine) : ℕ → List UInt32 → Machine
  | _, [] => s
  | o, w :: ws => writeArgs (s.setSlot o w) (o + 1) ws

def extendStackForArgs (s : Machine) (regCountSum : ℕ) : Machine :=
  if 4 < regCountSum then s.setReg sp (s.regs sp - 4 * UInt32.ofNat (regCountSum - 4)) else s

def writeRegs (s : Machine) (ws : List UInt32) : Machine :=
  { s with regs := fun r => if r < ws.length then ws.getD r 0 else s.regs r }

end Machine

/-- What a host function returns: words for the first registers, or bytes for the memory that the
caller has set aside. -/
inductive Result
  | words (ws : List UInt32)
  | bytes (bs : List UInt8)

/-- A call that the host makes while it serves another one: the words of its arguments, and the
callee with all it does. -/
inductive Call
  | host (sizeInMem : Option ℕ) (args : List UInt32) (body : Machine → Machine × Result)
  | guest (args : List UInt32) (returnRoutine : UInt32) (body : Machine → Machine)

namespace Machine

def setAside (s : Machine) : Option ℕ → Machine
  | none => s
  | some size => (s.setReg sp (s.regs sp - UInt32.ofNat size)).setReg 0 (s.regs sp - UInt32.ofNat size)

def giveBack (s : Machine) : Option ℕ → Machine
  | none => s
  | some size => s.setReg sp (s.regs sp + UInt32.ofNat size)

def returned (s : Machine) (retvalPtr : UInt32) : Result → Machine
  | .words ws => s.writeRegs ws
  | .bytes bs => s.store retvalPtr.toNat bs

def callFromHost (s : Machine) : Call → Machine
  | .host sizeInMem args body =>
    let aside := s.setAside sizeInMem
    let oldSp := aside.regs sp
    let passed := (aside.extendStackForArgs args.length).writeArgs (if sizeInMem.isSome then 1 else 0) args
    let retvalPtr := passed.regs 0
    let (left, result) := body passed
    ((left.returned retvalPtr result).setReg sp oldSp).giveBack sizeInMem
  | .guest args returnRoutine body =>
    let oldSp := s.regs sp
    let oldFp := s.regs framePointer
    let oldLr := s.regs lr
    let frame := oldSp - 8
    let framed := (((s.setReg lr returnRoutine).setReg sp frame).setReg framePointer frame)
    let linked := (framed.writeU32 frame.toNat oldFp).writeU32 (frame + 4).toNat oldLr
    let passed := (linked.extendStackForArgs args.length).writeArgs 0 args
    (((body passed).setReg lr oldLr).setReg sp oldSp).setReg framePointer oldFp

end Machine

structure VaList where
  regOffset : ℕ
  stackPointer : UInt32

namespace VaList

def start (s : Machine) (sizeInMem : Option ℕ) (fixed : List GuestArg) : VaList :=
  ⟨(if sizeInMem.isSome then 1 else 0) + (fixed.map GuestArg.regCount).sum, s.regs sp⟩

def next (va : VaList) (s : Machine) (t : GuestArg) : Arg × VaList :=
  (⟨t, (s.readNextArg t va.regOffset va.stackPointer).1⟩,
    { va with regOffset := (s.readNextArg t va.regOffset va.stackPointer).2 })

end VaList

inductive Event
  | next (t : GuestArg)
  | call (c : Call)

def run (s : Machine) (va : VaList) : List Event → List Arg
  | [] => []
  | .next t :: events => (va.next s t).1 :: run s (va.next s t).2 events
  | .call c :: events => run (s.callFromHost c) va events

open Machine

structure Passed (s : Machine) (args : List UInt32) : Prop where
  slot : ∀ i w, args[i]? = some w → s.slot (s.regs sp) i = w
  inSpace : (s.regs sp).toNat + 4 * (args.length - 4) ≤ 2 ^ 32

def passedArgs (args : List UInt32) : ℕ → List GuestArg → List Arg
  | _, [] => []
  | o, t :: ts => ⟨t, t.fromRegs ((args.drop o).take t.regCount)⟩ :: passedArgs args (o + t.regCount) ts

def nexts : List Event → List GuestArg
  | [] => []
  | .next t :: events => t :: nexts events
  | .call _ :: events => nexts events

structure Gentle (va : VaList) (f : Machine → Machine) : Prop where
  regs : ∀ m i, va.regOffset ≤ i → i < 4 → (f m).regs i = m.regs i
  mem : ∀ m a, va.stackPointer.toNat ≤ a → (f m).mem a = m.mem a

def Result.Fits (va : VaList) (sizeInMem : Option ℕ) : Result → Prop
  | .words ws => sizeInMem = none ∧ (4 ≤ va.regOffset ∨ ws.length ≤ va.regOffset)
  | .bytes bs => sizeInMem = some bs.length

def implicitCount (sizeInMem : Option ℕ) : ℕ := if sizeInMem.isSome then 1 else 0

def Call.Spares (va : VaList) : Call → Prop
  | .host sizeInMem args body =>
    sizeInMem.getD 0 + 4 * (args.length - 4) ≤ va.stackPointer.toNat ∧ (∀ size ∈ sizeInMem, 4 ≤ size) ∧
      (4 ≤ va.regOffset ∨ implicitCount sizeInMem + args.length ≤ va.regOffset) ∧
        Gentle va (fun m => (body m).1) ∧ ∀ m, (body m).2.Fits va sizeInMem
  | .guest args _ body =>
    8 + 4 * (args.length - 4) ≤ va.stackPointer.toNat ∧
      (4 ≤ va.regOffset ∨ args.length ≤ va.regOffset) ∧ Gentle va body

def Meets (args : List UInt32) (s : Machine) (va : VaList) : List Event → Prop
  | [] => True
  | .next t :: events =>
    va.regOffset + t.regCount ≤ args.length ∧ Meets args s (va.next s t).2 events
  | .call c :: events => c.Spares va ∧ Meets args (s.callFromHost c) va events

structure Intact (first : Machine) (va : VaList) (s : Machine) : Prop where
  sp : s.regs sp = va.stackPointer
  regs : ∀ i, va.regOffset ≤ i → i < 4 → s.regs i = first.regs i
  mem : ∀ a, va.stackPointer.toNat ≤ a → s.mem a = first.mem a

lemma toNat_sub {p : UInt32} {n : ℕ} (h : n ≤ p.toNat) : (p - UInt32.ofNat n).toNat = p.toNat - n := by
  have hp := p.toNat_lt
  have hn : (UInt32.ofNat n).toNat = n := UInt32.toNat_ofNat_of_lt' (by
    change n < 2 ^ 32
    omega)
  rw [UInt32.toNat_sub_of_le _ _ (UInt32.le_iff_toNat_le.mpr (hn.le.trans h)), hn]

lemma four_mul (n : ℕ) : 4 * UInt32.ofNat n = UInt32.ofNat (4 * n) := by
  apply UInt32.toNat_inj.mp
  simp [UInt32.toNat_mul, UInt32.toNat_ofNat']

section

variable {s : Machine} {o r : ℕ} {w : UInt32} {ws : List UInt32}

@[simp] lemma setReg_regs_of_ne (h : r ≠ o) : (s.setReg o w).regs r = s.regs r := Function.update_of_ne h _ _

@[simp] lemma setReg_regs_self : (s.setReg o w).regs o = w := Function.update_self _ _ _

@[simp] lemma setReg_mem : (s.setReg o w).mem = s.mem := rfl

@[simp] lemma writeU32_regs {a : ℕ} : (s.writeU32 a w).regs = s.regs := rfl

lemma writeU32_mem {a b x : ℕ} (h : a + 4 ≤ b) (hx : b ≤ x) : (s.writeU32 a w).mem x = s.mem x :=
  if_neg (by omega)

lemma store_mem {a b x : ℕ} {bytes : List UInt8} (h : a + bytes.length ≤ b) (hx : b ≤ x) :
    (s.store a bytes).mem x = s.mem x := if_neg (by omega)

lemma setSlot_regs (h : r ≠ o ∨ 4 ≤ r) : (s.setSlot o w).regs r = s.regs r := by
  unfold setSlot
  split_ifs with ho
  · exact setReg_regs_of_ne (by omega)
  · rfl

lemma setSlot_mem {b x : ℕ} (h : 4 ≤ o → slotAddr (s.regs sp) o + 4 ≤ b) (hx : b ≤ x) :
    (s.setSlot o w).mem x = s.mem x := by
  unfold setSlot
  split_ifs with ho
  · rfl
  · exact writeU32_mem (h (by omega)) hx

lemma writeArgs_regs (h : r < o ∨ o + ws.length ≤ r ∨ 4 ≤ r) :
    (s.writeArgs o ws).regs r = s.regs r := by
  induction ws generalizing s o with
  | nil => rfl
  | cons w ws ih =>
    rw [List.length_cons] at h
    rw [writeArgs, ih (by omega)]
    exact setSlot_regs (by omega)

lemma writeArgs_mem {b x : ℕ}
    (h : ∀ i, i < o + ws.length → 4 ≤ i → slotAddr (s.regs sp) i + 4 ≤ b) (hx : b ≤ x) :
    (s.writeArgs o ws).mem x = s.mem x := by
  induction ws generalizing s o with
  | nil => rfl
  | cons w ws ih =>
    have hsp : (s.setSlot o w).regs sp = s.regs sp := setSlot_regs (.inr (by decide))
    rw [List.length_cons] at h
    rw [writeArgs, ih]
    · exact setSlot_mem (h o (by omega)) hx
    · intro i hi
      rw [hsp]
      exact h i (by omega)

lemma extendStackForArgs_regs (h : r ≠ sp) (n : ℕ) : (s.extendStackForArgs n).regs r = s.regs r := by
  unfold extendStackForArgs
  split_ifs
  · exact setReg_regs_of_ne h
  · rfl

@[simp] lemma extendStackForArgs_mem (n : ℕ) : (s.extendStackForArgs n).mem = s.mem := by
  unfold extendStackForArgs
  split_ifs <;> rfl

lemma extendStackForArgs_sp {n : ℕ} (h : 4 * (n - 4) ≤ (s.regs sp).toNat) :
    ((s.extendStackForArgs n).regs sp).toNat = (s.regs sp).toNat - 4 * (n - 4) := by
  unfold extendStackForArgs
  split_ifs with hn
  · rw [setReg_regs_self, four_mul, toNat_sub h]
  · have hnone : n - 4 = 0 := by omega
    rw [hnone]
    rfl

end

variable {s first : Machine} {va : VaList} {args : List UInt32}

lemma passed_mem {m : Machine} {o b x : ℕ} {ws : List UInt32} (hroom : 4 * (ws.length - 4) ≤ (m.regs sp).toNat)
    (hb : (m.regs sp).toNat + 4 * o ≤ b) (hx : b ≤ x) :
    ((m.extendStackForArgs ws.length).writeArgs o ws).mem x = m.mem x := by
  have hsp := extendStackForArgs_sp hroom
  rw [writeArgs_mem (b := b) ?_ hx, extendStackForArgs_mem]
  intro i hi hfour
  have hle : slotAddr ((m.extendStackForArgs ws.length).regs sp) i ≤
      ((m.extendStackForArgs ws.length).regs sp).toNat + 4 * (i - 4) := Nat.mod_le _ _
  rw [hsp] at hle
  omega

section

variable {sizeInMem : Option ℕ}

lemma setAside_sp (h : sizeInMem.getD 0 ≤ (s.regs sp).toNat) :
    ((s.setAside sizeInMem).regs sp).toNat = (s.regs sp).toNat - sizeInMem.getD 0 := by
  cases sizeInMem with
  | none => rfl
  | some size =>
    unfold setAside
    rw [setReg_regs_of_ne (by decide), setReg_regs_self]
    exact toNat_sub h

lemma setAside_pointer {size : ℕ} (h : size ≤ (s.regs sp).toNat) :
    ((s.setAside (some size)).regs 0).toNat = (s.regs sp).toNat - size := by
  unfold setAside
  rw [setReg_regs_self, toNat_sub h]

lemma setAside_regs {i : ℕ} (hi : implicitCount sizeInMem ≤ i) (hsp : i ≠ sp) :
    (s.setAside sizeInMem).regs i = s.regs i := by
  cases sizeInMem with
  | none => rfl
  | some size =>
    have hpos : 1 ≤ i := hi
    unfold setAside
    rw [setReg_regs_of_ne (by omega), setReg_regs_of_ne hsp]

@[simp] lemma setAside_mem : (s.setAside sizeInMem).mem = s.mem := by
  cases sizeInMem <;> rfl

@[simp] lemma giveBack_mem : (s.giveBack sizeInMem).mem = s.mem := by
  cases sizeInMem <;> rfl

lemma giveBack_regs {i : ℕ} (hsp : i ≠ sp) : (s.giveBack sizeInMem).regs i = s.regs i := by
  cases sizeInMem with
  | none => rfl
  | some size => exact setReg_regs_of_ne hsp

lemma giveBack_sp (m : Machine) :
    ((m.setReg sp ((s.setAside sizeInMem).regs sp)).giveBack sizeInMem).regs sp = s.regs sp := by
  cases sizeInMem with
  | none => exact setReg_regs_self
  | some size =>
    unfold giveBack setAside
    rw [setReg_regs_self, setReg_regs_self, setReg_regs_of_ne (by decide), setReg_regs_self,
      sub_add_cancel]

end

lemma returned_regs {m : Machine} {ptr : UInt32} {result : Result} {sizeInMem : Option ℕ} {i : ℕ}
    (h : result.Fits va sizeInMem) (hi : va.regOffset ≤ i) (hfour : i < 4) :
    (m.returned ptr result).regs i = m.regs i := by
  cases result with
  | words ws =>
    obtain ⟨-, hlength⟩ := h
    exact if_neg (by omega)
  | bytes bs => rfl

lemma returned_mem {m : Machine} {ptr : UInt32} {result : Result} {sizeInMem : Option ℕ} {b x : ℕ}
    (h : result.Fits va sizeInMem) (hptr : ∀ size, sizeInMem = some size → ptr.toNat + size ≤ b)
    (hx : b ≤ x) : (m.returned ptr result).mem x = m.mem x := by
  cases result with
  | words ws => rfl
  | bytes bs => exact store_mem (hptr bs.length h) hx

lemma callFromHost_intact {c : Call} (h : Intact first va s) (hc : c.Spares va) :
    Intact first va (s.callFromHost c) := by
  have hsp := h.sp
  cases c with
  | guest ws returnRoutine body =>
    obtain ⟨hroom, hwords, hgentle⟩ := hc
    have hframe : (s.regs sp - 8).toNat = (s.regs sp).toNat - 8 :=
      toNat_sub (n := 8) (by rw [hsp]; omega)
    have hlink : (s.regs sp - 8 + 4).toNat = (s.regs sp).toNat - 4 := by
      have hp := (s.regs sp).toNat_lt
      rw [UInt32.toNat_add, hframe]
      change ((s.regs sp).toNat - 8 + 4) % 2 ^ 32 = _
      rw [hsp] at hp ⊢
      omega
    rw [← hsp] at hroom
    refine ⟨?_, fun i hi hfour => ?_, fun a ha => ?_⟩
    · simp only [callFromHost]
      rw [setReg_regs_of_ne (by decide), setReg_regs_self, hsp]
    · rw [← h.regs i hi hfour]
      simp only [callFromHost]
      rw [setReg_regs_of_ne (by unfold framePointer; omega), setReg_regs_of_ne (by unfold sp; omega),
        setReg_regs_of_ne (by unfold lr; omega), hgentle.regs _ i hi hfour,
        writeArgs_regs (.inr (.inl (by omega))), extendStackForArgs_regs (by unfold sp; omega)]
      simp only [writeU32_regs]
      rw [setReg_regs_of_ne (by unfold framePointer; omega), setReg_regs_of_ne (by unfold sp; omega),
        setReg_regs_of_ne (by unfold lr; omega)]
    · rw [← h.mem a ha]
      rw [← hsp] at ha
      simp only [callFromHost, setReg_mem]
      rw [hgentle.mem _ a (hsp ▸ ha), passed_mem (b := (s.regs sp).toNat) ?_ ?_ ha,
        writeU32_mem (b := (s.regs sp).toNat) (by rw [hlink]; omega) ha,
        writeU32_mem (b := (s.regs sp).toNat) (by rw [hframe]; omega) ha]
      · rfl
      · simp only [writeU32_regs]
        rw [setReg_regs_of_ne (by decide), setReg_regs_self, hframe]
        omega
      · simp only [writeU32_regs]
        rw [setReg_regs_of_ne (by decide), setReg_regs_self, hframe]
        omega
  | host sizeInMem ws body =>
    obtain ⟨hroom, hsize, hwords, hgentle, hfits⟩ := hc
    rw [← hsp] at hroom
    have haside : ((s.setAside sizeInMem).regs sp).toNat = (s.regs sp).toNat - sizeInMem.getD 0 :=
      setAside_sp (by omega)
    obtain ⟨passed, hpassed⟩ : ∃ m, m = ((s.setAside sizeInMem).extendStackForArgs ws.length).writeArgs
        (implicitCount sizeInMem) ws := ⟨_, rfl⟩
    have hcall : s.callFromHost (.host sizeInMem ws body) =
        (((body passed).1.returned (passed.regs 0) (body passed).2).setReg sp
          ((s.setAside sizeInMem).regs sp)).giveBack sizeInMem := by
      rw [hpassed]
      rfl
    have hpointer : ∀ size, sizeInMem = some size →
        (passed.regs 0).toNat + size ≤ (s.regs sp).toNat := by
      rintro size rfl
      have hle : size ≤ (s.regs sp).toNat := (Nat.le_add_right _ _).trans hroom
      have hone : implicitCount (some size) = 1 := rfl
      rw [hpassed, hone, writeArgs_regs (.inl Nat.zero_lt_one), extendStackForArgs_regs (by decide),
        setAside_pointer hle]
      omega
    rw [hcall]
    refine ⟨?_, fun i hi hfour => ?_, fun a ha => ?_⟩
    · rw [giveBack_sp, hsp]
    · have hne : i ≠ sp := by unfold sp; omega
      have hcount : implicitCount sizeInMem + ws.length ≤ i := by omega
      rw [← h.regs i hi hfour, giveBack_regs hne, setReg_regs_of_ne hne,
        returned_regs (hfits passed) hi hfour, hgentle.regs _ i hi hfour, hpassed,
        writeArgs_regs (.inr (.inl hcount)), extendStackForArgs_regs hne,
        setAside_regs (by omega) hne]
    · rw [← h.mem a ha]
      rw [← hsp] at ha
      have hbelow : ((s.setAside sizeInMem).regs sp).toNat + 4 * implicitCount sizeInMem ≤
          (s.regs sp).toNat := by
        rw [haside]
        cases sizeInMem with
        | none => exact Nat.le_refl _
        | some size =>
          have hfourBytes := hsize size rfl
          change size + _ ≤ _ at hroom
          change (s.regs sp).toNat - size + 4 * 1 ≤ _
          omega
      rw [giveBack_mem, setReg_mem, returned_mem (hfits passed) hpointer ha,
        hgentle.mem _ a (hsp ▸ ha), hpassed, passed_mem (by rw [haside]; omega) hbelow ha, setAside_mem]

lemma readU32_congr {m m' : Machine} {a : ℕ} (h : ∀ k, k < 4 → m.mem (a + k) = m'.mem (a + k)) :
    m.readU32 a = m'.readU32 a := by
  have h0 := h 0 (by decide)
  unfold readU32
  rw [Nat.add_zero] at h0
  rw [h0, h 1 (by decide), h 2 (by decide), h 3 (by decide)]

lemma slot_intact (hpassed : Passed first args) (h : Intact first va s)
    (hva : va.stackPointer = first.regs sp) {i : ℕ} {w : UInt32} (hi : va.regOffset ≤ i)
    (hw : args[i]? = some w) : s.slot va.stackPointer i = w := by
  rw [← hpassed.slot i w hw, hva]
  have hlt := (List.getElem?_eq_some_iff.mp hw).1
  have hspace := hpassed.inSpace
  unfold slot
  split_ifs with hfour
  · exact h.regs i hi hfour
  · have haddr : slotAddr (first.regs sp) i = (first.regs sp).toNat + 4 * (i - 4) :=
      Nat.mod_eq_of_lt (by omega)
    apply readU32_congr
    intro k _
    refine h.mem _ ?_
    rw [hva, haddr]
    omega

lemma readSlots_intact (hpassed : Passed first args) (h : Intact first va s)
    (hva : va.stackPointer = first.regs sp) {o n : ℕ} (ho : va.regOffset ≤ o)
    (hn : o + n ≤ args.length) : s.readSlots va.stackPointer o n = (args.drop o).take n := by
  induction n generalizing o with
  | zero => simp [readSlots]
  | succ n ih =>
    have hlt : o < args.length := by omega
    have hw : args[o]? = some args[o] := List.getElem?_eq_getElem hlt
    rw [readSlots, slot_intact hpassed h hva ho hw, ih (by omega) (by omega),
      List.drop_eq_getElem_cons hlt, List.take_succ_cons]

lemma run_intact (hpassed : Passed first args) (h : Intact first va s)
    (hva : va.stackPointer = first.regs sp) {events : List Event} (hmeets : Meets args s va events) :
    run s va events = passedArgs args va.regOffset (nexts events) := by
  induction events generalizing s va with
  | nil => rfl
  | cons e events ih =>
    cases e with
    | next t =>
      obtain ⟨hlength, hmeets⟩ := hmeets
      have hread := readSlots_intact hpassed h hva le_rfl hlength
      have hkept : Intact first (va.next s t).2 s :=
        ⟨h.sp, fun i hi => h.regs i ((Nat.le_add_right _ _).trans hi), h.mem⟩
      rw [run, ih hkept hva hmeets, nexts, passedArgs]
      unfold VaList.next readNextArg
      rw [hread]
    | call c =>
      obtain ⟨hspares, hmeets⟩ := hmeets
      rw [run, ih (callFromHost_intact h hspares) hva hmeets, nexts]

/-- In every run whose calls spare the arguments that are still to be read, each argument read is the
one that was passed. -/
theorem run_reads_passed {s : Machine} {args : List UInt32} (hpassed : Passed s args)
    (sizeInMem : Option ℕ) (fixed : List GuestArg) {events : List Event}
    (hmeets : Meets args s (VaList.start s sizeInMem fixed) events) :
    run s (VaList.start s sizeInMem fixed) events =
      passedArgs args (VaList.start s sizeInMem fixed).regOffset (nexts events) :=
  run_intact hpassed ⟨rfl, fun _ _ _ => rfl, fun _ _ => rfl⟩ rfl hmeets

def GuestArg.u32 : GuestArg where
  Value := UInt32
  regCount := 1
  fromRegs ws := ws.getD 0 0
  regCount_le := Nat.le_add_left 1 15

def logCall : Machine where
  regs r := if r = 0 then 100 else if r = 1 then 200 else if r = 2 then 7 else if r = sp then 4096 else 0
  mem _ := 0

lemma logCall_passed : Passed logCall [100, 200, 7] := by
  constructor
  · intro i w hw
    obtain ⟨hi, rfl⟩ := List.getElem?_eq_some_iff.mp hw
    have hcases : i = 0 ∨ i = 1 ∨ i = 2 := by
      simp only [List.length_cons, List.length_nil] at hi
      omega
    obtain rfl | rfl | rfl := hcases <;> rfl
  · decide

theorem run_reads_passed_logCall :
    Meets [100, 200, 7] logCall (VaList.start logCall none [.u32])
      [.next .u32, .call (.guest [200, 300] 0 fun m => m), .next .u32] ∧
    run logCall (VaList.start logCall none [.u32])
      [.next .u32, .call (.guest [200, 300] 0 fun m => m), .next .u32] =
        passedArgs [100, 200, 7] 1 [.u32, .u32] := by
  have hmeets : Meets [100, 200, 7] logCall (VaList.start logCall none [.u32])
      [.next .u32, .call (.guest [200, 300] 0 fun m => m), .next .u32] :=
    ⟨by decide, ⟨by decide, .inr (by decide), ⟨fun _ _ _ _ => rfl, fun _ _ _ => rfl⟩⟩, by decide, trivial⟩
  exact ⟨hmeets, run_reads_passed logCall_passed none [.u32] hmeets⟩

theorem description_changes_number :
    Passed logCall [100, 200, 7] ∧
    run logCall (VaList.start logCall none [.u32])
      [.next .u32, .call (.guest [200, 300] 0 fun m => m.setReg 2 5), .next .u32] =
        [⟨.u32, (200 : UInt32)⟩, ⟨.u32, (5 : UInt32)⟩] ∧
    passedArgs [100, 200, 7] 1 [.u32, .u32] = [⟨.u32, (200 : UInt32)⟩, ⟨.u32, (7 : UInt32)⟩] ∧
    run logCall (VaList.start logCall none [.u32])
      [.next .u32, .call (.guest [200, 300] 0 fun m => m.setReg 2 5), .next .u32] ≠
        passedArgs [100, 200, 7] 1 [.u32, .u32] := by
  have hrun : run logCall (VaList.start logCall none [.u32])
      [.next .u32, .call (.guest [200, 300] 0 fun m => m.setReg 2 5), .next .u32] =
        [⟨.u32, (200 : UInt32)⟩, ⟨.u32, (5 : UInt32)⟩] := rfl
  refine ⟨logCall_passed, hrun, rfl, fun hsame => ?_⟩
  have hlists : ([⟨.u32, (200 : UInt32)⟩, ⟨.u32, (5 : UInt32)⟩] : List Arg) =
      [⟨.u32, (200 : UInt32)⟩, ⟨.u32, (7 : UInt32)⟩] := hrun.symm.trans hsame
  have hargs := (List.cons.inj (List.cons.inj hlists).2).1
  have hvalues : (5 : UInt32) = 7 := eq_of_heq (Arg.mk.inj hargs).2
  exact absurd hvalues (by decide)

end TouchHle.Abi
