import TouchHle.Abi.Convention

namespace TouchHle.Abi

open Machine List

structure ArgType extends GuestArg where
  toRegs : Value → List UInt32
  length_toRegs : ∀ v, (toRegs v).length = regCount

structure HostArg where
  type : ArgType
  value : type.Value

def HostArg.words (a : HostArg) : List UInt32 := a.type.toRegs a.value

def HostArg.asArg (a : HostArg) : Arg := ⟨a.type.toGuestArg, a.value⟩

def HostArg.Survives (a : HostArg) : Prop := a.type.fromRegs a.words = a.value

def readArgs (s : Machine) : ℕ → List ArgType → List Arg
  | _, [] => []
  | o, t :: ts =>
    ⟨t.toGuestArg, (s.readNextArg t.toGuestArg o (s.regs sp)).1⟩ ::
      readArgs s (s.readNextArg t.toGuestArg o (s.regs sp)).2 ts

lemma byte_toNat (w : UInt32) (k : ℕ) : (byte w k).toNat = w.toNat / 256 ^ k % 256 := by
  unfold byte
  simp [UInt8.toNat_ofNat']

lemma readU32_writeU32 (s : Machine) (a : ℕ) (w : UInt32) : (s.writeU32 a w).readU32 a = w := by
  have hmem : ∀ k, k < 4 → ((s.writeU32 a w).mem (a + k)).toNat = w.toNat / 256 ^ k % 256 := by
    intro k hk
    have hwrite : (s.writeU32 a w).mem (a + k) = byte w (a + k - a) := if_pos (by omega)
    rw [hwrite, byte_toNat, Nat.add_sub_cancel_left]
  have hlt := w.toNat_lt
  have h0 := hmem 0 (by decide)
  rw [add_zero] at h0
  unfold readU32
  rw [h0, hmem 1 (by decide), hmem 2 (by decide), hmem 3 (by decide)]
  apply UInt32.toNat_inj.mp
  rw [UInt32.toNat_ofNat']
  norm_num
  omega

lemma readU32_writeU32_of_disjoint {s : Machine} {a b : ℕ} {w : UInt32} (h : a + 4 ≤ b ∨ b + 4 ≤ a) :
    (s.writeU32 b w).readU32 a = s.readU32 a := by
  apply readU32_congr
  intro k hk
  exact if_neg (by omega)

def Fits (s : Machine) (n : ℕ) : Prop := (s.regs sp).toNat + 4 * (n - 4) ≤ 2 ^ 32

lemma slotAddr_eq {s : Machine} {n o : ℕ} (h : Fits s n) (ho : o < n) (hfour : 4 ≤ o) :
    slotAddr (s.regs sp) o = (s.regs sp).toNat + 4 * (o - 4) := by
  unfold Fits at h
  exact Nat.mod_eq_of_lt (by omega)

lemma slot_setSlot_self {s : Machine} {o : ℕ} {w : UInt32} :
    (s.setSlot o w).slot (s.regs sp) o = w := by
  unfold slot setSlot
  split_ifs
  · exact setReg_regs_self
  · exact readU32_writeU32 _ _ _

lemma slot_setSlot_of_ne {s : Machine} {n o i : ℕ} {w : UInt32} (h : Fits s n) (ho : o < n)
    (hi : i < n) (hne : i ≠ o) : (s.setSlot o w).slot (s.regs sp) i = s.slot (s.regs sp) i := by
  unfold slot
  split_ifs with hfour
  · exact setSlot_regs (.inl hne)
  · unfold setSlot
    split_ifs with ho4
    · rfl
    · apply readU32_writeU32_of_disjoint
      rw [slotAddr_eq h hi (by omega), slotAddr_eq h ho (by omega)]
      omega

lemma writeArgs_sp (s : Machine) (o : ℕ) (ws : List UInt32) : (s.writeArgs o ws).regs sp = s.regs sp :=
  writeArgs_regs (.inr (.inr (by decide)))

lemma slot_writeArgs_before {s : Machine} {n o i : ℕ} {ws : List UInt32} (h : Fits s n)
    (hn : o + ws.length ≤ n) (hi : i < o) (hin : i < n) :
    (s.writeArgs o ws).slot (s.regs sp) i = s.slot (s.regs sp) i := by
  induction ws generalizing s o with
  | nil => rfl
  | cons w ws ih =>
    rw [length_cons] at hn
    have hsp : (s.setSlot o w).regs sp = s.regs sp := setSlot_regs (.inr (by decide))
    have hfits : Fits (s.setSlot o w) n := by
      unfold Fits
      rw [hsp]
      exact h
    have hrest := ih hfits (by omega) (show i < o + 1 by omega)
    rw [hsp] at hrest
    rw [writeArgs, hrest, slot_setSlot_of_ne h (by omega) hin (by omega)]

lemma readSlots_writeArgs {s : Machine} {n o : ℕ} {ws : List UInt32} (h : Fits s n)
    (hn : o + ws.length ≤ n) : (s.writeArgs o ws).readSlots (s.regs sp) o ws.length = ws := by
  induction ws generalizing s o with
  | nil => rfl
  | cons w ws ih =>
    rw [length_cons] at hn
    have hsp : (s.setSlot o w).regs sp = s.regs sp := setSlot_regs (.inr (by decide))
    have hfits : Fits (s.setSlot o w) n := by
      unfold Fits
      rw [hsp]
      exact h
    have hfirst : ((s.setSlot o w).writeArgs (o + 1) ws).slot ((s.setSlot o w).regs sp) o =
        (s.setSlot o w).slot ((s.setSlot o w).regs sp) o :=
      slot_writeArgs_before hfits (by omega) (Nat.lt_succ_self o) (by omega)
    have hrest := ih hfits (show o + 1 + ws.length ≤ n by omega)
    rw [hsp] at hfirst hrest
    rw [length_cons, readSlots, writeArgs, hfirst, slot_setSlot_self, hrest]

lemma readSlots_append (s : Machine) (p : UInt32) (o m n : ℕ) :
    s.readSlots p o (m + n) = s.readSlots p o m ++ s.readSlots p (o + m) n := by
  induction m generalizing o with
  | zero => simp [readSlots]
  | succ m ih =>
    rw [Nat.succ_add, readSlots, readSlots, ih, cons_append, add_assoc, add_comm 1 m]

lemma readArgs_eq {s : Machine} {args : List HostArg} {o : ℕ}
    (hwords : s.readSlots (s.regs sp) o (args.flatMap HostArg.words).length =
      args.flatMap HostArg.words) (hsurvive : ∀ a ∈ args, a.Survives) :
    readArgs s o (args.map HostArg.type) = args.map HostArg.asArg := by
  induction args generalizing o with
  | nil => rfl
  | cons a args ih =>
    have hcount : a.words.length = a.type.regCount := a.type.length_toRegs a.value
    rw [flatMap_cons, length_append, readSlots_append] at hwords
    have hlength : (s.readSlots (s.regs sp) o a.words.length).length = a.words.length := by
      have hall : ∀ n o, (s.readSlots (s.regs sp) o n).length = n := by
        intro n
        induction n with
        | zero => exact fun _ => rfl
        | succ n ih => exact fun o => by rw [readSlots, length_cons, ih]
      exact hall _ _
    obtain ⟨hfirst, hrest⟩ := append_inj hwords hlength
    rw [hcount] at hfirst hrest
    have hvalue : a.type.fromRegs a.words = a.value := hsurvive a mem_cons_self
    rw [map_cons, map_cons, readArgs]
    unfold readNextArg
    rw [hfirst, hvalue, ih hrest fun b hb => hsurvive b (mem_cons_of_mem a hb)]
    rfl

structure RetType where
  Value : Type
  sizeInMem : Option ℕ
  toResult : Value → Result
  fromRegs : (ℕ → UInt32) → Value
  fromMem : List UInt8 → Value

def RetType.Survives (ret : RetType) (v : ret.Value) : Prop :=
  match ret.toResult v with
  | .words ws => ret.sizeInMem = none ∧ ws.length ≤ 4 ∧
      ∀ regs : ℕ → UInt32, (∀ i w, ws[i]? = some w → regs i = w) → ret.fromRegs regs = v
  | .bytes bs => ret.sizeInMem = some bs.length ∧ ret.fromMem bs = v

def Machine.load (s : Machine) (a n : ℕ) : List UInt8 := (List.range n).map fun k => s.mem (a + k)

abbrev HostFunction (ret : RetType) := List Arg → Machine → Machine × ret.Value

def serve (ret : RetType) (f : HostFunction ret) (types : List ArgType) (m : Machine) :
    Machine × Result :=
  let args := readArgs m (if ret.sizeInMem.isSome then 1 else 0) types
  ((f args m).1, ret.toResult (f args m).2)

def callHostFunction (s : Machine) (ret : RetType) (f : HostFunction ret) (args : List HostArg) :
    ret.Value × Machine :=
  let left := s.callFromHost (.host ret.sizeInMem (args.flatMap HostArg.words)
    (serve ret f (args.map HostArg.type)))
  match ret.sizeInMem with
  | some size => (ret.fromMem (left.load ((s.setAside (some size)).regs sp).toNat size), left)
  | none => (ret.fromRegs left.regs, left)

def entry (s : Machine) (ret : RetType) (args : List HostArg) : Machine :=
  ((s.setAside ret.sizeInMem).extendStackForArgs (args.flatMap HostArg.words).length).writeArgs
    (implicitCount ret.sizeInMem) (args.flatMap HostArg.words)

/-- The function gets the arguments and gives its result, the stack pointer is as before, and what is
on the stack is left to the function. -/
structure RoundTrip (s : Machine) (ret : RetType) (f : HostFunction ret) (args : List HostArg) :
    Prop where
  delivered : readArgs (entry s ret args) (implicitCount ret.sizeInMem) (args.map HostArg.type) =
    args.map HostArg.asArg
  result : (callHostFunction s ret f args).1 = (f (args.map HostArg.asArg) (entry s ret args)).2
  stackPointer : (callHostFunction s ret f args).2.regs sp = s.regs sp
  before : ∀ a, (s.regs sp).toNat ≤ a → (entry s ret args).mem a = s.mem a
  after : ∀ a, (s.regs sp).toNat ≤ a → (callHostFunction s ret f args).2.mem a =
    (f (args.map HostArg.asArg) (entry s ret args)).1.mem a

structure Room (s : Machine) (ret : RetType) (args : List HostArg) : Prop where
  size : ∀ size ∈ ret.sizeInMem, 4 ≤ size
  below : ret.sizeInMem.getD 0 + 4 * ((args.flatMap HostArg.words).length - 4) ≤ (s.regs sp).toNat

section

variable {s : Machine} {ret : RetType} {f : HostFunction ret} {args : List HostArg}

lemma aside_below (h : Room s ret args) :
    ((s.setAside ret.sizeInMem).regs sp).toNat + 4 * implicitCount ret.sizeInMem ≤ (s.regs sp).toNat := by
  have hbelow := h.below
  rw [setAside_sp (by omega)]
  cases hsize : ret.sizeInMem with
  | none => exact le_refl _
  | some size =>
    have hfour := h.size size hsize
    rw [hsize] at hbelow
    change size + _ ≤ _ at hbelow
    change (s.regs sp).toNat - size + 4 * 1 ≤ _
    omega

lemma aside_room (h : Room s ret args) :
    4 * ((args.flatMap HostArg.words).length - 4) ≤ ((s.setAside ret.sizeInMem).regs sp).toNat := by
  have hbelow := h.below
  rw [setAside_sp (by omega)]
  omega

lemma entry_mem (h : Room s ret args) {a : ℕ} (ha : (s.regs sp).toNat ≤ a) :
    (entry s ret args).mem a = s.mem a := by
  unfold entry
  rw [passed_mem (aside_room h) (aside_below h) ha, setAside_mem]

lemma entry_delivers (h : Room s ret args) (hsurvive : ∀ a ∈ args, a.Survives) :
    readArgs (entry s ret args) (implicitCount ret.sizeInMem) (args.map HostArg.type) =
      args.map HostArg.asArg := by
  refine readArgs_eq ?_ hsurvive
  have hfits : Fits ((s.setAside ret.sizeInMem).extendStackForArgs (args.flatMap HostArg.words).length)
      (implicitCount ret.sizeInMem + (args.flatMap HostArg.words).length) := by
    unfold Fits
    have hsp := extendStackForArgs_sp (aside_room h)
    have hbelow := aside_below h
    have hlt := (s.regs sp).toNat_lt
    have hroom := aside_room h
    rw [hsp]
    omega
  unfold entry
  rw [writeArgs_sp]
  exact readSlots_writeArgs hfits le_rfl

lemma callHostFunction_machine :
    (callHostFunction s ret f args).2 = s.callFromHost (.host ret.sizeInMem (args.flatMap HostArg.words)
      (serve ret f (args.map HostArg.type))) := by
  unfold callHostFunction
  dsimp only
  split <;> rfl

lemma callFromHost_served (hdelivered : readArgs (entry s ret args) (implicitCount ret.sizeInMem)
      (args.map HostArg.type) = args.map HostArg.asArg) :
    s.callFromHost (.host ret.sizeInMem (args.flatMap HostArg.words)
      (serve ret f (args.map HostArg.type))) =
      (((f (args.map HostArg.asArg) (entry s ret args)).1.returned ((entry s ret args).regs 0)
        (ret.toResult (f (args.map HostArg.asArg) (entry s ret args)).2)).setReg sp
          ((s.setAside ret.sizeInMem).regs sp)).giveBack ret.sizeInMem := by
  have hserve : serve ret f (args.map HostArg.type) (entry s ret args) =
      ((f (args.map HostArg.asArg) (entry s ret args)).1,
        ret.toResult (f (args.map HostArg.asArg) (entry s ret args)).2) := by
    unfold serve
    change ((f (readArgs _ (implicitCount ret.sizeInMem) _) _).1, _) = _
    rw [hdelivered]
    change (_, ret.toResult (f (readArgs _ (implicitCount ret.sizeInMem) _) _).2) = _
    rw [hdelivered]
  change (((serve ret f (args.map HostArg.type) (entry s ret args)).1.returned _
    (serve ret f (args.map HostArg.type) (entry s ret args)).2).setReg sp _).giveBack _ = _
  rw [hserve]
  rfl

lemma value_of_none (h : ret.sizeInMem = none) : (callHostFunction s ret f args).1 =
    ret.fromRegs (callHostFunction s ret f args).2.regs := by
  unfold callHostFunction
  dsimp only
  split
  · rename_i size hsize
    rw [h] at hsize
    cases hsize
  · rfl

lemma value_of_some {size : ℕ} (h : ret.sizeInMem = some size) : (callHostFunction s ret f args).1 =
    ret.fromMem ((callHostFunction s ret f args).2.load
      ((s.setAside (some size)).regs sp).toNat size) := by
  unfold callHostFunction
  dsimp only
  split
  · rename_i size' hsize
    obtain rfl := Option.some.inj (h.symm.trans hsize)
    rfl
  · rename_i hsize
    rw [h] at hsize
    cases hsize

lemma load_store (m : Machine) (a : ℕ) (bs : List UInt8) : (m.store a bs).load a bs.length = bs := by
  have hmem : ∀ k, k < bs.length → (m.store a bs).mem (a + k) = bs.getD (a + k - a) 0 :=
    fun k hk => if_pos ⟨Nat.le_add_right a k, by omega⟩
  unfold load
  apply ext_getElem
  · rw [length_map, length_range]
  · intro k hk hk'
    rw [getElem_map, getElem_range, hmem k hk', Nat.add_sub_cancel_left,
      getD_eq_getElem _ _ hk']

lemma entry_pointer {size : ℕ} (h : Room s ret args) (hsize : ret.sizeInMem = some size) :
    ((entry s ret args).regs 0).toNat = ((s.setAside (some size)).regs sp).toNat := by
  have hbelow := h.below
  rw [hsize] at hbelow
  change size + _ ≤ _ at hbelow
  have hone : implicitCount (some size) = 1 := rfl
  have hle : size ≤ (s.regs sp).toNat := by omega
  have haside : ((s.setAside (some size)).regs sp).toNat = (s.regs sp).toNat - size :=
    setAside_sp (show (some size).getD 0 ≤ (s.regs sp).toNat from hle)
  unfold entry
  rw [hsize, hone, writeArgs_regs (.inl Nat.zero_lt_one), extendStackForArgs_regs (by decide),
    setAside_pointer hle, haside]

lemma roundTrip (h : Room s ret args) (hargs : ∀ a ∈ args, a.Survives)
    (hret : ∀ v, ret.Survives v) : RoundTrip s ret f args := by
  have hdelivered := entry_delivers h hargs
  have hserved : (callHostFunction s ret f args).2 = _ :=
    callHostFunction_machine.trans (callFromHost_served hdelivered)
  have hvalue := hret (f (args.map HostArg.asArg) (entry s ret args)).2
  refine ⟨hdelivered, ?_, ?_, fun a ha => entry_mem h ha, fun a ha => ?_⟩
  · unfold RetType.Survives at hvalue
    cases hresult : ret.toResult (f (args.map HostArg.asArg) (entry s ret args)).2 with
    | words ws =>
      rw [hresult] at hvalue hserved
      obtain ⟨hnone, hlength, hread⟩ := hvalue
      rw [value_of_none hnone, hserved, hnone]
      apply hread
      intro i w hw
      obtain ⟨hi, rfl⟩ := List.getElem?_eq_some_iff.mp hw
      have hne : i ≠ sp := by unfold sp; omega
      rw [giveBack_regs hne, setReg_regs_of_ne hne]
      change (if i < ws.length then ws.getD i 0 else _) = _
      rw [if_pos hi, getD_eq_getElem _ _ hi]
    | bytes bs =>
      rw [hresult] at hvalue hserved
      obtain ⟨hsize, hread⟩ := hvalue
      have hload : (callHostFunction s ret f args).2.load
          ((s.setAside (some bs.length)).regs sp).toNat bs.length = bs := by
        have hmem : (callHostFunction s ret f args).2.mem =
            ((f (args.map HostArg.asArg) (entry s ret args)).1.store
              ((s.setAside (some bs.length)).regs sp).toNat bs).mem := by
          rw [hserved, giveBack_mem, setReg_mem, ← entry_pointer h hsize]
          rfl
        have hstored := load_store (f (args.map HostArg.asArg) (entry s ret args)).1
          ((s.setAside (some bs.length)).regs sp).toNat bs
        unfold load at hstored ⊢
        rw [hmem]
        exact hstored
      rw [value_of_some hsize, hload, hread]
  · rw [hserved, giveBack_sp]
  · rw [hserved, giveBack_mem, setReg_mem]
    cases hresult : ret.toResult (f (args.map HostArg.asArg) (entry s ret args)).2 with
    | words ws => rfl
    | bytes bs =>
      unfold RetType.Survives at hvalue
      rw [hresult] at hvalue
      obtain ⟨hsize, -⟩ := hvalue
      have hbelow := h.below
      rw [hsize] at hbelow
      change bs.length + _ ≤ _ at hbelow
      have hle : bs.length ≤ (s.regs sp).toNat := by omega
      have hpointer := entry_pointer h hsize
      have haside := setAside_sp (s := s) (show (some bs.length).getD 0 ≤ (s.regs sp).toNat from hle)
      change _ = _ - bs.length at haside
      exact store_mem (show ((entry s ret args).regs 0).toNat + bs.length ≤ (s.regs sp).toNat by
        rw [hpointer, haside]
        omega) ha

end

inductive Kind
  | u32 | i32 | u16 | i16 | u8 | i8 | usize | bool | f32 | ptr | guestFunction | vaList | u64 | i64 | f64
  deriving DecidableEq

section

variable {α : Type}

lemma word_fits : 1 ≤ 16 := Nat.le_add_left 1 15

def ArgType.word (ofWord : UInt32 → α) (toWord : α → UInt32) : ArgType where
  Value := α
  regCount := 1
  fromRegs ws := ofWord (ws.getD 0 0)
  regCount_le := word_fits
  toRegs v := [toWord v]
  length_toRegs _ := rfl

def ArgType.doubleWord (ofWords : UInt64 → α) (toWords : α → UInt64) : ArgType where
  Value := α
  regCount := 2
  fromRegs ws := ofWords ((ws.getD 0 0).toUInt64 + (ws.getD 1 0).toUInt64 * 0x100000000)
  regCount_le := Nat.le_add_left 2 14
  toRegs v := [(toWords v).toUInt32, (toWords v / 0x100000000).toUInt32]
  length_toRegs _ := rfl

def ArgType.vaList : ArgType where
  Value := VaList
  regCount := 1
  fromRegs ws := ⟨4, ws.getD 0 0⟩
  regCount_le := word_fits
  toRegs _ := [0]
  length_toRegs _ := rfl

end

def Kind.type : Kind → ArgType
  | u32 => .word (fun w => w) fun v => v
  | i32 => .word UInt32.toInt32 Int32.toUInt32
  | u16 => .word UInt32.toUInt16 UInt16.toUInt32
  | i16 => .word (fun w => w.toInt32.toInt16) fun v => v.toInt32.toUInt32
  | u8 => .word UInt32.toUInt8 UInt8.toUInt32
  | i8 => .word (fun w => w.toInt32.toInt8) fun v => v.toInt32.toUInt32
  | usize => .word UInt32.toUInt64 UInt64.toUInt32
  | bool => .word (fun w => w != 0) fun b => if b then 1 else 0
  | f32 => .word (fun w => w) fun v => v
  | ptr => .word (fun w => w) fun v => v
  | guestFunction => .word (fun w => w) fun v => v
  | vaList => .vaList
  | u64 => .doubleWord (fun w => w) fun v => v
  | i64 => .doubleWord UInt64.toInt64 Int64.toUInt64
  | f64 => .doubleWord (fun w => w) fun v => v

def Kind.InRange : (k : Kind) → k.type.Value → Prop
  | .usize, v => UInt64.toNat v < 2 ^ 32
  | _, _ => True

def Kind.ret (k : Kind) : RetType where
  Value := k.type.Value
  sizeInMem := none
  toResult v := .words (k.type.toRegs v)
  fromRegs regs := k.type.fromRegs [regs 0, regs 1]
  fromMem _ := k.type.fromRegs []

def RetType.large (size : ℕ) : RetType where
  Value := {bs : List UInt8 // bs.length = size}
  sizeInMem := some size
  toResult v := .bytes v.1
  fromRegs _ := ⟨List.replicate size 0, length_replicate⟩
  fromMem bs := if h : bs.length = size then ⟨bs, h⟩ else ⟨List.replicate size 0, length_replicate⟩

lemma doubleWord_eq (v : UInt64) :
    v.toUInt32.toUInt64 + (v / 0x100000000).toUInt32.toUInt64 * 0x100000000 = v := by
  have hlt := v.toNat_lt
  apply UInt64.toNat_inj.mp
  simp only [UInt64.toNat_add, UInt64.toNat_mul, UInt32.toNat_toUInt64, UInt64.toNat_toUInt32,
    UInt64.toNat_div, UInt64.reduceToNat]
  omega

lemma usize_eq (v : UInt64) (h : v.toNat < 2 ^ 32) : v.toUInt32.toUInt64 = v := by
  apply UInt64.toNat_inj.mp
  rw [UInt32.toNat_toUInt64, UInt64.toNat_toUInt32]
  exact Nat.mod_eq_of_lt h

lemma bool_eq (b : Bool) : ((if b then (1 : UInt32) else 0) != 0) = b := by
  cases b <;> rfl

section

variable {α : Type} {regs : ℕ → UInt32}

lemma word_read (ofWord : UInt32 → α) (toWord : α → UInt32) (v : α)
    (h : ∀ i w, ((ArgType.word ofWord toWord).toRegs v)[i]? = some w → regs i = w) :
    (ArgType.word ofWord toWord).fromRegs [regs 0, regs 1] =
      (ArgType.word ofWord toWord).fromRegs ((ArgType.word ofWord toWord).toRegs v) :=
  congrArg ofWord (h 0 _ rfl)

lemma doubleWord_read (ofWords : UInt64 → α) (toWords : α → UInt64) (v : α)
    (h : ∀ i w, ((ArgType.doubleWord ofWords toWords).toRegs v)[i]? = some w → regs i = w) :
    (ArgType.doubleWord ofWords toWords).fromRegs [regs 0, regs 1] =
      (ArgType.doubleWord ofWords toWords).fromRegs ((ArgType.doubleWord ofWords toWords).toRegs v) :=
  congrArg₂ (fun w x : UInt32 => ofWords (w.toUInt64 + x.toUInt64 * 0x100000000)) (h 0 _ rfl)
    (h 1 _ rfl)

end

lemma survives_of_kind {k : Kind} {v : k.type.Value} (hk : k ≠ .vaList) (hv : k.InRange v) :
    HostArg.Survives ⟨k.type, v⟩ := by
  cases k with
  | vaList => exact absurd rfl hk
  | u32 => rfl
  | i32 => rfl
  | u16 => exact UInt16.toUInt16_toUInt32 v
  | i16 => exact Int16.toInt16_toInt32 v
  | u8 => exact UInt8.toUInt8_toUInt32 v
  | i8 => exact Int8.toInt8_toInt32 v
  | usize => exact usize_eq v hv
  | bool => exact bool_eq v
  | f32 => rfl
  | ptr => rfl
  | guestFunction => rfl
  | u64 => exact doubleWord_eq v
  | i64 => exact congrArg UInt64.toInt64 (doubleWord_eq (Int64.toUInt64 v))
  | f64 => exact doubleWord_eq v

lemma ret_survives_of_kind {k : Kind} {v : k.type.Value} (hk : k ≠ .vaList) (hv : k.InRange v) :
    k.ret.Survives v := by
  have hsurvives := survives_of_kind hk hv
  have hread : ∀ regs : ℕ → UInt32, (∀ i w, (k.type.toRegs v)[i]? = some w → regs i = w) →
      k.type.fromRegs [regs 0, regs 1] = k.type.fromRegs (k.type.toRegs v) := by
    intro regs hregs
    cases k with
    | vaList => exact absurd rfl hk
    | u64 => exact doubleWord_read _ _ v hregs
    | i64 => exact doubleWord_read _ _ v hregs
    | f64 => exact doubleWord_read _ _ v hregs
    | _ => exact word_read _ _ v hregs
  have hlength : (k.type.toRegs v).length ≤ 4 := by
    rw [k.type.length_toRegs]
    cases k <;> decide
  exact ⟨rfl, hlength, fun regs hregs => (hread regs hregs).trans hsurvives⟩

lemma large_survives (size : ℕ) (v : (RetType.large size).Value) : (RetType.large size).Survives v := by
  obtain ⟨bs, rfl⟩ := v
  exact ⟨rfl, dif_pos rfl⟩

/-- Arguments and results that survive their conventions are passed if the stack has room, and all
types but lists of variable arguments do. -/
theorem arguments_round_trip :
    (∀ (s : Machine) (ret : RetType) (f : HostFunction ret) (args : List HostArg), Room s ret args →
      (∀ a ∈ args, a.Survives) → (∀ v, ret.Survives v) → RoundTrip s ret f args) ∧
    (∀ (k : Kind) (v : k.type.Value), k ≠ .vaList → k.InRange v →
      HostArg.Survives ⟨k.type, v⟩ ∧ k.ret.Survives v) ∧
    ∀ (size : ℕ) (v : (RetType.large size).Value), (RetType.large size).Survives v :=
  ⟨fun _ _ _ _ h hargs hret => roundTrip h hargs hret,
    fun _ _ hk hv => ⟨survives_of_kind hk hv, ret_survives_of_kind hk hv⟩, large_survives⟩

lemma wide_room : Room logCall (RetType.large 16)
    [⟨Kind.u64.type, (5 : UInt64)⟩, ⟨Kind.u64.type, (7 : UInt64)⟩, ⟨Kind.u64.type, (9 : UInt64)⟩] := by
  constructor
  · rintro _ ⟨⟩
    decide
  · decide

theorem arguments_round_trip_wide :
    RoundTrip logCall (RetType.large 16)
      (fun _ m => (m, ⟨List.replicate 16 1, List.length_replicate⟩))
      [⟨Kind.u64.type, (5 : UInt64)⟩, ⟨Kind.u64.type, (7 : UInt64)⟩, ⟨Kind.u64.type, (9 : UInt64)⟩] := by
  refine arguments_round_trip.1 _ _ _ _ wide_room (fun a ha => ?_) (arguments_round_trip.2.2 16)
  simp only [List.mem_cons, List.not_mem_nil, or_false] at ha
  obtain rfl | rfl | rfl := ha
  · exact (arguments_round_trip.2.1 .u64 _ (by decide) trivial).1
  · exact (arguments_round_trip.2.1 .u64 _ (by decide) trivial).1
  · exact (arguments_round_trip.2.1 .u64 _ (by decide) trivial).1

theorem vaList_is_lost :
    (readArgs (entry logCall Kind.u32.ret [⟨.vaList, (⟨4, 64⟩ : VaList)⟩]) 0 [.vaList] =
      [⟨ArgType.vaList.toGuestArg, (⟨4, 0⟩ : VaList)⟩] ∧
      ¬ RoundTrip logCall Kind.u32.ret (fun _ m => (m, (0 : UInt32))) [⟨.vaList, (⟨4, 64⟩ : VaList)⟩]) ∧
    ¬ RoundTrip ⟨fun r => if r = sp then 4 else 0, fun _ => 0⟩ Kind.u32.ret
      (fun _ m => (m, (0 : UInt32))) (List.replicate 6 ⟨Kind.u32.type, (1 : UInt32)⟩) := by
  have hlost : readArgs (entry logCall Kind.u32.ret [⟨.vaList, (⟨4, 64⟩ : VaList)⟩]) 0 [.vaList] =
      [⟨ArgType.vaList.toGuestArg, (⟨4, 0⟩ : VaList)⟩] := rfl
  refine ⟨⟨hlost, fun h => ?_⟩, fun h => ?_⟩
  · have hsame : [(⟨ArgType.vaList.toGuestArg, (⟨4, 0⟩ : VaList)⟩ : Arg)] =
        [⟨ArgType.vaList.toGuestArg, (⟨4, 64⟩ : VaList)⟩] := hlost.symm.trans h.delivered
    have hvalues : (⟨4, 0⟩ : VaList) = ⟨4, 64⟩ := eq_of_heq (Arg.mk.inj (List.cons.inj hsame).1).2
    exact absurd (VaList.mk.inj hvalues).2 (by decide)
  · have hbefore := h.before 4294967292 (by decide)
    revert hbefore
    decide +kernel

end TouchHle.Abi
