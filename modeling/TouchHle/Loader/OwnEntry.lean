import TouchHle.Lib.Runs
import TouchHle.Loader.LazyStubs

/-! A stub that was resolved loads its own lazy pointer, or calls its own host function, whatever
the order in which stubs are called. -/

namespace TouchHle.Loader.LazyStubs

open Lib Function List Except Option Words

/-- Binaries as they are loaded: sections of stubs that are set up, whose stubs load the lazy
pointer of the same index, none of these in the place of another. -/
structure Laid (bins : List MachO) (image : Words) : Prop where
  nodup : bins.Nodup
  sections : ∀ bin ∈ bins, ∀ stubs, bin.getSection .symbolStubs = some stubs →
    ∃ info lazyPtrs, stubs.info = some info ∧
      bin.getSection .lazySymbolPointers = some lazyPtrs ∧
      (info.entrySize = 4 ∨ info.entrySize = 12 ∨ info.entrySize = 16) ∧
      stubs.size % info.entrySize = 0
  passes : ∀ e ∈ entries bins, ∀ expected, expectedInstructions e.info.entrySize = some expected →
    ∀ j < expected.length, image (e.stub + 4 * j) = expected.getD j 0
  compiled : ∀ e ∈ entries bins, ∀ ip,
    loadsPc image 3 ⟨ip, e.stub⟩ = some (e.lazyPtr, image e.lazyPtr)
  fits : ∀ e ∈ entries bins, e.stub + e.info.entrySize ≤ 2 ^ 32
  apart : ∀ e ∈ entries bins, ∀ e' ∈ entries bins, e ≠ e' →
    (e.stub + e.info.entrySize ≤ e'.stub ∨ e'.stub + e'.info.entrySize ≤ e.stub) ∧
      e.lazyPtr ≠ e'.lazyPtr
  lazyApart : ∀ e ∈ entries bins, ∀ e' ∈ entries bins,
    e'.lazyPtr < e.stub ∨ e.stub + e.info.entrySize ≤ e'.lazyPtr

def Returns (mem : Words) (pc svc : ℕ) : Prop :=
  svc &&& svcLazyLinkRetFlag ≠ 0 ∨ mem (pc + 4) = encodeA32Ret

structure OwnEntries (bins : List MachO) (start : Words) (w : Linking) : Prop where
  guest : ∀ e ∈ entries bins, ∀ addr, w.resolved e.stub = some (.guest addr) →
    (∀ ip, loadsPc w.dyld.mem 3 ⟨ip, e.stub⟩ = some (e.lazyPtr, addr)) ∧
      w.dyld.mem e.lazyPtr = addr
  host : ∀ e ∈ entries bins, ∀ f, w.resolved e.stub = some (.host f) →
    w.dyld.mem e.lazyPtr = start e.lazyPtr ∧
      ∃ svc, decodeSvc (w.dyld.mem e.stub) = some svc ∧ Returns w.dyld.mem e.stub svc ∧
        ∀ target, w.dyld.getSvcHandler bins e.stub svc target = .ok (some f, w.dyld)
  others : ∀ e ∈ entries bins, w.resolved e.stub = none →
    (∀ a, e.stub ≤ a → a < e.stub + e.info.entrySize → w.dyld.mem a = start a) ∧
      w.dyld.mem e.lazyPtr = start e.lazyPtr

/-- How stubs are to be resolved: to guest addresses not where they are one instruction long, and to
functions of the host as long as these can be numbered. -/
def resolvable (entrySize linked : ℕ) : Target → Bool
  | .guest _ => entrySize ≠ 4
  | .host _ => linked + svcLinkedFunctionsBase < svcLazyLinkRetFlag

def StubUse {bins : List MachO} (w : Linking) (r : Call bins) : Bool :=
  resolvable r.entry.1.info.entrySize w.dyld.linkedHostFunctions.length r.target

def Holds (image start : Words) (d : Dyld) (e : Entry) : Option Target → Prop
  | none => (∀ a, e.stub ≤ a → a < e.stub + e.info.entrySize → d.mem a = start a) ∧
      d.mem e.lazyPtr = start e.lazyPtr
  | some (.guest addr) => e.info.entrySize ≠ 4 ∧
      (∀ j, 4 * j < e.info.entrySize → d.mem (e.stub + 4 * j) = image (e.stub + 4 * j)) ∧
      d.mem e.lazyPtr = addr
  | some (.host f) => d.mem e.lazyPtr = start e.lazyPtr ∧
      (e.info.entrySize ≠ 4 → d.mem (e.stub + 4) = encodeA32Ret) ∧
      ∃ idx, d.linkedHostFunctions[idx]? = some f ∧
        idx + svcLinkedFunctionsBase < svcLazyLinkRetFlag ∧
        d.mem e.stub = 0xef000000 + (idx + svcLinkedFunctionsBase +
          if e.info.entrySize = 4 then svcLazyLinkRetFlag else 0)

section

variable {bins : List MachO} {image start : Words} {e e' : Entry} {d d' : Dyld} {mem : Words}
  {pc : ℕ} {w w' : Linking}

lemma Laid.size (h : Laid bins image) (he : e ∈ entries bins) :
    e.info.entrySize = 4 ∨ e.info.entrySize = 12 ∨ e.info.entrySize = 16 := by
  obtain ⟨hbin, hstubs, -, hinfo, -⟩ := he
  obtain ⟨info, -, hinfo', -, hsize, -⟩ := h.sections e.bin hbin e.stubs hstubs
  obtain rfl := some.inj (hinfo.symm.trans hinfo')
  exact hsize

def stubList (bin : MachO) : List (ℕ × ℕ) :=
  match bin.getSection .symbolStubs with
  | none => []
  | some stubs =>
    match stubs.info with
    | none => []
    | some info => (List.range (stubs.size / info.entrySize)).map fun i =>
        (stubs.addr + i * info.entrySize, info.entrySize)

def setupOne (mem : Words) (stub : ℕ × ℕ) : Words :=
  setupStub stub.2 ((expectedInstructions stub.2).getD []) mem stub.1

lemma setupLazyLinking_eq (h : Laid bins image) {bin : MachO} (hbin : bin ∈ bins) :
    setupLazyLinking mem bin = .ok ((stubList bin).foldl setupOne mem) := by
  rw [setupLazyLinking, stubList]
  cases hstubs : bin.getSection .symbolStubs with
  | none => rfl
  | some stubs =>
    obtain ⟨info, lazyPtrs, hinfo, -, hsize, hmod⟩ := h.sections bin hbin stubs hstubs
    obtain ⟨expected, hexp⟩ : ∃ expected, expectedInstructions info.entrySize = some expected := by
      obtain hs | hs | hs := hsize <;> rw [hs] <;> exact ⟨_, rfl⟩
    dsimp only
    rw [hinfo]
    dsimp only
    rw [hexp]
    apply bind_eq_ok.mpr
    refine ⟨(), assert_eq_ok.mpr hmod, ?_⟩
    rw [foldl_map, foldl_map]
    simp only [setupOne, hexp, getD_some]
    rfl

lemma setupAll_eq (h : Laid bins image) :
    setupAll bins mem = .ok ((bins.flatMap stubList).foldl setupOne mem) := by
  have hall : ∀ L : List MachO, (∀ bin ∈ L, bin ∈ bins) → ∀ mem,
      L.foldlM setupLazyLinking mem = .ok ((L.flatMap stubList).foldl setupOne mem) := by
    intro L
    induction L with
    | nil => exact fun _ _ => rfl
    | cons bin L ih =>
      intro hL mem
      rw [foldlM_cons, setupLazyLinking_eq h (hL bin mem_cons_self), flatMap_cons,
        foldl_append]
      exact ih (fun b hb => hL b (mem_cons_of_mem bin hb)) _
  exact hall bins (fun _ hb => hb) mem

lemma mem_stubList (h : Laid bins image) {bin : MachO} (hbin : bin ∈ bins) {stub : ℕ × ℕ} :
    stub ∈ stubList bin ↔
      ∃ e ∈ entries bins, e.bin = bin ∧ stub = (e.stub, e.info.entrySize) := by
  rw [stubList]
  constructor
  · intro hmem
    cases hstubs : bin.getSection .symbolStubs with
    | none =>
      rw [hstubs] at hmem
      exact absurd hmem not_mem_nil
    | some stubs =>
      obtain ⟨info, lazyPtrs, hinfo, hlazy, -⟩ := h.sections bin hbin stubs hstubs
      rw [hstubs] at hmem
      dsimp only at hmem
      rw [hinfo] at hmem
      obtain ⟨i, hi, rfl⟩ := mem_map.mp hmem
      exact ⟨⟨bin, stubs, lazyPtrs, info, i⟩, ⟨hbin, hstubs, hlazy, hinfo, List.mem_range.mp hi⟩,
        rfl, rfl⟩
  · rintro ⟨e, ⟨-, hstubs, -, hinfo, hindex⟩, rfl, rfl⟩
    rw [hstubs]
    dsimp only
    rw [hinfo]
    exact mem_map.mpr ⟨e.index, List.mem_range.mpr hindex, rfl⟩

def stubRange (stub : ℕ × ℕ) : Set ℕ := {a | stub.1 ≤ a ∧ a < stub.1 + stub.2}

lemma Laid.disjoint (h : Laid bins image) (he : e ∈ entries bins) (he' : e' ∈ entries bins)
    (hne : e ≠ e') :
    Disjoint (stubRange (e.stub, e.info.entrySize)) (stubRange (e'.stub, e'.info.entrySize)) := by
  rw [Set.disjoint_left]
  rintro a ⟨hlo, hhi⟩ ⟨hlo', hhi'⟩
  dsimp only at hlo hhi hlo' hhi'
  obtain hapart | hapart := (h.apart e he e' he' hne).1 <;> omega

lemma Laid.pairwise (h : Laid bins image) :
    (bins.flatMap stubList).Pairwise fun b c => Disjoint (stubRange b) (stubRange c) := by
  rw [pairwise_flatMap]
  constructor
  · intro bin hbin
    rw [stubList]
    cases hstubs : bin.getSection .symbolStubs with
    | none => exact .nil
    | some stubs =>
      obtain ⟨info, lazyPtrs, hinfo, hlazy, -⟩ := h.sections bin hbin stubs hstubs
      dsimp only
      rw [hinfo]
      dsimp only
      rw [pairwise_map]
      apply Pairwise.imp_of_mem _ pairwise_lt_range
      intro i i' hi hi' hlt
      have he : (⟨bin, stubs, lazyPtrs, info, i⟩ : Entry) ∈ entries bins :=
        ⟨hbin, hstubs, hlazy, hinfo, List.mem_range.mp hi⟩
      have he' : (⟨bin, stubs, lazyPtrs, info, i'⟩ : Entry) ∈ entries bins :=
        ⟨hbin, hstubs, hlazy, hinfo, List.mem_range.mp hi'⟩
      apply h.disjoint he he'
      intro heq
      exact hlt.ne (congrArg Entry.index heq)
  · apply Pairwise.imp_of_mem _ h.nodup
    intro bin bin' hbin hbin' hne b hb c hc
    obtain ⟨e, he, rfl, rfl⟩ := (mem_stubList h hbin).mp hb
    obtain ⟨e', he', rfl, rfl⟩ := (mem_stubList h hbin').mp hc
    apply h.disjoint he he'
    rintro rfl
    exact hne rfl

lemma length_lazyInstructions {entrySize : ℕ}
    (hsize : entrySize = 4 ∨ entrySize = 12 ∨ entrySize = 16) :
    4 * (lazyInstructions entrySize).length ≤ entrySize ∧
      4 * ((expectedInstructions entrySize).getD []).length ≤ entrySize := by
  obtain rfl | rfl | rfl := hsize <;> decide

lemma setupOne_outside {stub : ℕ × ℕ} {a : ℕ} (hsize : stub.2 = 4 ∨ stub.2 = 12 ∨ stub.2 = 16)
    (ha : a ∉ stubRange stub) : setupOne mem stub a = mem a := by
  rw [setupOne, setupStub]
  split
  · apply writeWords_outside
    rintro j hj rfl
    obtain ⟨hlen, -⟩ := length_lazyInstructions hsize
    exact ha ⟨Nat.le_add_right _ _, by omega⟩
  · rfl

lemma setupOne_local {mem' : Words} {stub : ℕ × ℕ} {a : ℕ}
    (hsize : stub.2 = 4 ∨ stub.2 = 12 ∨ stub.2 = 16)
    (hsame : ∀ a ∈ stubRange stub, mem a = mem' a) (ha : a ∈ stubRange stub) :
    setupOne mem stub a = setupOne mem' stub a := by
  obtain ⟨-, hlen⟩ := length_lazyInstructions hsize
  have hcond : (∀ j < ((expectedInstructions stub.2).getD []).length,
        mem (stub.1 + 4 * j) = ((expectedInstructions stub.2).getD []).getD j 0) ↔
      ∀ j < ((expectedInstructions stub.2).getD []).length,
        mem' (stub.1 + 4 * j) = ((expectedInstructions stub.2).getD []).getD j 0 := by
    apply forall_congr'
    intro j
    apply imp_congr_right
    intro hj
    rw [hsame _ ⟨Nat.le_add_right _ _, by omega⟩]
  rw [setupOne, setupOne, setupStub, setupStub]
  by_cases hmatch : ∀ j < ((expectedInstructions stub.2).getD []).length,
      mem (stub.1 + 4 * j) = ((expectedInstructions stub.2).getD []).getD j 0
  · rw [if_pos hmatch, if_pos (hcond.mp hmatch)]
    by_cases hword : ∃ j < (lazyInstructions stub.2).length, a = stub.1 + 4 * j
    · obtain ⟨j, hj, rfl⟩ := hword
      rw [writeWords_inside hj, writeWords_inside hj]
    · push Not at hword
      rw [writeWords_outside hword, writeWords_outside hword]
      exact hsame a ha
  · rw [if_neg hmatch, if_neg (hcond.not.mp hmatch)]
    exact hsame a ha

lemma Laid.setup (h : Laid bins image) (hstart : setupAll bins image = .ok start) :
    (∀ a, (∀ e ∈ entries bins, a ∉ stubRange (e.stub, e.info.entrySize)) → start a = image a) ∧
      ∀ e ∈ entries bins, ∀ a ∈ stubRange (e.stub, e.info.entrySize),
        start a = image.writeWords e.stub (lazyInstructions e.info.entrySize) a := by
  rw [setupAll_eq h] at hstart
  obtain rfl := ok.inj hstart
  have hsize : ∀ b ∈ bins.flatMap stubList, b.2 = 4 ∨ b.2 = 12 ∨ b.2 = 16 := by
    intro b hb
    obtain ⟨bin, hbin, hb⟩ := mem_flatMap.mp hb
    obtain ⟨e, he, -, rfl⟩ := (mem_stubList h hbin).mp hb
    exact h.size he
  obtain ⟨hout, hin⟩ := foldl_apart setupOne stubRange (bins.flatMap stubList)
    (fun b hb mem a ha => setupOne_outside (hsize b hb) ha)
    (fun b hb mem mem' hsame a ha => setupOne_local (hsize b hb) hsame ha) h.pairwise image
  refine ⟨fun a ha => hout a fun b hb => ?_, fun e he a ha => ?_⟩
  · obtain ⟨bin, hbin, hb⟩ := mem_flatMap.mp hb
    obtain ⟨e, he, -, rfl⟩ := (mem_stubList h hbin).mp hb
    exact ha e he
  · have hmem : (e.stub, e.info.entrySize) ∈ bins.flatMap stubList :=
      mem_flatMap.mpr ⟨e.bin, he.1, (mem_stubList h he.1).mpr ⟨e, he, rfl, rfl⟩⟩
    rw [hin _ hmem a ha, setupOne, setupStub, if_pos]
    intro j hj
    obtain ⟨expected, hexp⟩ : ∃ expected, expectedInstructions e.info.entrySize = some expected := by
      obtain hs | hs | hs := h.size he <;> rw [hs] <;> exact ⟨_, rfl⟩
    dsimp only at hj ⊢
    rw [hexp] at hj ⊢
    exact h.passes e he expected hexp j hj

lemma findSome?_unique {α β : Type} {f : α → Option β} {L : List α} {v : β}
    (hmem : ∃ b ∈ L, f b = some v) (huniq : ∀ b ∈ L, ∀ v', f b = some v' → v' = v) :
    L.findSome? f = some v := by
  cases hfind : L.findSome? f with
  | none =>
    obtain ⟨b, hb, hv⟩ := hmem
    cases (findSome?_eq_none_iff.mp hfind b hb).symm.trans hv
  | some v' =>
    obtain ⟨b, hb, hv⟩ := exists_of_findSome?_eq_some hfind
    rw [huniq b hb v' hv]

def Entry.picOffset (e : Entry) : ℕ := (e.lazyPtrs.addr + 2 ^ 32 - e.stubs.addr) % 2 ^ 32

lemma Laid.index (h : Laid bins image) (he : e ∈ entries bins) :
    0 < e.info.entrySize ∧ e.index * e.info.entrySize + e.info.entrySize ≤ e.stubs.size := by
  have hpos : 0 < e.info.entrySize := by
    obtain hs | hs | hs := h.size he <;> omega
  refine ⟨hpos, ?_⟩
  have hlt := he.2.2.2.2
  calc e.index * e.info.entrySize + e.info.entrySize
      = (e.index + 1) * e.info.entrySize := by ring
    _ ≤ e.stubs.size / e.info.entrySize * e.info.entrySize :=
        Nat.mul_le_mul_right _ (Nat.succ_le_of_lt hlt)
    _ ≤ e.stubs.size := Nat.div_mul_le_self _ _

lemma Laid.findStubs (h : Laid bins image) (he : e ∈ entries bins) :
    findStubs bins e.stub = some (e.stubs, e.picOffset) := by
  obtain ⟨hpos, hin⟩ := h.index he
  apply findSome?_unique
  · refine ⟨e.bin, he.1, ?_⟩
    rw [he.2.1]
    dsimp only
    rw [if_pos ⟨Nat.le_add_right _ _, by rw [Entry.stub]; omega⟩, he.2.2.1]
    rfl
  · intro bin hbin v hv
    cases hstubs : bin.getSection .symbolStubs with
    | none =>
      rw [hstubs] at hv
      cases hv
    | some stubs =>
      obtain ⟨info, lazyPtrs, hinfo, hlazy, hsize, hmod⟩ := h.sections bin hbin stubs hstubs
      rw [hstubs] at hv
      dsimp only at hv
      split at hv
      · rename_i hrange
        -- the address lies in a stub of that section, which is no other
        have hpos' : 0 < info.entrySize := by
          obtain hs | hs | hs := hsize <;> omega
        have hlt : e.stub - stubs.addr < stubs.size := by omega
        have hdiv : (e.stub - stubs.addr) / info.entrySize < stubs.size / info.entrySize := by
          apply Nat.div_lt_of_lt_mul
          rw [mul_comm, Nat.div_mul_cancel (Nat.dvd_of_mod_eq_zero hmod)]
          exact hlt
        have he' : (⟨bin, stubs, lazyPtrs, info, (e.stub - stubs.addr) / info.entrySize⟩ : Entry) ∈
            entries bins := ⟨hbin, hstubs, hlazy, hinfo, hdiv⟩
        have hle := Nat.div_mul_le_self (e.stub - stubs.addr) info.entrySize
        have hnext := Nat.lt_div_mul_add hpos' (a := e.stub - stubs.addr)
        have hsame : e = ⟨bin, stubs, lazyPtrs, info, (e.stub - stubs.addr) / info.entrySize⟩ := by
          by_contra hne
          have hapart := (h.apart e he _ he' hne).1
          rw [Entry.stub.eq_def ⟨bin, stubs, lazyPtrs, info,
            (e.stub - stubs.addr) / info.entrySize⟩] at hapart
          dsimp only at hapart
          obtain hapart | hapart := hapart <;> omega
        have hbin' : e.bin = bin := congrArg Entry.bin hsame
        have hstubs' : e.stubs = stubs := congrArg Entry.stubs hsame
        rw [← hbin', he.2.2.1] at hv
        obtain rfl := some.inj hv
        rw [← hstubs']
        rfl
      · cases hv

lemma svc_eq {imm : ℕ} (h : imm < 2 ^ 24) : imm ||| 0xef000000 = 0xef000000 + imm := by
  rw [Nat.lor_comm]
  exact (Nat.two_pow_add_eq_or_of_lt h 0xef).symm

lemma decodeSvc_svc {imm : ℕ} (h : imm < 2 ^ 24) : decodeSvc (0xef000000 + imm) = some imm := by
  rw [decodeSvc, if_pos (by omega)]
  congr 1
  omega

lemma flag_eq {svc : ℕ} (h : svc < svcLazyLinkRetFlag) :
    svc ||| svcLazyLinkRetFlag = svc + svcLazyLinkRetFlag := by
  have hlt : svc < 2 ^ 23 := h
  rw [Nat.lor_comm, add_comm]
  exact (Nat.two_pow_add_eq_or_of_lt hlt 1).symm

lemma svcFor_eq_ok {entrySize idx svc : ℕ} (hlen : idx + svcLinkedFunctionsBase < svcLazyLinkRetFlag)
    (h : LazyStubs.svcFor entrySize idx = .ok svc) :
    svc = idx + svcLinkedFunctionsBase + (if entrySize = 4 then svcLazyLinkRetFlag else 0) ∧ svc < 2 ^ 24 := by
  have hflag : svcLazyLinkRetFlag = 2 ^ 23 := rfl
  rw [LazyStubs.svcFor] at h
  split at h
  · rename_i hs
    obtain ⟨_, -, h⟩ := bind_eq_ok.mp h
    obtain rfl := ok.inj h
    rw [flag_eq hlen, if_pos hs]
    exact ⟨rfl, by omega⟩
  · rename_i hs
    obtain rfl := ok.inj h
    rw [if_neg hs]
    exact ⟨rfl, by omega⟩

lemma unflag {svc : ℕ} (h : svc < svcLazyLinkRetFlag) :
    svc &&& (0xffffffff ^^^ svcLazyLinkRetFlag) = svc ∧
      (svc ||| svcLazyLinkRetFlag) &&& (0xffffffff ^^^ svcLazyLinkRetFlag) = svc := by
  have hkeep : svc &&& (0xffffffff ^^^ svcLazyLinkRetFlag) = svc := by
    apply Nat.eq_of_testBit_eq
    intro i
    rw [Nat.testBit_and]
    by_cases hi : i < 23
    · have hmask : (0xffffffff ^^^ svcLazyLinkRetFlag).testBit i = true := by
        interval_cases i <;> decide
      rw [hmask, Bool.and_true]
    · have hzero : svc.testBit i = false := by
        apply Nat.testBit_lt_two_pow
        exact lt_of_lt_of_le (show svc < 2 ^ 23 from h)
          (Nat.pow_le_pow_right two_pos (not_lt.mp hi))
      rw [hzero, Bool.false_and]
  refine ⟨hkeep, ?_⟩
  rw [Nat.and_or_distrib_right, hkeep]
  have hflag : svcLazyLinkRetFlag &&& (0xffffffff ^^^ svcLazyLinkRetFlag) = 0 := by decide
  rw [hflag, Nat.or_zero]

lemma flag_ne_zero {svc : ℕ} (h : svc < svcLazyLinkRetFlag) :
    (svc + svcLazyLinkRetFlag) &&& svcLazyLinkRetFlag ≠ 0 := by
  rw [← flag_eq h, Nat.and_or_distrib_right, Nat.and_self]
  intro hzero
  exact absurd (Nat.or_eq_zero_iff.mp hzero).2 (by decide)

lemma loadsPc_symbolStub {ip : ℕ} (h0 : mem pc = 0xe59fc000) (h1 : mem (pc + 4) = 0xe59cf000)
    (hfits : pc + 12 ≤ 2 ^ 32) :
    loadsPc mem 3 ⟨ip, pc⟩ = some (mem (pc + 8), mem (mem (pc + 8))) := by
  have haddr : (pc + 8 + 0xe59fc000 % 2 ^ 12) % 2 ^ 32 = pc + 8 := by omega
  simp only [loadsPc, h0, haddr]
  simp [h1]

lemma loadsPc_picSymbolStub {ip : ℕ} (h0 : mem pc = 0xe59fc004) (h1 : mem (pc + 4) = 0xe08fc00c)
    (h2 : mem (pc + 8) = 0xe59cf000) (hfits : pc + 16 ≤ 2 ^ 32) :
    loadsPc mem 3 ⟨ip, pc⟩ = some ((pc + mem (pc + 12) + 12) % 2 ^ 32,
      mem ((pc + mem (pc + 12) + 12) % 2 ^ 32)) := by
  have haddr : (pc + 8 + 0xe59fc004 % 2 ^ 12) % 2 ^ 32 = pc + 12 := by omega
  have hadd : (pc + 4 + 8 + mem (pc + 12)) % 2 ^ 32 = (pc + mem (pc + 12) + 12) % 2 ^ 32 := by
    congr 1
    ring
  simp only [loadsPc, h0, haddr]
  simp only [h1]
  norm_num [h2]
  exact ⟨hadd, congrArg mem hadd⟩

lemma Laid.pattern (h : Laid bins image) (he : e ∈ entries bins) :
    (e.info.entrySize = 12 → image e.stub = 0xe59fc000 ∧ image (e.stub + 4) = 0xe59cf000) ∧
      (e.info.entrySize = 16 → image e.stub = 0xe59fc004 ∧ image (e.stub + 4) = 0xe08fc00c ∧
        image (e.stub + 8) = 0xe59cf000) := by
  constructor
  · intro hs
    have hword := h.passes e he symbolStubInstructions (by rw [hs]; rfl)
    exact ⟨hword 0 (by decide), hword 1 (by decide)⟩
  · intro hs
    have hword := h.passes e he picSymbolStubInstructions (by rw [hs]; rfl)
    exact ⟨hword 0 (by decide), hword 1 (by decide), hword 2 (by decide)⟩

lemma Laid.literal (h : Laid bins image) (he : e ∈ entries bins) :
    (e.info.entrySize = 12 → image (e.stub + 8) = e.lazyPtr) ∧
      (e.info.entrySize = 16 → (e.stub + image (e.stub + 12) + 12) % 2 ^ 32 = e.lazyPtr) := by
  have hfits := h.fits e he
  have hloads := h.compiled e he 0
  constructor
  · intro hs
    obtain ⟨h0, h1⟩ := (h.pattern he).1 hs
    rw [loadsPc_symbolStub h0 h1 (by omega)] at hloads
    exact (Prod.mk.inj (some.inj hloads)).1
  · intro hs
    obtain ⟨h0, h1, h2⟩ := (h.pattern he).2 hs
    rw [loadsPc_picSymbolStub h0 h1 h2 (by omega)] at hloads
    exact (Prod.mk.inj (some.inj hloads)).1

lemma Laid.loads {ip : ℕ} (h : Laid bins image) (he : e ∈ entries bins)
    (hsize : e.info.entrySize ≠ 4)
    (hwords : ∀ j, 4 * j < e.info.entrySize → mem (e.stub + 4 * j) = image (e.stub + 4 * j)) :
    loadsPc mem 3 ⟨ip, e.stub⟩ = some (e.lazyPtr, mem e.lazyPtr) := by
  have hfits := h.fits e he
  obtain hs | hs := (h.size he).resolve_left hsize
  · obtain ⟨h0, h1⟩ := (h.pattern he).1 hs
    have hlit := (h.literal he).1 hs
    have w0 : mem e.stub = 0xe59fc000 := (hwords 0 (by omega)).trans h0
    have w1 : mem (e.stub + 4) = 0xe59cf000 := (hwords 1 (by omega)).trans h1
    have w2 : mem (e.stub + 8) = e.lazyPtr := (hwords 2 (by omega)).trans hlit
    rw [loadsPc_symbolStub w0 w1 (by omega), w2]
  · obtain ⟨h0, h1, h2⟩ := (h.pattern he).2 hs
    have hlit := (h.literal he).2 hs
    have w0 : mem e.stub = 0xe59fc004 := (hwords 0 (by omega)).trans h0
    have w1 : mem (e.stub + 4) = 0xe08fc00c := (hwords 1 (by omega)).trans h1
    have w2 : mem (e.stub + 8) = 0xe59cf000 := (hwords 2 (by omega)).trans h2
    have w3 : mem (e.stub + 12) = image (e.stub + 12) := hwords 3 (by omega)
    rw [loadsPc_picSymbolStub w0 w1 w2 (by omega), w3, hlit]

lemma Laid.lazy (h : Laid bins image) (hstart : setupAll bins image = .ok start)
    (he : e ∈ entries bins) :
    start e.stub = 0xef000000 + (if e.info.entrySize = 4 then svcLazyLinkRetFlag else svcLazyLink) ∧
      (e.info.entrySize ≠ 4 → start (e.stub + 4) = encodeA32Ret) ∧
      (e.info.entrySize = 12 → start (e.stub + 8) = image (e.stub + 8)) ∧
      (e.info.entrySize = 16 → start (e.stub + 12) = image (e.stub + 12)) := by
  have hin := (h.setup hstart).2 e he
  have hword : ∀ j (hj : j < (lazyInstructions e.info.entrySize).length),
      start (e.stub + 4 * j) = (lazyInstructions e.info.entrySize)[j] := by
    intro j hj
    obtain ⟨hlen, -⟩ := length_lazyInstructions (h.size he)
    rw [hin _ ⟨Nat.le_add_right _ _, by dsimp only; omega⟩, writeWords_inside hj]
  have hrest : ∀ j, (lazyInstructions e.info.entrySize).length ≤ j → 4 * j < e.info.entrySize →
      start (e.stub + 4 * j) = image (e.stub + 4 * j) := by
    intro j hlen hj
    rw [hin _ ⟨Nat.le_add_right _ _, by dsimp only; omega⟩, writeWords_outside]
    intro j' hj' heq
    omega
  obtain hs | hs | hs := h.size he
  · refine ⟨?_, fun hne => absurd hs hne, fun hs' => ?_, fun hs' => ?_⟩
    · rw [if_pos hs, ← svc_eq (by decide)]
      simpa [hs, lazyInstructions] using hword 0 (by rw [hs]; decide)
    · omega
    · omega
  · refine ⟨?_, fun _ => ?_, fun _ => ?_, fun hs' => ?_⟩
    · rw [if_neg (by omega), ← svc_eq (by decide)]
      simpa [hs, lazyInstructions] using hword 0 (by rw [hs]; decide)
    · simpa [hs, lazyInstructions] using hword 1 (by rw [hs]; decide)
    · exact hrest 2 (by rw [hs]; decide) (by omega)
    · omega
  · refine ⟨?_, fun _ => ?_, fun hs' => ?_, fun _ => ?_⟩
    · rw [if_neg (by omega), ← svc_eq (by decide)]
      simpa [hs, lazyInstructions] using hword 0 (by rw [hs]; decide)
    · simpa [hs, lazyInstructions] using hword 1 (by rw [hs]; decide)
    · omega
    · exact hrest 3 (by rw [hs]; decide) (by omega)

def Apart (e : Entry) (mem mem' : Words) : Prop :=
  ∀ a, a ∉ stubRange (e.stub, e.info.entrySize) → a ≠ e.lazyPtr → mem' a = mem a

lemma Laid.holds_other {target : Option Target} (h : Laid bins image) (he : e ∈ entries bins)
    (he' : e' ∈ entries bins) (hne : e' ≠ e) (hholds : Holds image start d e' target)
    (hmem : Apart e d.mem d'.mem)
    (hlinked : ∀ (idx : ℕ) (f : HostFunction), d.linkedHostFunctions[idx]? = some f →
      d'.linkedHostFunctions[idx]? = some f) : Holds image start d' e' target := by
  have hstub : ∀ a, e'.stub ≤ a → a < e'.stub + e'.info.entrySize → d'.mem a = d.mem a := by
    intro a hlo hhi
    apply hmem
    · intro hin
      exact Set.disjoint_left.mp (h.disjoint he' he hne) ⟨hlo, hhi⟩ hin
    · rintro rfl
      obtain hlazy | hlazy := h.lazyApart e' he' e he <;> omega
  have hlazy : d'.mem e'.lazyPtr = d.mem e'.lazyPtr := by
    apply hmem
    · rintro ⟨hlo, hhi⟩
      dsimp only at hlo hhi
      obtain hlazy | hlazy := h.lazyApart e he e' he' <;> omega
    · exact (h.apart e' he' e he hne).2
  obtain ⟨hpos, -⟩ := h.index he'
  match target with
  | none =>
    exact ⟨fun a hlo hhi => (hstub a hlo hhi).trans (hholds.1 a hlo hhi), hlazy.trans hholds.2⟩
  | some (.guest addr) =>
    refine ⟨hholds.1, fun j hj => ?_, hlazy.trans hholds.2.2⟩
    rw [hstub _ (Nat.le_add_right _ _) (by omega)]
    exact hholds.2.1 j hj
  | some (.host f) =>
    obtain ⟨hkeep, hret, idx, hidx, hlt, hword⟩ := hholds
    refine ⟨hlazy.trans hkeep, fun hs => ?_, idx, hlinked idx f hidx, hlt, ?_⟩
    · obtain hs' | hs' := (h.size he').resolve_left hs <;>
        exact (hstub _ (Nat.le_add_right _ _) (by omega)).trans (hret hs)
    · rw [hstub _ le_rfl (by omega)]
      exact hword

lemma Laid.restored (h : Laid bins image) (he : e ∈ entries bins) (hsize : e.info.entrySize ≠ 4)
    {ws : List ℕ} (hlen : 4 * ws.length + 4 = e.info.entrySize)
    (hws : ∀ j (hj : j < ws.length), image (e.stub + 4 * j) = ws[j])
    (hlast : d.mem (e.stub + 4 * ws.length) = image (e.stub + 4 * ws.length)) (addr : ℕ) :
    let mem' := update (d.mem.writeWords e.stub ws) e.lazyPtr addr
    Apart e d.mem mem' ∧ Holds image start { d with mem := mem' } e (some (.guest addr)) := by
  have hlazy := h.lazyApart e he e he
  refine ⟨fun a hout hne => ?_, hsize, fun j hj => ?_, update_self _ _ _⟩
  · rw [update_of_ne hne, writeWords_outside]
    rintro j hj rfl
    exact hout ⟨Nat.le_add_right _ _, by dsimp only; omega⟩
  · have hne : e.stub + 4 * j ≠ e.lazyPtr := by omega
    dsimp only
    rw [update_of_ne hne]
    by_cases hword : j < ws.length
    · rw [writeWords_inside hword, hws j hword]
    · obtain rfl : j = ws.length := by omega
      rw [writeWords_outside (by omega), hlast]

lemma Laid.linkByRestoringStub (h : Laid bins image) (hstart : setupAll bins image = .ok start)
    (he : e ∈ entries bins) (hsize : e.info.entrySize ≠ 4) (hholds : Holds image start d e none)
    (addr : ℕ) :
    let mem' := linkByRestoringStub d.mem addr e.stub e.info.entrySize e.picOffset
    Apart e d.mem mem' ∧ Holds image start { d with mem := mem' } e (some (.guest addr)) := by
  obtain ⟨-, -, hlit12, hlit16⟩ := h.lazy hstart he
  dsimp only
  obtain hs | hs := (h.size he).resolve_left hsize
  · obtain ⟨h0, h1⟩ := (h.pattern he).1 hs
    have hlast : d.mem (e.stub + 8) = image (e.stub + 8) :=
      (hholds.1 _ (by omega) (by omega)).trans (hlit12 hs)
    have hmem : LazyStubs.linkByRestoringStub d.mem addr e.stub e.info.entrySize e.picOffset =
        update (d.mem.writeWords e.stub symbolStubInstructions) e.lazyPtr addr := by
      have hout : d.mem.writeWords e.stub symbolStubInstructions (e.stub + 8) = e.lazyPtr := by
        rw [writeWords_outside, hlast, (h.literal he).1 hs]
        intro j hj heq
        have hj : j < 2 := hj
        omega
      rw [LazyStubs.linkByRestoringStub, hs]
      simp only [Nat.reduceEqDiff, if_false, if_true]
      rw [show 4 * symbolStubInstructions.length = 8 from rfl, hout]
    rw [hmem]
    apply h.restored he hsize (by rw [hs]; rfl) _ hlast
    intro j hj
    have hj' : j < 2 := hj
    interval_cases j
    · exact h0
    · exact h1
  · obtain ⟨h0, h1, h2⟩ := (h.pattern he).2 hs
    have hlast : d.mem (e.stub + 12) = image (e.stub + 12) :=
      (hholds.1 _ (by omega) (by omega)).trans (hlit16 hs)
    have hmem : LazyStubs.linkByRestoringStub d.mem addr e.stub e.info.entrySize e.picOffset =
        update (d.mem.writeWords e.stub picSymbolStubInstructions) e.lazyPtr addr := by
      have hout : d.mem.writeWords e.stub picSymbolStubInstructions (e.stub + 12) =
          image (e.stub + 12) := by
        rw [writeWords_outside, hlast]
        intro j hj heq
        have hj : j < 3 := hj
        omega
      rw [LazyStubs.linkByRestoringStub, hs]
      simp only [Nat.reduceEqDiff, if_false, if_true]
      rw [show 4 * picSymbolStubInstructions.length = 12 from rfl, hout, (h.literal he).2 hs]
    rw [hmem]
    apply h.restored he hsize (by rw [hs]; rfl) _ hlast
    intro j hj
    have hj' : j < 3 := hj
    interval_cases j
    · exact h0
    · exact h1
    · exact h2

lemma calls_of_holds {f : HostFunction} (hholds : Holds image start d e (some (.host f))) :
    ∃ svc, decodeSvc (d.mem e.stub) = some svc ∧ ¬ (svc = svcLazyLink ∨ svc = svcLazyLinkRetFlag) ∧
      Returns d.mem e.stub svc ∧
      ∀ target, d.getSvcHandler bins e.stub svc target = .ok (some f, d) := by
  obtain ⟨-, hret, idx, hidx, hlt, hword⟩ := hholds
  obtain ⟨hplain, hflagged⟩ := unflag hlt
  have hflag : svcLazyLinkRetFlag = 2 ^ 23 := rfl
  have hbase : svcLinkedFunctionsBase = 3 := rfl
  have hlazy : svcLazyLink = 0 := rfl
  have hexit : svcThreadExit = 1 := rfl
  have hhost : svcReturnToHost = 2 := rfl
  have hnum : idx + svcLinkedFunctionsBase - svcLinkedFunctionsBase = idx := Nat.add_sub_cancel _ _
  by_cases hs : e.info.entrySize = 4
  · rw [if_pos hs] at hword
    refine ⟨_, (congrArg decodeSvc hword).trans (decodeSvc_svc (by omega)), by omega,
      .inl (flag_ne_zero hlt), fun target => ?_⟩
    rw [Dyld.getSvcHandler, if_neg (by omega), if_neg (by omega), ← flag_eq hlt, hflagged, hnum, hidx]
    rfl
  · rw [if_neg hs, add_zero] at hword
    refine ⟨_, (congrArg decodeSvc hword).trans (decodeSvc_svc (by omega)), by omega,
      .inr (hret hs), fun target => ?_⟩
    rw [Dyld.getSvcHandler, if_neg (by omega), if_neg (by omega), hplain, hnum, hidx]
    rfl

lemma Laid.linkHost {f : HostFunction} {out : Option HostFunction × Dyld} (h : Laid bins image)
    (hstart : setupAll bins image = .ok start) (he : e ∈ entries bins)
    (hholds : Holds image start d e none)
    (hlen : d.linkedHostFunctions.length + svcLinkedFunctionsBase < svcLazyLinkRetFlag)
    (hstep : d.doLazyLink bins e.stub (.host f) = .ok out) :
    Apart e d.mem out.2.mem ∧ Holds image start out.2 e (some (.host f)) ∧
      out.2.linkedHostFunctions = d.linkedHostFunctions ++ [f] := by
  obtain ⟨hpos, -⟩ := h.index he
  have hlazy := h.lazyApart e he e he
  obtain ⟨-, hret, -⟩ := h.lazy hstart he
  obtain ⟨⟨stubs, picOffset⟩, hfind, hstep⟩ := bind_eq_ok.mp hstep
  rw [unwrap_eq_ok, h.findStubs he] at hfind
  obtain ⟨rfl, rfl⟩ := Prod.mk.inj (some.inj hfind)
  obtain ⟨info, hinfo, hstep⟩ := bind_eq_ok.mp hstep
  rw [unwrap_eq_ok, he.2.2.2.1] at hinfo
  obtain rfl := some.inj hinfo
  obtain ⟨_, -, hstep⟩ := bind_eq_ok.mp hstep
  obtain ⟨_, -, hstep⟩ := bind_eq_ok.mp hstep
  obtain ⟨svc, hsvc, hstep⟩ := bind_eq_ok.mp hstep
  obtain ⟨w, hw, hstep⟩ := bind_eq_ok.mp hstep
  obtain ⟨hnumber, hsmall⟩ := svcFor_eq_ok hlen hsvc
  obtain ⟨_, -, hw⟩ := bind_eq_ok.mp hw
  have hword : w = 0xef000000 + svc := by
    rw [← svc_eq hsmall]
    exact (ok.inj hw).symm
  have hout : out = (some f, ⟨update d.mem e.stub w, d.linkedHostFunctions ++ [f]⟩) := by
    split at hstep
    · obtain ⟨_, -, hstep⟩ := bind_eq_ok.mp hstep
      exact (ok.inj hstep).symm
    · exact (ok.inj hstep).symm
  obtain rfl := hout
  refine ⟨fun a hin _ => ?_, ⟨?_, fun hs => ?_, _, getElem?_concat_length, hlen, ?_⟩, rfl⟩
  · apply update_of_ne
    rintro rfl
    exact hin ⟨le_rfl, by dsimp only; omega⟩
  · have hne : e.lazyPtr ≠ e.stub := by omega
    exact (update_of_ne hne _ _).trans hholds.2
  · have hroom : 4 < e.info.entrySize := by
      obtain hs' | hs' := (h.size he).resolve_left hs <;> omega
    exact (update_of_ne (by omega) _ _).trans
      ((hholds.1 _ (by omega) (by omega)).trans (hret hs))
  · exact (update_self _ _ _).trans (by rw [hword, hnumber])

lemma Laid.linkGuest {addr : ℕ} {out : Option HostFunction × Dyld} (h : Laid bins image)
    (he : e ∈ entries bins) (hstep : d.doLazyLink bins e.stub (.guest addr) = .ok out) :
    out.2 = { d with
      mem := LazyStubs.linkByRestoringStub d.mem addr e.stub e.info.entrySize e.picOffset } := by
  obtain ⟨⟨stubs, picOffset⟩, hfind, hstep⟩ := bind_eq_ok.mp hstep
  rw [unwrap_eq_ok, h.findStubs he] at hfind
  obtain ⟨rfl, rfl⟩ := Prod.mk.inj (some.inj hfind)
  obtain ⟨info, hinfo, hstep⟩ := bind_eq_ok.mp hstep
  rw [unwrap_eq_ok, he.2.2.2.1] at hinfo
  obtain rfl := some.inj hinfo
  obtain ⟨_, -, hstep⟩ := bind_eq_ok.mp hstep
  obtain ⟨_, -, hstep⟩ := bind_eq_ok.mp hstep
  obtain rfl := ok.inj hstep
  rfl

lemma Laid.doLazyLink {target : Target} {out : Option HostFunction × Dyld} (h : Laid bins image)
    (hstart : setupAll bins image = .ok start) (he : e ∈ entries bins)
    (hholds : Holds image start d e none)
    (huse : resolvable e.info.entrySize d.linkedHostFunctions.length target = true)
    (hstep : d.doLazyLink bins e.stub target = .ok out) :
    Apart e d.mem out.2.mem ∧ Holds image start out.2 e (some target) ∧
      ∀ (idx : ℕ) (f : HostFunction), d.linkedHostFunctions[idx]? = some f →
        out.2.linkedHostFunctions[idx]? = some f := by
  cases target with
  | guest addr =>
    obtain ⟨hapart, hguest⟩ := h.linkByRestoringStub hstart he (of_decide_eq_true huse) hholds addr
    rw [h.linkGuest he hstep]
    exact ⟨hapart, hguest, fun _ _ hidx => hidx⟩
  | host f =>
    obtain ⟨hapart, hhost, hlinked⟩ := 
      h.linkHost hstart he hholds (of_decide_eq_true huse) hstep
    refine ⟨hapart, hhost, fun idx g hidx => ?_⟩
    obtain ⟨hlt, -⟩ := List.getElem?_eq_some_iff.mp hidx
    rw [hlinked, getElem?_append_left hlt]
    exact hidx

lemma Laid.step {r : Call bins} (h : Laid bins image) (hstart : setupAll bins image = .ok start)
    (hholds : ∀ e ∈ entries bins, Holds image start w.dyld e (w.resolved e.stub))
    (huse : StubUse w r = true) (hstep : w.step r = .ok w') :
    ∀ e ∈ entries bins, Holds image start w'.dyld e (w'.resolved e.stub) := by
  obtain ⟨⟨e, he⟩, target⟩ := r
  obtain ⟨hpos, -⟩ := h.index he
  have hown := hholds e he
  rw [Linking.step] at hstep
  dsimp only at hstep
  cases hres : w.resolved e.stub with
  | none =>
    rw [hres] at hown
    have hsvc : decodeSvc (w.dyld.mem e.stub) =
        some (if e.info.entrySize = 4 then svcLazyLinkRetFlag else svcLazyLink) := by
      rw [hown.1 _ le_rfl (by omega), (h.lazy hstart he).1]
      apply decodeSvc_svc
      split <;> decide
    have hlazy : (if e.info.entrySize = 4 then svcLazyLinkRetFlag else svcLazyLink) = svcLazyLink ∨
        (if e.info.entrySize = 4 then svcLazyLinkRetFlag else svcLazyLink) = svcLazyLinkRetFlag := by
      split
      · exact .inr rfl
      · exact .inl rfl
    rw [hsvc] at hstep
    dsimp only at hstep
    rw [Dyld.getSvcHandler, if_pos hlazy, if_pos hlazy] at hstep
    obtain ⟨out, hlink, hstep⟩ := bind_eq_ok.mp hstep
    obtain rfl := ok.inj hstep
    obtain ⟨hapart, hnew, hlinked⟩ := h.doLazyLink hstart he hown huse hlink
    intro e' he'
    by_cases heq : e' = e
    · subst heq
      dsimp only
      rw [update_self]
      exact hnew
    · have hne : e'.stub ≠ e.stub := by
        obtain ⟨hpos', -⟩ := h.index he'
        obtain hapart | hapart := (h.apart e' he' e he heq).1 <;> omega
      dsimp only
      rw [update_of_ne hne]
      exact h.holds_other he he' heq (hholds e' he') hapart hlinked
  | some t =>
    rw [hres] at hown
    cases t with
    | guest addr =>
      have hsvc : decodeSvc (w.dyld.mem e.stub) = none := by
        have hword : w.dyld.mem e.stub = image e.stub := hown.2.1 0 (by omega)
        rw [hword]
        obtain hs | hs := (h.size he).resolve_left hown.1
        · rw [((h.pattern he).1 hs).1]
          rfl
        · rw [((h.pattern he).2 hs).1]
          rfl
      rw [hsvc] at hstep
      obtain rfl := ok.inj hstep
      exact hholds
    | host f =>
      obtain ⟨svc, hsvc, hlazy, -, hcall⟩ := calls_of_holds hown
      rw [hsvc] at hstep
      dsimp only at hstep
      obtain ⟨out, hout, hstep⟩ := bind_eq_ok.mp hstep
      rw [hcall target] at hout
      obtain rfl := ok.inj hout
      rw [if_neg hlazy] at hstep
      obtain rfl := ok.inj hstep
      exact hholds

/-- For binaries as they are loaded and set up, whatever the order of calls. -/
theorem ownEntries_of_use (bins : List MachO) (image start : Words) (functions : List HostFunction)
    (hlaid : Laid bins image) (hstart : setupAll bins image = .ok start) (rs : List (Call bins))
    (w : Linking)
    (huse : Along Linking.step (fun w r => StubUse w r = true)
      ⟨⟨start, functions⟩, fun _ => none⟩ rs)
    (hrun : run Linking.step ⟨⟨start, functions⟩, fun _ => none⟩ rs = .ok w) :
    OwnEntries bins start w := by
  have hbegin : ∀ e ∈ entries bins, Holds image start ⟨start, functions⟩ e none :=
    fun _ _ => ⟨fun _ _ _ => rfl, rfl⟩
  have hholds : ∀ e ∈ entries bins, Holds image start w.dyld e (w.resolved e.stub) :=
    run_preserves (I := fun w => ∀ e ∈ entries bins,
        Holds image start w.dyld e (w.resolved e.stub))
      (fun _ _ _ h huse hstep => hlaid.step hstart h huse hstep)
      hbegin huse hrun
  refine ⟨fun e he addr hres => ?_, fun e he f hres => ?_, fun e he hres => ?_⟩
  · have hown := hholds e he
    rw [hres] at hown
    obtain ⟨hsize, hwords, hptr⟩ := hown
    refine ⟨fun ip => ?_, hptr⟩
    rw [hlaid.loads he hsize hwords, hptr]
  · have hown := hholds e he
    rw [hres] at hown
    obtain ⟨svc, hsvc, -, hret, hcall⟩ := calls_of_holds hown
    exact ⟨hown.1, svc, hsvc, hret, hcall⟩
  · have hown := hholds e he
    rw [hres] at hown
    exact hown

def twoStubs (entrySize : ℕ) : MachO :=
  ⟨[⟨0x1000, 2 * entrySize, .symbolStubs, some ⟨entrySize, [some "_malloc", some "_free"]⟩⟩,
    ⟨0x1040, 8, .lazySymbolPointers, none⟩]⟩

def stubEntry (entrySize index : ℕ) : Entry :=
  ⟨twoStubs entrySize, ⟨0x1000, 2 * entrySize, .symbolStubs,
    some ⟨entrySize, [some "_malloc", some "_free"]⟩⟩, ⟨0x1040, 8, .lazySymbolPointers, none⟩,
    ⟨entrySize, [some "_malloc", some "_free"]⟩, index⟩

lemma mem_entries_twoStubs {entrySize : ℕ} (hpos : 0 < entrySize) :
    e ∈ entries [twoStubs entrySize] ↔ e = stubEntry entrySize 0 ∨ e = stubEntry entrySize 1 := by
  have hcount : 2 * entrySize / entrySize = 2 := Nat.mul_div_cancel _ hpos
  constructor
  · rintro ⟨hbin, hstubs, hlazy, hinfo, hindex⟩
    obtain ⟨bin, stubs, lazyPtrs, info, index⟩ := e
    obtain rfl := mem_singleton.mp hbin
    obtain rfl := some.inj hstubs
    obtain rfl := some.inj hlazy
    obtain rfl := some.inj hinfo
    have hindex : index < 2 * entrySize / entrySize := hindex
    rw [hcount] at hindex
    interval_cases index
    · exact .inl rfl
    · exact .inr rfl
  · rintro (rfl | rfl)
    · exact ⟨mem_singleton_self _, rfl, rfl, rfl, by
        change 0 < 2 * entrySize / entrySize
        rw [hcount]
        exact two_pos⟩
    · exact ⟨mem_singleton_self _, rfl, rfl, rfl, by
        change 1 < 2 * entrySize / entrySize
        rw [hcount]
        exact one_lt_two⟩

def stubImage (entrySize : ℕ) : Words := fun a =>
  if entrySize = 4 then if a = 0x1000 ∨ a = 0x1004 then 0xe59ff038 else 0
  else if a = 0x1000 ∨ a = 0x100c then 0xe59fc000
  else if a = 0x1004 ∨ a = 0x1010 then 0xe59cf000
  else if a = 0x1008 then 0x1040
  else if a = 0x1014 then 0x1044
  else 0

lemma laid_twoStubs {entrySize : ℕ} (hsize : entrySize = 4 ∨ entrySize = 12) :
    Laid [twoStubs entrySize] (stubImage entrySize) := by
  have hpos : 0 < entrySize := by omega
  refine ⟨nodup_singleton _, fun bin hbin stubs hstubs => ?_, fun e he expected hexp j hj => ?_,
    fun e he ip => ?_, fun e he => ?_, fun e he e' he' hne => ?_, fun e he e' he' => ?_⟩
  · obtain rfl := mem_singleton.mp hbin
    obtain rfl := some.inj hstubs
    exact ⟨_, _, rfl, rfl, hsize.imp_right .inl, Nat.mul_mod_left 2 entrySize⟩
  · rw [mem_entries_twoStubs hpos] at he
    obtain rfl | rfl := hsize
    · obtain rfl | rfl := he <;> obtain rfl := some.inj hexp <;> cases hj
    · obtain rfl | rfl := he <;> obtain rfl := some.inj hexp <;>
        (have hj' : j < 2 := hj; interval_cases j <;> rfl)
  · rw [mem_entries_twoStubs hpos] at he
    obtain rfl | rfl := hsize
    · obtain rfl | rfl := he <;> norm_num [loadsPc, stubEntry, Entry.stub, Entry.lazyPtr, stubImage]
    · obtain rfl | rfl := he <;> exact loadsPc_symbolStub rfl rfl (by decide)
  · rw [mem_entries_twoStubs hpos] at he
    obtain rfl | rfl := hsize <;> obtain rfl | rfl := he <;> decide
  · rw [mem_entries_twoStubs hpos] at he he'
    obtain rfl | rfl := hsize <;> obtain rfl | rfl := he <;> obtain rfl | rfl := he' <;>
      first | exact absurd rfl hne | decide
  · rw [mem_entries_twoStubs hpos] at he he'
    obtain rfl | rfl := hsize <;> obtain rfl | rfl := he <;> obtain rfl | rfl := he' <;> decide

def stubCall (entrySize index : ℕ) (h : stubEntry entrySize index ∈ entries [twoStubs entrySize])
    (target : Target) : Call [twoStubs entrySize] := ⟨⟨stubEntry entrySize index, h⟩, target⟩

lemma stubEntry_mem {entrySize index : ℕ} (hpos : 0 < entrySize) (h : index = 0 ∨ index = 1) :
    stubEntry entrySize index ∈ entries [twoStubs entrySize] := by
  apply (mem_entries_twoStubs hpos).mpr
  obtain rfl | rfl := h
  · exact .inl rfl
  · exact .inr rfl

theorem ownEntries_of_use_both : ∃ start w, setupAll [twoStubs 12] (stubImage 12) = .ok start ∧
    run Linking.step ⟨⟨start, [7]⟩, fun _ => none⟩
      [stubCall 12 1 (stubEntry_mem (by decide) (.inr rfl)) (.guest 0x5000),
        stubCall 12 0 (stubEntry_mem (by decide) (.inl rfl)) (.host 8),
        stubCall 12 0 (stubEntry_mem (by decide) (.inl rfl)) (.host 9)] = .ok w ∧
      OwnEntries [twoStubs 12] start w := by
  have hlaid : Laid [twoStubs 12] (stubImage 12) := laid_twoStubs (.inr rfl)
  have hstart : setupAll [twoStubs 12] (stubImage 12) = .ok _ := setupAll_eq hlaid
  have hcheck : succeedsWith (fun _ => true) (run Linking.step
      ⟨⟨([twoStubs 12].flatMap stubList).foldl setupOne (stubImage 12), [7]⟩, fun _ => none⟩
      [stubCall 12 1 (stubEntry_mem (by decide) (.inr rfl)) (.guest 0x5000),
        stubCall 12 0 (stubEntry_mem (by decide) (.inl rfl)) (.host 8),
        stubCall 12 0 (stubEntry_mem (by decide) (.inl rfl)) (.host 9)]) = true := by
    decide
  obtain ⟨w, hrun, -⟩ := exists_of_succeedsWith hcheck
  exact ⟨_, w, hstart, hrun, ownEntries_of_use _ _ _ _ hlaid hstart _ w (by decide) hrun⟩

theorem not_ownEntries : ¬ ∀ (bins : List MachO) (image start : Words)
    (functions : List HostFunction), Laid bins image → setupAll bins image = .ok start →
      ∀ (rs : List (Call bins)) (w : Linking),
        run Linking.step ⟨⟨start, functions⟩, fun _ => none⟩ rs = .ok w →
          OwnEntries bins start w := by
  intro h
  have hlaid : Laid [twoStubs 4] (stubImage 4) := laid_twoStubs (.inl rfl)
  have hstart : setupAll [twoStubs 4] (stubImage 4) = .ok _ := setupAll_eq hlaid
  have hcheck : succeedsWith (fun w => decide (w.resolved 0x1000 = some (.guest 0x5000) ∧
      w.dyld.mem 0x1040 = 0 ∧ w.dyld.mem 0x1048 = 0x5000)) (run Linking.step
        ⟨⟨([twoStubs 4].flatMap stubList).foldl setupOne (stubImage 4), []⟩, fun _ => none⟩
        [stubCall 4 0 (stubEntry_mem (by decide) (.inl rfl)) (.guest 0x5000)]) = true := by
    decide
  obtain ⟨w, hrun, hw⟩ := exists_of_succeedsWith hcheck
  obtain ⟨hres, hptr, -⟩ := of_decide_eq_true hw
  have hown := (h _ _ _ [] hlaid hstart _ w hrun).guest (stubEntry 4 0)
    (stubEntry_mem (by decide) (.inl rfl)) 0x5000 hres
  cases hown.2.symm.trans hptr

end

end TouchHle.Loader.LazyStubs
